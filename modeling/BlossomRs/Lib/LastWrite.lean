import BlossomRs.Lib.Runs

/-!
# The last write counts

Some inputs of a run write a value that is observed on the state, all others leave it.  After the run
the value is what the last such input wrote, or what it was before when there is none.
-/

namespace LastWrite

variable {σ α β : Type}

/-- The input that stands after `before` touches the value, and no later one does. -/
def LastAt (touches : α → Prop) (inputs before : List α) (a : α) : Prop :=
  touches a ∧ ∃ after, inputs = before ++ a :: after ∧ ∀ b ∈ after, ¬ touches b

/-- What the inputs that touch an observed value do to it, and what the others do. -/
structure Overwrites (step : σ → α → σ) (observe : σ → β) (touches : α → Prop) (write : α → β) :
    Prop where
  written : ∀ s a, touches a → observe (step s a) = write a
  kept : ∀ s a, ¬ touches a → observe (step s a) = observe s

variable {inputs : List α} {s : σ}

theorem exists_lastAt {touches : α → Prop} (h : ∃ a ∈ inputs, touches a) :
    ∃ before a, LastAt touches inputs before a := by
  induction inputs using List.reverseRecOn with
  | nil =>
    obtain ⟨a, ha, -⟩ := h
    cases ha
  | append_singleton inputs last ih =>
    by_cases hlast : touches last
    · exact ⟨inputs, last, hlast, [], rfl, by simp⟩
    · obtain ⟨a, ha, htouches⟩ := h
      have hmem : a ∈ inputs := by
        rcases List.mem_append.mp ha with ha | ha
        · exact ha
        · exact absurd (List.mem_singleton.mp ha ▸ htouches) hlast
      obtain ⟨before, found, hfound, after, rfl, hafter⟩ := ih ⟨a, hmem, htouches⟩
      refine ⟨before, found, hfound, after ++ [last], by simp, ?_⟩
      intro b hb
      rcases List.mem_append.mp hb with hb | hb
      · exact hafter b hb
      · exact List.mem_singleton.mp hb ▸ hlast

variable {step : σ → α → σ} {observe : σ → β} {touches : α → Prop} {write : α → β}
  (h : Overwrites step observe touches write)

include h

theorem Overwrites.run_untouched (hinputs : ∀ a ∈ inputs, ¬ touches a) :
    observe (Runs.run step s inputs) = observe s := by
  induction inputs generalizing s with
  | nil => rfl
  | cons a inputs ih =>
    rw [Runs.run_cons, ih fun b hb => hinputs b (by simp [hb]), h.kept s a (hinputs a (by simp))]

theorem Overwrites.run_lastAt {before : List α} {a : α} (hlast : LastAt touches inputs before a) :
    observe (Runs.run step s inputs) = write a := by
  obtain ⟨ha, after, rfl, hafter⟩ := hlast
  rw [Runs.run_append, Runs.run_cons, h.run_untouched hafter, h.written _ a ha]

/-- What holds of the value before the run holds after it when the last write respects it. -/
theorem Overwrites.run_iff_forall {P : β → Prop} (hs : P (observe s)) (inputs : List α) :
    P (observe (Runs.run step s inputs))
      ↔ ∀ before a, LastAt touches inputs before a → P (write a) := by
  constructor
  · intro hrun before a hlast
    rwa [h.run_lastAt hlast] at hrun
  · intro hwrite
    by_cases htouched : ∃ a ∈ inputs, touches a
    · obtain ⟨before, a, hlast⟩ := exists_lastAt htouched
      rw [h.run_lastAt hlast]
      exact hwrite before a hlast
    · rwa [h.run_untouched fun a ha htouches => htouched ⟨a, ha, htouches⟩]

/-- What does not hold before the run holds after it when the last write brings it about. -/
theorem Overwrites.run_iff_exists {P : β → Prop} (hs : ¬ P (observe s)) (inputs : List α) :
    P (observe (Runs.run step s inputs))
      ↔ ∃ before a, LastAt touches inputs before a ∧ P (write a) := by
  have hnot := h.run_iff_forall (P := (¬ P ·)) hs inputs
  constructor
  · intro hrun
    by_contra hnone
    refine hnot.mpr ?_ hrun
    intro before a hlast hwrite
    exact hnone ⟨before, a, hlast, hwrite⟩
  · rintro ⟨before, a, hlast, hwrite⟩
    rwa [h.run_lastAt hlast]

end LastWrite
