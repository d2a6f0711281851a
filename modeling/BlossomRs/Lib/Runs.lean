import Mathlib.Tactic

/-!
# Runs of a step function

A run feeds a list of inputs to a step function.  `run_invariant` is the rule for what holds along a
run: it may speak about the inputs consumed so far, and each step may use what is known of its place
in the whole list.

Where a step may be refused, `tryRun` is the state after inputs none of which was.

Where a step also answers, `log` is the list of inputs with their answers.  `log_eq_of_simulates` is
the rule for two systems that give the same answers.
-/

namespace Runs

variable {σ α : Type}

/-- The state after all inputs. -/
def run (step : σ → α → σ) (s : σ) (inputs : List α) : σ :=
  inputs.foldl step s

variable {step : σ → α → σ} {s : σ}

@[simp] theorem run_nil : run step s [] = s :=
  rfl

@[simp] theorem run_cons (a : α) (inputs : List α) :
    run step s (a :: inputs) = run step (step s a) inputs :=
  rfl

theorem run_append (pre post : List α) :
    run step s (pre ++ post) = run step (run step s pre) post :=
  List.foldl_append

@[simp] theorem run_concat (pre : List α) (a : α) :
    run step s (pre ++ [a]) = step (run step s pre) a := by
  rw [run_append, run_cons, run_nil]

/-- **Invariants of runs.**  What holds before the first input and is kept by each input of the list
holds after every prefix of it. -/
theorem run_invariant {P : List α → σ → Prop} {inputs : List α} (hinit : P [] s)
    (hstep : ∀ pre a post, inputs = pre ++ a :: post → P pre (run step s pre) →
      P (pre ++ [a]) (step (run step s pre) a)) :
    ∀ pre post, inputs = pre ++ post → P pre (run step s pre) := by
  intro pre
  induction pre using List.reverseRecOn with
  | nil =>
    intro post _
    exact hinit
  | append_singleton pre a ih =>
    intro post h
    have hsplit : inputs = pre ++ a :: post := by rw [h, List.append_assoc]; rfl
    rw [run_concat]
    exact hstep pre a post hsplit (ih (a :: post) hsplit)

/-! ### Steps that may be refused -/

/-- The state after all inputs, if none is refused. -/
def tryRun (step : σ → α → Option σ) (s : σ) (inputs : List α) : Option σ :=
  inputs.foldlM step s

/-- What holds before the first input and is kept by each accepted one holds after all of them. -/
theorem tryRun_invariant {step : σ → α → Option σ} {P : List α → σ → Prop} (hinit : P [] s)
    (hstep : ∀ pre a t next, P pre t → step t a = some next → P (pre ++ [a]) next) :
    ∀ inputs t, tryRun step s inputs = some t → P inputs t := by
  intro inputs
  induction inputs using List.reverseRecOn with
  | nil =>
    intro t h
    obtain rfl : s = t := Option.some.inj h
    exact hinit
  | append_singleton inputs a ih =>
    intro t h
    rw [tryRun, List.foldlM_append, Option.bind_eq_bind, Option.bind_eq_some_iff] at h
    obtain ⟨before, hbefore, hlast⟩ := h
    have hnext : step before a = some t := by simpa using hlast
    exact hstep inputs a before t (ih before hbefore) hnext

/-! ### Inputs in their places -/

theorem forall_split_nil {P : List α → α → Prop} :
    (∀ pre a post, ([] : List α) = pre ++ a :: post → P pre a) ↔ True := by
  simp

/-- What holds of every input in its place holds of the first, and of the others behind it. -/
theorem forall_split_cons {P : List α → α → Prop} {x : α} {xs : List α} :
    (∀ pre a post, x :: xs = pre ++ a :: post → P pre a)
      ↔ P [] x ∧ ∀ pre a post, xs = pre ++ a :: post → P (x :: pre) a := by
  constructor
  · intro h
    exact ⟨h [] x xs rfl, fun pre a post hsplit => h (x :: pre) a post (by rw [hsplit]; rfl)⟩
  · rintro ⟨hfirst, hrest⟩ pre a post hsplit
    cases pre with
    | nil =>
      obtain ⟨rfl, -⟩ := List.cons.inj hsplit
      exact hfirst
    | cons y pre =>
      obtain ⟨rfl, hxs⟩ := List.cons.inj hsplit
      exact hrest pre a post hxs

/-- Inputs made by a function keep their places. -/
theorem forall_split_map {β : Type} {f : β → α} {P : List α → α → Prop} {ys : List β}
    (h : ∀ pre b post, ys = pre ++ b :: post → P (pre.map f) (f b)) :
    ∀ pre a post, ys.map f = pre ++ a :: post → P pre a := by
  intro pre a post hsplit
  obtain ⟨before, rest, hys, rfl, hrest⟩ := List.map_eq_append_iff.mp hsplit
  obtain ⟨b, after, rfl, rfl, -⟩ := List.map_eq_cons_iff.mp hrest
  exact h before b after hys

/-! ### Steps that answer -/

section Answers

variable {τ ω : Type}

/-- The state after all inputs, of a step that also answers. -/
def after (step : σ → α → ω × σ) (s : σ) (inputs : List α) : σ :=
  run (fun s a => (step s a).2) s inputs

/-- The inputs, each with its answer. -/
def log (step : σ → α → ω × σ) : σ → List α → List (α × ω)
  | _, [] => []
  | s, a :: inputs => (a, (step s a).1) :: log step (step s a).2 inputs

variable {step : σ → α → ω × σ}

@[simp] theorem after_nil : after step s [] = s :=
  rfl

@[simp] theorem after_cons (a : α) (inputs : List α) :
    after step s (a :: inputs) = after step (step s a).2 inputs :=
  rfl

theorem after_append (pre post : List α) :
    after step s (pre ++ post) = after step (after step s pre) post :=
  run_append pre post

theorem log_append (pre post : List α) :
    log step s (pre ++ post) = log step s pre ++ log step (after step s pre) post := by
  induction pre generalizing s with
  | nil => rfl
  | cons a pre ih => rw [List.cons_append, log, log, ih, List.cons_append, after_cons]

theorem map_fst_log (inputs : List α) : (log step s inputs).map Prod.fst = inputs := by
  induction inputs generalizing s with
  | nil => rfl
  | cons a inputs ih => rw [log, List.map_cons, ih]

variable {inputs : List α}

/-- A place in the log is a place in the inputs. -/
theorem log_eq_append_cons {before behind : List (α × ω)} {entry : α × ω}
    (h : log step s inputs = before ++ entry :: behind) :
    ∃ pre post, inputs = pre ++ entry.1 :: post ∧ before = log step s pre
      ∧ entry.2 = (step (after step s pre) entry.1).1
      ∧ behind = log step (step (after step s pre) entry.1).2 post := by
  induction before generalizing s inputs with
  | nil =>
    cases inputs with
    | nil => simp [log] at h
    | cons a inputs =>
      obtain ⟨rfl, rfl⟩ := List.cons.inj h
      exact ⟨[], inputs, rfl, rfl, rfl, rfl⟩
  | cons first before ih =>
    cases inputs with
    | nil => simp [log] at h
    | cons a inputs =>
      obtain ⟨rfl, hrest⟩ := List.cons.inj h
      obtain ⟨pre, post, rfl, rfl, hanswer, hbehind⟩ := ih hrest
      exact ⟨a :: pre, post, rfl, rfl, hanswer, hbehind⟩

/-- **Simulation.**  Two systems whose steps answer alike and stay related, wherever they are
related, have the same log. -/
theorem log_eq_of_simulates {step' : τ → α → ω × τ} {t : τ} {R : σ → τ → Prop} (hinit : R s t)
    (hstep : ∀ pre a post, inputs = pre ++ a :: post → R (after step s pre) (after step' t pre) →
      (step (after step s pre) a).1 = (step' (after step' t pre) a).1
        ∧ R (step (after step s pre) a).2 (step' (after step' t pre) a).2) :
    log step s inputs = log step' t inputs := by
  induction inputs generalizing s t with
  | nil => rfl
  | cons a inputs ih =>
    obtain ⟨hanswer, hnext⟩ := hstep [] a inputs rfl hinit
    have hrest := ih hnext fun pre b post hsplit hrelated =>
      hstep (a :: pre) b post (by rw [hsplit]; rfl) hrelated
    exact congrArg₂ List.cons (Prod.ext rfl hanswer) hrest

/-- Systems whose steps stay related are related after the run. -/
theorem after_of_simulates {step' : τ → α → ω × τ} {t : τ} {R : σ → τ → Prop} (hinit : R s t)
    (hstep : ∀ s t, R s t → ∀ a ∈ inputs, R (step s a).2 (step' t a).2) :
    R (after step s inputs) (after step' t inputs) := by
  induction inputs generalizing s t with
  | nil => exact hinit
  | cons a inputs ih =>
    have hnext := hstep s t hinit a List.mem_cons_self
    exact ih hnext fun s t h b hb => hstep s t h b (List.mem_cons_of_mem _ hb)

end Answers

end Runs
