import Mathlib.Data.Rat.Floor
import Mathlib.Tactic
import BlossomRs.Lib.Runs

/-!
# Metered steps

A system answers timed requests one after the other.  Where a level of at most `cap` grows by at most
`rate` for each unit of time, and every counted request that is granted costs one, no window of a
history grants more than `cap + rate * width` of them (`grantedIn_le`).
-/

namespace Metered

open Runs

variable {σ ε : Type}

section Window

variable (time : ε → ℕ) (counted : ε → Bool)

/-- How many of the counted requests were granted in a window of time. -/
def grantedIn (t₀ t₁ : ℕ) (answers : List (ε × Bool)) : ℕ :=
  answers.countP fun answer =>
    answer.2 && counted answer.1 && decide (t₀ ≤ time answer.1) && decide (time answer.1 ≤ t₁)

/-- The requests come in the order of their times, none before `start`. -/
structure Chronological (start : ℕ) (es : List ε) : Prop where
  from_start : ∀ e ∈ es, start ≤ time e
  ordered : es.Pairwise fun a b => time a ≤ time b

variable {time}

variable {start t₁ t : ℕ} {es : List ε}

/-- The order of a list also begins with its first request. -/
theorem Chronological.from_first {e : ε} (h : Chronological time start (e :: es)) :
    Chronological time (time e) (e :: es) := by
  refine ⟨fun f hf => ?_, h.ordered⟩
  rcases List.mem_cons.mp hf with rfl | hf
  · exact le_rfl
  · exact (List.pairwise_cons.mp h.ordered).1 f hf

theorem Chronological.tail {e : ε} (h : Chronological time start (e :: es)) :
    Chronological time (time e) es :=
  ⟨(List.pairwise_cons.mp h.ordered).1, (List.pairwise_cons.mp h.ordered).2⟩

variable {counted}

/-- What one answer adds. -/
theorem grantedIn_cons (t₀ t₁ : ℕ) (e : ε) (granted : Bool) (answers : List (ε × Bool)) :
    grantedIn time counted t₀ t₁ ((e, granted) :: answers)
      = grantedIn time counted t₀ t₁ answers
        + if granted && counted e && decide (t₀ ≤ time e) && decide (time e ≤ t₁) then 1 else 0 :=
  List.countP_cons

theorem grantedIn_append (t₀ t₁ : ℕ) (answers answers' : List (ε × Bool)) :
    grantedIn time counted t₀ t₁ (answers ++ answers')
      = grantedIn time counted t₀ t₁ answers + grantedIn time counted t₀ t₁ answers' :=
  List.countP_append

variable {step : σ → ε → Bool × σ}

/-- Requests after a window do not count. -/
theorem grantedIn_eq_zero {t₀ : ℕ} (h : Chronological time start es) (hlate : t₁ < start) (s : σ) :
    grantedIn time counted t₀ t₁ (log step s es) = 0 := by
  refine List.countP_eq_zero.mpr fun answer hanswer => ?_
  have hmem : answer.1 ∈ es := by
    have hmem := List.mem_map_of_mem (f := Prod.fst) hanswer
    rwa [map_fst_log] at hmem
  have hfrom := h.from_start _ hmem
  simp only [Bool.and_eq_true, decide_eq_true_eq, not_and]
  intro _
  omega

/-- A level that grows with time and pays for the counted requests that are granted. -/
structure Pays (step : σ → ε → Bool × σ) (time : ε → ℕ) (counted : ε → Bool) (Inv : ℕ → σ → Prop)
    (level : ℕ → σ → ℚ) (cap rate : ℚ) : Prop where
  rate_nonneg : 0 ≤ rate
  nonneg : ∀ {t s}, Inv t s → 0 ≤ level t s
  le_cap : ∀ t s, level t s ≤ cap
  wait : ∀ {t t' s}, t ≤ t' → Inv t s → Inv t' s ∧ level t' s ≤ level t s + rate * (t' - t)
  pay : ∀ {s e}, Inv (time e) s → Inv (time e) (step s e).2 ∧
    level (time e) (step s e).2 + (if (step s e).1 && counted e then 1 else 0) ≤ level (time e) s

variable {Inv : ℕ → σ → Prop} {level : ℕ → σ → ℚ} {cap rate : ℚ}

section

variable (h : Pays step time counted Inv level cap rate)
include h

theorem Pays.grown_nonneg {t' : ℕ} (ht : t ≤ t') :
    0 ≤ rate * ((t' : ℚ) - t) :=
  mul_nonneg h.rate_nonneg (sub_nonneg.mpr (by exact_mod_cast ht))

/-- What is granted up to a time is paid from the level at hand. -/
theorem grantedIn_le_level (t₀ : ℕ) {s : σ} (hinv : Inv t s) (hes : Chronological time t es)
    (ht : t ≤ t₁) :
    (grantedIn time counted t₀ t₁ (log step s es) : ℚ) ≤ level t s + rate * (t₁ - t) := by
  have hnothing : (0 : ℚ) ≤ level t s + rate * (t₁ - t) :=
    add_nonneg (h.nonneg hinv) (h.grown_nonneg ht)
  induction es generalizing t s with
  | nil => simpa only [log, grantedIn, List.countP_nil, Nat.cast_zero] using hnothing
  | cons e es ih =>
    obtain ⟨hinv', hwait⟩ := h.wait (hes.from_start e (List.mem_cons_self ..)) hinv
    by_cases hlate : t₁ < time e
    · rw [grantedIn_eq_zero hes.from_first hlate, Nat.cast_zero]
      exact hnothing
    have hle : time e ≤ t₁ := not_lt.mp hlate
    obtain ⟨hnext, hpay⟩ := h.pay hinv'
    have hrest := ih hnext hes.tail hle (add_nonneg (h.nonneg hnext) (h.grown_nonneg hle))
    -- a request inside the window is paid, one before it may have been paid too
    have hcost : ((if (step s e).1 && counted e && decide (t₀ ≤ time e)
        && decide (time e ≤ t₁) then 1 else 0 : ℕ) : ℚ)
        ≤ if (step s e).1 && counted e then 1 else 0 := by
      cases (step s e).1 && counted e with
      | false => simp
      | true =>
        simp only [Bool.true_and, if_true]
        split <;> simp
    rw [log, grantedIn_cons, Nat.cast_add]
    calc (grantedIn time counted t₀ t₁ (log step (step s e).2 es) : ℚ) + _
        ≤ level (time e) (step s e).2 + rate * (t₁ - time e)
          + (if (step s e).1 && counted e then 1 else 0) := add_le_add hrest hcost
      _ ≤ level (time e) s + rate * (t₁ - time e) := by linarith
      _ ≤ level t s + rate * (t₁ - t) := by linarith

/-- **No window of a history grants more than the cap and what grows in it.** -/
theorem grantedIn_le {t₀ : ℕ} {s : σ} (hinv : Inv t s) (hes : Chronological time t es)
    (ht : t₀ ≤ t₁) :
    (grantedIn time counted t₀ t₁ (log step s es) : ℚ) ≤ cap + rate * (t₁ - t₀) := by
  have hnothing : (0 : ℚ) ≤ cap + rate * (t₁ - t₀) :=
    add_nonneg ((h.nonneg hinv).trans (h.le_cap t s)) (h.grown_nonneg ht)
  induction es generalizing t s with
  | nil => simpa only [log, grantedIn, List.countP_nil, Nat.cast_zero] using hnothing
  | cons e es ih =>
    obtain ⟨hinv', -⟩ := h.wait (hes.from_start e (List.mem_cons_self ..)) hinv
    by_cases hearly : time e < t₀
    · -- nothing counts before the window
      rw [log, grantedIn_cons, if_neg (by simp [Nat.not_le.mpr hearly]), add_zero]
      exact ih (h.pay hinv').1 hes.tail
    by_cases hlate : t₁ < time e
    · rw [grantedIn_eq_zero hes.from_first hlate, Nat.cast_zero]
      exact hnothing
    have hpaid := grantedIn_le_level h t₀ hinv' hes.from_first (not_lt.mp hlate)
    have hcap := h.le_cap (time e) s
    have hshort : (t₁ : ℚ) - time e ≤ t₁ - t₀ :=
      sub_le_sub_left (by exact_mod_cast not_lt.mp hearly) _
    have hgrown := mul_le_mul_of_nonneg_left hshort h.rate_nonneg
    linarith

end

end Window

end Metered
