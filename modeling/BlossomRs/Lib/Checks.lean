import Mathlib.Tactic

/-!
# Sequences of checks

Code that fails fast is a chain of binds in `Except`.  A chain returns a value exactly when every
link does, so a successful call is taken apart link by link with `bind_eq_ok` and `require_eq_ok`.
-/

namespace Checks

variable {ε α β : Type}

/-- Go on when the condition holds, fail with the given error otherwise. -/
def require (condition : Prop) [Decidable condition] (error : ε) : Except ε Unit :=
  if condition then .ok () else .error error

/-- Check a value that may be absent; an absent one passes. -/
def ifSome (value : Option α) (check : α → Except ε Unit) : Except ε Unit :=
  match value with
  | some a => check a
  | none => .ok ()

/-- A value that must be there. -/
def okOr (value : Option α) (error : ε) : Except ε α :=
  value.elim (.error error) .ok

variable {error e : ε} {x : Except ε α} {b : β} {check : α → Except ε Unit}

@[simp] theorem require_eq_ok {condition : Prop} [Decidable condition] {u : Unit} :
    require condition error = .ok u ↔ condition := by
  unfold require
  split <;> simp_all

theorem require_of_true {condition : Prop} [Decidable condition] (h : condition) :
    require condition error = .ok () :=
  require_eq_ok.mpr h

theorem require_of_false {condition : Prop} [Decidable condition] (h : ¬ condition) :
    require condition error = .error error :=
  if_neg h

@[simp] theorem bind_eq_ok {f : α → Except ε β} :
    (x >>= f) = .ok b ↔ ∃ a, x = .ok a ∧ f a = .ok b := by
  cases x with
  | error e => exact ⟨fun h => (nomatch h), fun ⟨_, h, _⟩ => (nomatch h)⟩
  | ok a => exact ⟨fun h => ⟨a, rfl, h⟩, fun ⟨_, h, hf⟩ => by cases h; exact hf⟩

/-- A check passes before the rest when it passes. -/
theorem seq_eq_ok {x : Except ε Unit} {f : Unit → Except ε β} :
    (x >>= f) = .ok b ↔ x = .ok () ∧ f () = .ok b := by
  rw [bind_eq_ok]
  exact ⟨fun ⟨_, h⟩ => h, fun h => ⟨(), h⟩⟩

/-- A loop returns the results of its rounds when all of them return one. -/
theorem mapM_eq_ok {f : α → Except ε β} {xs : List α} {ys : List β} :
    xs.mapM f = .ok ys ↔ xs.map f = ys.map .ok := by
  induction xs generalizing ys with
  | nil => cases ys <;> simp [pure, Except.pure]
  | cons x xs ih =>
    simp only [List.mapM_cons, bind_eq_ok, List.map_cons]
    constructor
    · rintro ⟨y, hy, rest, hrest, h⟩
      obtain rfl := Except.ok.inj h
      rw [hy, ih.mp hrest, List.map_cons]
    · intro h
      cases ys with
      | nil => cases h
      | cons y rest =>
        obtain ⟨hy, hrest⟩ := List.cons.inj h
        exact ⟨y, hy, rest, ih.mpr hrest, rfl⟩

/-- Every error the computation can end with is one of the given ones. -/
def FailsWith (P : ε → Prop) (x : Except ε α) : Prop :=
  ∀ ⦃e⦄, x = .error e → P e

theorem FailsWith.bind {P : ε → Prop} {f : α → Except ε β} (hx : FailsWith P x)
    (hf : ∀ a, FailsWith P (f a)) : FailsWith P (x >>= f) := by
  cases x with
  | error e =>
    intro e' h
    cases h
    exact hx rfl
  | ok a => exact hf a

theorem FailsWith.require {P : ε → Prop} {condition : Prop} [Decidable condition] (h : P error) :
    FailsWith P (require condition error) := by
  intro e he
  unfold Checks.require at he
  split at he <;> cases he
  exact h

theorem FailsWith.ifSome {P : ε → Prop} {value : Option α} (h : ∀ a, FailsWith P (check a)) :
    FailsWith P (ifSome value check) := by
  cases value with
  | none =>
    intro e he
    cases he
  | some a => exact h a

@[simp] theorem ifSome_some (a : α) (check : α → Except ε Unit) :
    ifSome (some a) check = check a :=
  rfl

@[simp] theorem ifSome_none (check : α → Except ε Unit) : ifSome none check = .ok () :=
  rfl

theorem ifSome_eq_ok {value : Option α} {u : Unit} :
    ifSome value check = .ok u ↔ ∀ a, value = some a → check a = .ok () := by
  cases value <;> simp

@[simp] theorem ok_bind (a : α) (f : α → Except ε β) : (Except.ok a >>= f) = f a :=
  rfl

@[simp] theorem error_bind (e : ε) (f : α → Except ε β) : (Except.error e >>= f) = .error e :=
  rfl

@[simp] theorem map_eq_ok {f : α → β} :
    x.map f = .ok b ↔ ∃ a, x = .ok a ∧ f a = b := by
  cases x <;> simp [Except.map]

@[simp] theorem mapError_eq_ok {ε' : Type} {f : ε → ε'} {a : α} :
    x.mapError f = .ok a ↔ x = .ok a := by
  cases x <;> simp [Except.mapError]

end Checks
