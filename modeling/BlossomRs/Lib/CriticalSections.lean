import Mathlib.Logic.Function.Basic
import Mathlib.Tactic

/-!
# Critical sections

Cells with a lock each, and a writer that goes through a list of lock actions.  A writer that
enters the section of a cell at most once lets nobody see more than two values of it: where the
lock is free, the cell has its first value or its last (`Stage.value_of_free`), whatever the writer
does to other cells in between.

`Stage` is the place of the writer with respect to one cell; `stages_act` says that an action on one
cell moves that cell on and leaves the others where they are.
-/

namespace CriticalSections

variable {ι K : Type} [DecidableEq ι]

/-- An action of a writer on a cell. -/
inductive Act (K : Type) where
  | acquire
  | write (f : K → K)
  | release

/-- A value behind a lock. -/
structure Cell (K : Type) where
  value : K
  held : Bool

def Cell.act (cell : Cell K) : Act K → Cell K
  | .acquire => { cell with held := true }
  | .write f => { cell with value := f cell.value }
  | .release => { cell with held := false }

/-- What remains to be done in a section after its lock is taken. -/
def inside (writes : List (K → K)) : List (Act K) :=
  writes.map .write ++ [.release]

/-- Before, in and after the only section of a cell, with what the writer still has to do there. -/
inductive Stage (before after : K) : Cell K → List (Act K) → Prop where
  | waiting (writes : List (K → K)) (h : writes.foldl (fun value f => f value) before = after) :
    Stage before after ⟨before, false⟩ (.acquire :: inside writes)
  | entered (writes : List (K → K)) (value : K)
    (h : writes.foldl (fun value f => f value) value = after) :
    Stage before after ⟨value, true⟩ (inside writes)
  | finished : Stage before after ⟨after, false⟩ []

variable {before after : K} {cell : Cell K} {a : Act K} {todo : List (Act K)}

theorem Stage.act (h : Stage before after cell (a :: todo)) :
    Stage before after (cell.act a) todo := by
  generalize hall : a :: todo = all at h
  cases h with
  | waiting writes h =>
    obtain ⟨rfl, rfl⟩ := List.cons.inj hall
    exact .entered writes before h
  | entered writes value h =>
    cases writes with
    | nil =>
      obtain ⟨rfl, rfl⟩ := List.cons.inj hall
      obtain rfl : value = after := h
      exact .finished
    | cons f writes =>
      obtain ⟨rfl, rfl⟩ := List.cons.inj hall
      exact .entered writes (f value) h
  | finished => cases hall

/-- Nobody sees more than two values. -/
theorem Stage.value_of_free (h : Stage before after cell todo) (hfree : cell.held = false) :
    cell.value = before ∨ cell.value = after := by
  cases h with
  | waiting => exact Or.inl rfl
  | entered => cases hfree
  | finished => exact Or.inr rfl

/-- What a list of actions does to one cell. -/
def actsOn (i : ι) (todo : List (ι × Act K)) : List (Act K) :=
  (todo.filter (·.1 = i)).map (·.2)

theorem stages_act {first last : ι → K} {cells : ι → Cell K} {j : ι}
    {todo : List (ι × Act K)}
    (h : ∀ i, Stage (first i) (last i) (cells i) (actsOn i ((j, a) :: todo))) (i : ι) :
    Stage (first i) (last i) (Function.update cells j ((cells j).act a) i) (actsOn i todo) := by
  by_cases hi : i = j
  · subst hi
    have hstage := h i
    rw [actsOn, List.filter_cons_of_pos (by simp)] at hstage
    rw [Function.update_self]
    exact hstage.act
  · have hstage := h i
    rw [actsOn, List.filter_cons_of_neg (by simpa using Ne.symm hi)] at hstage
    rw [Function.update_of_ne hi]
    exact hstage

end CriticalSections
