import Mathlib.Tactic

/-!
# Streams that arrive in pieces

What is still to come on a stream is a list of pieces.  A read with a buffer of some capacity returns
what fits of the next piece, so a list of pieces is one way in which the stream is split into reads, and
every way is the list of what the reads return.

The readers are the usual loops over such reads: an exact number of elements (`readExact`), blocks up to
the first one with a stop element in it (`readBlocks`), and one element at a time up to the stop element,
with a limit (`readLine`).  What each returns depends only on the elements, not on the pieces.
-/

namespace Chunks

variable {α : Type}

/-- One read: what fits of the next piece, and what is left; none at the end of the stream. -/
def read (capacity : Nat) : List (List α) → Option (List α × List (List α))
  | [] => none
  | [] :: pieces => read capacity pieces
  | (x :: xs) :: pieces => some ((x :: xs).take capacity, (x :: xs).drop capacity :: pieces)

variable {capacity : Nat} {pieces : List (List α)}

theorem flatten_eq_nil_of_read (h : read capacity pieces = none) : pieces.flatten = [] := by
  induction pieces with
  | nil => rfl
  | cons piece pieces ih =>
    cases piece with
    | nil => exact ih h
    | cons x xs => cases h

/-- A read returns the beginning of what is to come, and at least one element. -/
theorem read_spec {rest : List (List α)} {data : List α}
    (h : read capacity pieces = some (data, rest)) :
    data ++ rest.flatten = pieces.flatten ∧ data.length ≤ capacity
      ∧ (0 < capacity → data ≠ []) := by
  induction pieces with
  | nil => cases h
  | cons piece pieces ih =>
    cases piece with
    | nil => exact ih h
    | cons x xs =>
      cases h
      refine ⟨?_, List.length_take_le _ _, ?_⟩
      · rw [List.flatten_cons, ← List.append_assoc, List.take_append_drop, List.flatten_cons]
      · intro hcapacity hnil
        have hlength := congrArg List.length hnil
        rw [List.length_take, List.length_cons, List.length_nil] at hlength
        omega

/-- A read with room leaves less to come. -/
theorem length_flatten_lt {rest : List (List α)} {data : List α} (hcapacity : 0 < capacity)
    (h : read capacity pieces = some (data, rest)) :
    rest.flatten.length < pieces.flatten.length := by
  obtain ⟨hflatten, -, hdata⟩ := read_spec h
  have hpos := List.length_pos_iff.mpr (hdata hcapacity)
  rw [← hflatten, List.length_append]
  omega

/-! ### An exact number of elements -/

/-- Read so many elements; none if the stream ends before. -/
def readExact (count : Nat) (pieces : List (List α)) : Option (List α × List (List α)) :=
  if _hcount : count = 0 then some ([], pieces)
  else
    match _hread : read count pieces with
    | none => none
    | some (data, rest) =>
      (readExact (count - data.length) rest).map fun more => (data ++ more.1, more.2)
termination_by count
decreasing_by
  have hpos := List.length_pos_iff.mpr ((read_spec _hread).2.2 (Nat.pos_of_ne_zero _hcount))
  omega

/-- There are as many elements as asked for: they are read, and the rest is left. -/
theorem readExact_of_le {count : Nat} (h : count ≤ pieces.flatten.length) :
    ∃ rest, readExact count pieces = some (pieces.flatten.take count, rest)
      ∧ rest.flatten = pieces.flatten.drop count := by
  induction count using Nat.strong_induction_on generalizing pieces with
  | _ count ih =>
    rw [readExact]
    by_cases hcount : count = 0
    · rw [dif_pos hcount]
      subst hcount
      exact ⟨pieces, rfl, rfl⟩
    · rw [dif_neg hcount]
      split
      · rename_i hread
        rw [flatten_eq_nil_of_read hread, List.length_nil] at h
        omega
      · rename_i data rest hread
        obtain ⟨hflatten, hle, hdata⟩ := read_spec hread
        have hpos := List.length_pos_iff.mpr (hdata (Nat.pos_of_ne_zero hcount))
        rw [← hflatten, List.length_append] at h
        obtain ⟨rest', hmore, hrest⟩ := ih (count - data.length) (by omega)
          (show count - data.length ≤ rest.flatten.length by omega)
        refine ⟨rest', ?_, ?_⟩
        · rw [hmore, Option.map_some, ← hflatten, List.take_append,
            List.take_of_length_le hle]
        · rw [hrest, ← hflatten, List.drop_append, List.drop_of_length_le hle, List.nil_append]

/-! ### Blocks up to a stop element -/

section

variable [DecidableEq α]

/-- Read blocks until the stop element is among what was read, or the stream ends. -/
def readBlocks (stop : α) (capacity : Nat) (hcapacity : 0 < capacity) (buf : List α)
    (pieces : List (List α)) : List α × List (List α) :=
  match _hread : read capacity pieces with
  | none => (buf, [])
  | some (data, rest) =>
    if stop ∈ buf ++ data then (buf ++ data, rest)
    else readBlocks stop capacity hcapacity (buf ++ data) rest
termination_by pieces.flatten.length
decreasing_by exact length_flatten_lt hcapacity _hread

/-- When the stop element is to come, it is read. -/
theorem readBlocks_spec (stop : α) {capacity : Nat} (hcapacity : 0 < capacity) (buf : List α)
    (pieces : List (List α)) (hstop : stop ∈ pieces.flatten) :
    stop ∈ (readBlocks stop capacity hcapacity buf pieces).1
      ∧ (readBlocks stop capacity hcapacity buf pieces).1
          ++ (readBlocks stop capacity hcapacity buf pieces).2.flatten = buf ++ pieces.flatten := by
  induction hlength : pieces.flatten.length using Nat.strong_induction_on generalizing buf pieces with
  | _ length ih =>
    subst hlength
    rw [readBlocks]
    split
    · rename_i hread
      rw [flatten_eq_nil_of_read hread] at hstop
      cases hstop
    · rename_i data rest hread
      obtain ⟨hflatten, -, -⟩ := read_spec hread
      split
      · rename_i hmem
        exact ⟨hmem, by rw [List.append_assoc, hflatten]⟩
      · rename_i hmem
        have hrest : stop ∈ rest.flatten := by
          rw [← hflatten] at hstop
          rcases List.mem_append.mp hstop with hdata | hrest
          · exact absurd (List.mem_append_right _ hdata) hmem
          · exact hrest
        obtain ⟨hfound, hsame⟩ := ih _ (length_flatten_lt hcapacity hread) (buf ++ data) rest hrest
          rfl
        exact ⟨hfound, by rw [hsame, List.append_assoc, hflatten]⟩

variable {stop : α} {line body : List α}

omit [DecidableEq α] in
/-- A list with the stop element in it begins with what stands before the first stop element. -/
theorem eq_append_of_mem {buf rest : List α} (hline : stop ∉ line) (hmem : stop ∈ buf)
    (h : buf ++ rest = line ++ stop :: body) :
    ∃ leftover, buf = line ++ stop :: leftover ∧ leftover ++ rest = body := by
  rcases List.append_eq_append_iff.mp h with ⟨more, hline', -⟩ | ⟨more, hbuf, hrest⟩
  · rw [hline'] at hline
    exact absurd (List.mem_append_left _ hmem) hline
  · cases more with
    | nil =>
      rw [List.append_nil] at hbuf
      exact absurd (hbuf ▸ hmem) hline
    | cons x leftover =>
      obtain ⟨rfl, hbody⟩ := List.cons.inj hrest
      exact ⟨leftover, hbuf, hbody.symm⟩

/-- **A line read in blocks** is there as a whole, with the beginning of what follows it. -/
theorem readBlocks_line {capacity : Nat} (hcapacity : 0 < capacity) (hline : stop ∉ line)
    (h : pieces.flatten = line ++ stop :: body) :
    ∃ leftover, (readBlocks stop capacity hcapacity [] pieces).1 = line ++ stop :: leftover
      ∧ leftover ++ (readBlocks stop capacity hcapacity [] pieces).2.flatten = body := by
  have hstop : stop ∈ pieces.flatten := by
    rw [h]
    exact List.mem_append_right _ List.mem_cons_self
  obtain ⟨hfound, hsame⟩ := readBlocks_spec stop hcapacity [] pieces hstop
  rw [List.nil_append, h] at hsame
  exact eq_append_of_mem hline hfound hsame

/-! ### One element at a time -/

/-- Read single elements up to the stop element or the end of the stream; none when there are more
than the limit. -/
def readLine (stop : α) (limit : Nat) (buf : List α) (pieces : List (List α)) :
    Option (List α × List (List α)) :=
  match _hread : read 1 pieces with
  | none => some (buf, [])
  | some (data, rest) =>
    if limit < (buf ++ data).length then none
    else if data = [stop] then some (buf ++ data, rest)
    else readLine stop limit (buf ++ data) rest
termination_by pieces.flatten.length
decreasing_by exact length_flatten_lt Nat.one_pos _hread

omit [DecidableEq α] in
/-- What a read of one element returns. -/
theorem read_one {x : α} {xs : List α} (h : pieces.flatten = x :: xs) :
    ∃ rest, read 1 pieces = some ([x], rest) ∧ rest.flatten = xs := by
  cases hread : read 1 pieces with
  | none =>
    rw [flatten_eq_nil_of_read hread] at h
    cases h
  | some result =>
    obtain ⟨data, rest⟩ := result
    obtain ⟨hflatten, hle, hdata⟩ := read_spec hread
    rw [h] at hflatten
    cases data with
    | nil => exact absurd rfl (hdata Nat.one_pos)
    | cons y ys =>
      obtain ⟨rfl, hrest⟩ := List.cons.inj hflatten
      rw [List.length_cons] at hle
      obtain rfl : ys = [] := List.length_eq_zero_iff.mp (by omega)
      exact ⟨rest, rfl, hrest⟩

/-- **A line read one element at a time** is there with its stop element, and all that follows is left. -/
theorem readLine_line {limit : Nat} (hline : stop ∉ line) {buf : List α}
    (hlimit : buf.length + line.length < limit) (h : pieces.flatten = line ++ stop :: body) :
    ∃ rest, readLine stop limit buf pieces = some (buf ++ line ++ [stop], rest)
      ∧ rest.flatten = body := by
  induction line generalizing buf pieces with
  | nil =>
    obtain ⟨rest, hread, hrest⟩ := read_one h
    rw [List.length_nil] at hlimit
    refine ⟨rest, ?_, hrest⟩
    rw [readLine]
    split
    · rename_i hnone
      rw [hread] at hnone
      cases hnone
    · rename_i data rest' hsome
      cases hread.symm.trans hsome
      rw [if_neg (by simp; omega), if_pos rfl, List.append_nil]
  | cons x line ih =>
    obtain ⟨rest, hread, hrest⟩ := read_one h
    obtain ⟨hne, hline⟩ := not_or.mp (mt List.mem_cons.mpr hline)
    rw [List.length_cons] at hlimit
    have hlength : (buf ++ [x]).length = buf.length + 1 := by simp
    obtain ⟨rest', hmore, hbody⟩ := ih hline
      (show (buf ++ [x]).length + line.length < limit by omega) hrest
    refine ⟨rest', ?_, hbody⟩
    rw [readLine]
    split
    · rename_i hnone
      rw [hread] at hnone
      cases hnone
    · rename_i data rest'' hsome
      cases hread.symm.trans hsome
      rw [if_neg (by omega), if_neg, hmore, List.append_assoc buf [x] line]
      · rfl
      · intro hstop
        exact hne (List.singleton_inj.mp hstop).symm

end

end Chunks
