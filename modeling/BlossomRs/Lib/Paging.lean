import Mathlib.Tactic

/-!
# Pages of a filtered list

A page of a list is so many elements from an offset on, with the offset of the next page if there is
one.  Elements can be filtered before the page is taken (`page` of a filtered list), or after: then
one more row than the page has is looked at, and those that pass make the page (`filteredPage`).

Whoever follows the offsets gets all elements in order from pages that are not empty (`walk_flatten`).

`filteredPage_eq_iff` says when both give the same page of a list without duplicates.  The two may
see the list in different orders: one sees `us ++ vs`, the other one `vs ++ us`.
-/

namespace Paging

variable {α : Type}

/-- A page, and the offset of the next one. -/
def page (offset limit : Nat) (xs : List α) : List α × Option Nat :=
  ((xs.drop offset).take limit,
    if offset + limit < xs.length then some (offset + limit) else none)

/-- The rows that are looked at for a page: one more than it has. -/
def rows (offset limit : Nat) (xs : List α) : List α :=
  (xs.drop offset).take (limit + 1)

/-- The page made of the rows that pass. -/
def filteredPage (keep : α → Bool) (offset limit : Nat) (xs : List α) : List α × Option Nat :=
  (((rows offset limit xs).filter keep).take limit,
    if limit < ((rows offset limit xs).filter keep).length then some (offset + limit) else none)

/-- Nothing passes among the rows, and there is nothing left to pass at the start. -/
def BothEmpty (keep : α → Bool) (offset limit start : Nat) (xs : List α) : Prop :=
  (∀ x ∈ rows offset limit xs, keep x = false) ∧ (xs.filter keep).length ≤ start

/-- Everything before the offset passes; and all rows do, or nothing behind them. -/
def Aligned (keep : α → Bool) (offset limit : Nat) (xs : List α) : Prop :=
  (∀ x ∈ xs.take offset, keep x = true)
    ∧ ((∀ x ∈ rows offset limit xs, keep x = true)
      ∨ ∀ x ∈ xs.drop (offset + (limit + 1)), keep x = false)

/-- As many do not pass before the offset as pass in `vs`, which the other order has first.  Only rows
of `us` pass; and all rows do, or nothing of `us` behind them. -/
def Shifted (keep : α → Bool) (offset limit : Nat) (us vs : List α) : Prop :=
  (((us ++ vs).take offset).filter (!keep ·)).length = (vs.filter keep).length
    ∧ (∀ x ∈ rows offset limit (us ++ vs), keep x = true → x ∈ us)
    ∧ ((∀ x ∈ rows offset limit (us ++ vs), keep x = true)
      ∨ ∀ x ∈ (us ++ vs).drop (offset + (limit + 1)), x ∈ us → keep x = false)

/-- A page of no elements whose row passes, where there are enough that pass. -/
def EmptyPage (keep : α → Bool) (offset limit : Nat) (xs : List α) : Prop :=
  limit = 0 ∧ (∃ x ∈ rows offset limit xs, keep x = true) ∧ offset < (xs.filter keep).length

section

variable {keep : α → Bool} {offset limit start : Nat} {xs us vs : List α}

theorem length_rows_le : (rows offset limit xs).length ≤ limit + 1 :=
  List.length_take_le _ _

/-- What passes, from before the page, from its rows and from behind them. -/
theorem filter_eq_append (keep : α → Bool) (offset limit : Nat) (xs : List α) :
    xs.filter keep = (xs.take offset).filter keep ++ ((rows offset limit xs).filter keep
      ++ (xs.drop (offset + (limit + 1))).filter keep) := by
  have hrest : rows offset limit xs ++ xs.drop (offset + (limit + 1)) = xs.drop offset := by
    rw [rows, ← List.drop_drop, List.take_append_drop]
  rw [← List.filter_append, hrest, ← List.filter_append, List.take_append_drop]

theorem length_take_filter_le : ((xs.take offset).filter keep).length ≤ offset :=
  (List.length_filter_le _ _).trans (List.length_take_le _ _)

theorem drop_length_take_filter (keep : α → Bool) (offset limit : Nat) (xs : List α) :
    (xs.filter keep).drop ((xs.take offset).filter keep).length
      = (rows offset limit xs).filter keep ++ (xs.drop (offset + (limit + 1))).filter keep := by
  conv_lhs => rw [filter_eq_append keep offset limit xs]
  exact List.drop_left

theorem drop_eq_nil_of_length_rows (h : (rows offset limit xs).length ≤ limit) :
    xs.drop (offset + (limit + 1)) = [] := by
  rw [rows, List.length_take, List.length_drop] at h
  exact List.drop_of_length_le (by omega)

theorem length_le_of_mem_rows {x : α} (h : x ∈ rows offset limit xs) : offset ≤ xs.length := by
  by_contra hshort
  rw [rows, List.drop_of_length_le (by omega), List.take_nil] at h
  cases h

/-- Before the offset, what passes and what does not. -/
theorem length_take_filter_add (keep : α → Bool) (h : offset ≤ xs.length) :
    ((xs.take offset).filter keep).length + ((xs.take offset).filter (!keep ·)).length
      = offset := by
  have hsplit := List.length_eq_length_filter_add (l := xs.take offset) keep
  rw [List.length_take, min_eq_left h] at hsplit
  exact hsplit.symm

/-- The place at which the other order has what passes. -/
theorem drop_filter_append (h : (vs.filter keep).length ≤ offset) :
    ((vs ++ us).filter keep).drop offset
      = (us.filter keep).drop (offset - (vs.filter keep).length) := by
  rw [List.filter_append, List.drop_append, List.drop_of_length_le h, List.nil_append]

theorem length_filter_append (keep : α → Bool) (us vs : List α) :
    ((us ++ vs).filter keep).length = (us.filter keep).length + (vs.filter keep).length := by
  rw [List.filter_append, List.length_append]

/-! ### Empty pages -/

theorem page_of_length_le (h : xs.length ≤ start) : page start limit xs = ([], none) := by
  rw [page, List.drop_of_length_le h, List.take_nil, if_neg (by omega)]

theorem filteredPage_of_forall (h : ∀ x ∈ rows offset limit xs, keep x = false) :
    filteredPage keep offset limit xs = ([], none) := by
  have hnone : (rows offset limit xs).filter keep = [] :=
    List.filter_eq_nil_iff.mpr fun x hx => by simpa using h x hx
  rw [filteredPage, hnone, List.take_nil, if_neg (by simp)]

/-- A page is empty, with no other one announced, only when there is nothing left. -/
theorem length_le_of_page (h : page start limit xs = ([], none)) : xs.length ≤ start := by
  obtain ⟨hpage, hnext⟩ := Prod.mk.inj h
  have htotal : ¬ start + limit < xs.length := by
    intro hlt
    rw [if_pos hlt] at hnext
    cases hnext
  have htaken := congrArg List.length hpage
  rw [List.length_nil, List.length_take, List.length_drop] at htaken
  omega

theorem forall_of_filteredPage (h : filteredPage keep offset limit xs = ([], none)) :
    ∀ x ∈ rows offset limit xs, keep x = false := by
  obtain ⟨hpage, hnext⟩ := Prod.mk.inj h
  have hshort : ¬ limit < ((rows offset limit xs).filter keep).length := by
    intro hlt
    rw [if_pos hlt] at hnext
    cases hnext
  rw [List.take_of_length_le (not_lt.mp hshort)] at hpage
  intro x hx
  simpa using List.filter_eq_nil_iff.mp hpage x hx

/-- At a start behind everything that passes, only an empty page is the same. -/
theorem filteredPage_eq_iff_of_length_le {ys : List α} (h : ys.length ≤ start) :
    filteredPage keep offset limit xs = page start limit ys
      ↔ ∀ x ∈ rows offset limit xs, keep x = false := by
  rw [page_of_length_le h]
  exact ⟨forall_of_filteredPage, filteredPage_of_forall⟩

theorem EmptyPage.eq (h : EmptyPage keep offset limit (us ++ vs)) :
    filteredPage keep offset limit (us ++ vs) = page offset limit ((vs ++ us).filter keep) := by
  obtain ⟨rfl, ⟨x, hx, hkeep⟩, hlt⟩ := h
  have hpass : 0 < ((rows offset 0 (us ++ vs)).filter keep).length :=
    List.length_pos_of_mem (List.mem_filter.mpr ⟨hx, hkeep⟩)
  have hmore : offset + 0 < ((vs ++ us).filter keep).length := by
    rw [length_filter_append] at hlt ⊢
    omega
  rw [filteredPage, page, if_pos hpass, if_pos hmore, List.take_zero, List.take_zero]

/-! ### Pages at the same place -/

/-- What passes in `us` from the place of the page on, when only rows of `us` pass. -/
theorem drop_filter_of_rows [DecidableEq α] (hxs : (us ++ vs).Nodup)
    (hrows : ∀ x ∈ rows offset limit (us ++ vs), keep x = true → x ∈ us) :
    (us.filter keep).drop (((us ++ vs).take offset).filter keep).length
      = (rows offset limit (us ++ vs)).filter keep
        ++ (((us ++ vs).drop (offset + (limit + 1))).filter keep).filter (· ∈ us) := by
  have hsplit := drop_length_take_filter keep offset limit (us ++ vs)
  rw [List.filter_append, List.drop_append] at hsplit
  -- all of it, restricted to `us`
  have hours := congrArg (List.filter (· ∈ us)) hsplit
  rw [List.filter_append, List.filter_append] at hours
  have hall : ((us.filter keep).drop (((us ++ vs).take offset).filter keep).length).filter
      (· ∈ us) = (us.filter keep).drop (((us ++ vs).take offset).filter keep).length := by
    refine List.filter_eq_self.mpr fun x hx => ?_
    exact decide_eq_true (List.mem_of_mem_filter (List.mem_of_mem_drop hx))
  have hnone : ((vs.filter keep).drop ((((us ++ vs).take offset).filter keep).length
      - (us.filter keep).length)).filter (· ∈ us) = [] := by
    refine List.filter_eq_nil_iff.mpr fun x hx => ?_
    have hvs := List.mem_of_mem_filter (List.mem_of_mem_drop hx)
    simpa using fun hus => (List.nodup_append.mp hxs).2.2 x hus x hvs rfl
  have hpassing : ((rows offset limit (us ++ vs)).filter keep).filter (· ∈ us)
      = (rows offset limit (us ++ vs)).filter keep := by
    refine List.filter_eq_self.mpr fun x hx => ?_
    obtain ⟨hx, hkeep⟩ := List.mem_filter.mp hx
    exact decide_eq_true (hrows x hx hkeep)
  rwa [hall, hnone, List.append_nil, hpassing] at hours

theorem Shifted.eq (hxs : (us ++ vs).Nodup) (h : Shifted keep offset limit us vs) :
    filteredPage keep offset limit (us ++ vs) = page offset limit ((vs ++ us).filter keep) := by
  classical
  obtain ⟨hcount, hrows, hbehind⟩ := h
  have htotal := length_filter_append keep vs us
  rcases Nat.lt_or_ge (us ++ vs).length offset with hshort | hlong
  · -- there is nothing at the offset
    have hle := List.length_filter_le keep (us ++ vs)
    rw [length_filter_append] at hle
    rw [filteredPage_eq_iff_of_length_le (by omega)]
    intro x hx
    exact absurd (length_le_of_mem_rows hx) (by omega)
  · have hplace := length_take_filter_add keep hlong
    have hdrop := drop_filter_of_rows hxs hrows
    have hlength := congrArg List.length hdrop
    rw [List.length_append, List.length_drop] at hlength
    rw [filteredPage, page, drop_filter_append (by omega),
      show offset - (vs.filter keep).length
        = (((us ++ vs).take offset).filter keep).length by omega, hdrop]
    rcases Nat.lt_or_ge limit ((rows offset limit (us ++ vs)).filter keep).length with
      hmore | hless
    · rw [List.take_append_of_le_length hmore.le, if_pos hmore, if_pos (by omega)]
    · -- fewer than the page has pass, so nothing of `us` behind the rows does
      have hnone : (((us ++ vs).drop (offset + (limit + 1))).filter keep).filter (· ∈ us) = [] := by
        rcases hbehind with hall | hnone
        · rw [List.filter_eq_self.mpr hall] at hless
          rw [drop_eq_nil_of_length_rows hless, List.filter_nil, List.filter_nil]
        · refine List.filter_eq_nil_iff.mpr fun x hx => ?_
          obtain ⟨hx, hkeep⟩ := List.mem_filter.mp hx
          rw [decide_eq_true_eq]
          intro hus
          rw [hnone x hx hus] at hkeep
          cases hkeep
      rw [hnone, List.length_nil] at hlength
      rw [hnone, List.append_nil, if_neg (not_lt.mpr hless), if_neg (by omega)]

variable {others : List α} {first : α}

/-- The first row that passes, where it stands in the list. -/
theorem getElem?_filter_of_rows (h : (rows offset limit xs).filter keep = first :: others) :
    (xs.filter keep)[((xs.take offset).filter keep).length]? = some first := by
  rw [← List.head?_drop, drop_length_take_filter keep offset limit, h]
  rfl

/-- The same page starts with the same element. -/
theorem getElem?_of_page_eq {ys : List α} (hlimit : 0 < limit)
    (hrows : (rows offset limit xs).filter keep = first :: others)
    (h : filteredPage keep offset limit xs = page start limit ys) : ys[start]? = some first := by
  have hhead := congrArg (fun result => result.1.head?) h
  simp only [filteredPage, page, List.head?_take, if_neg hlimit.ne', hrows, List.head?_cons,
    List.head?_drop] at hhead
  exact hhead.symm

/-- When something passes among the rows, and enough has passed before the offset to be past `vs`, the
same page is at the same place of `us`. -/
theorem Shifted.of_eq (hxs : (us ++ vs).Nodup) (hlimit : 0 < limit)
    (hle : (vs.filter keep).length ≤ offset)
    (hfirst : (rows offset limit (us ++ vs)).filter keep = first :: others)
    (h : filteredPage keep offset limit (us ++ vs) = page offset limit ((vs ++ us).filter keep)) :
    Shifted keep offset limit us vs := by
  obtain ⟨hpage, hnext⟩ := Prod.mk.inj h
  have htotal := length_filter_append keep vs us
  have hmem : first ∈ rows offset limit (us ++ vs) :=
    List.mem_of_mem_filter (hfirst ▸ List.mem_cons_self)
  -- the first element has one place among what passes
  have hours := getElem?_of_page_eq hlimit hfirst h
  rw [← List.head?_drop, drop_filter_append hle, List.head?_drop] at hours
  obtain ⟨hlt, -⟩ := List.getElem?_eq_some_iff.mp hours
  have hplace : (((us ++ vs).take offset).filter keep).length
      = offset - (vs.filter keep).length := by
    have hthere := getElem?_filter_of_rows hfirst
    obtain ⟨hbound, -⟩ := List.getElem?_eq_some_iff.mp hthere
    refine (List.getElem?_inj hbound (hxs.filter _)).mp (hthere.trans ?_)
    rw [List.filter_append, List.getElem?_append_left hlt, hours]
  have hsum := length_take_filter_add keep (length_le_of_mem_rows hmem)
  have hsplit := drop_length_take_filter keep offset limit (us ++ vs)
  rw [List.filter_append, List.drop_append_of_le_length (by omega), hplace] at hsplit
  rw [drop_filter_append hle] at hpage
  have hrest : ((us.filter keep).drop (offset - (vs.filter keep).length)).length
      = (us.filter keep).length - (offset - (vs.filter keep).length) := List.length_drop
  have hours : ∀ x ∈ (us.filter keep).drop (offset - (vs.filter keep).length), x ∈ us :=
    fun x hx => List.mem_of_mem_filter (List.mem_of_mem_drop hx)
  refine ⟨by omega, ?_⟩
  by_cases hmore : limit < ((rows offset limit (us ++ vs)).filter keep).length
  · -- all rows pass, and none of them is behind `us`
    have hother : offset + limit < ((vs ++ us).filter keep).length := by
      by_contra hover
      rw [if_pos hmore, if_neg hover] at hnext
      cases hnext
    have hrows : (rows offset limit (us ++ vs)).length ≤ limit + 1 := length_rows_le
    have hall := List.length_filter_eq_length_iff.mp
      (le_antisymm (List.length_filter_le keep _) (hrows.trans hmore))
    refine ⟨fun x hx _ => ?_, Or.inl hall⟩
    have hlength : (rows offset limit (us ++ vs)).length = limit + 1 :=
      le_antisymm hrows (hmore.trans_le (List.length_filter_le keep _))
    have htaken := congrArg (List.take (limit + 1)) hsplit
    rw [List.filter_eq_self.mpr hall, List.take_append_of_le_length (by omega),
      List.take_append_of_le_length hlength.ge, List.take_of_length_le hlength.le] at htaken
    exact hours x (List.mem_of_mem_take (htaken ▸ hx))
  · -- what passes among the rows is the rest of `us`
    have hother : ¬ offset + limit < ((vs ++ us).filter keep).length := by
      intro hlt
      rw [if_neg hmore, if_pos hlt] at hnext
      cases hnext
    rw [List.take_of_length_le (not_lt.mp hmore), List.take_of_length_le (by omega)] at hpage
    rw [← hpage] at hsplit hours
    have hbehind := List.append_cancel_left hsplit
    refine ⟨fun x hx hkeep => hours x (List.mem_filter.mpr ⟨hx, hkeep⟩), Or.inr ?_⟩
    intro x hx hus
    by_contra hkeep
    have hvs : x ∈ vs.filter keep :=
      hbehind ▸ List.mem_filter.mpr ⟨hx, Bool.eq_true_of_not_eq_false hkeep⟩
    exact (List.nodup_append.mp hxs).2.2 x hus x (List.mem_of_mem_filter hvs) rfl

/-- When the other page starts in `vs`, the same page has nothing of `us` before it. -/
theorem forall_of_early (hxs : (us ++ vs).Nodup) (hlimit : 0 < limit)
    (hearly : offset < (vs.filter keep).length)
    (hfirst : (rows offset limit (us ++ vs)).filter keep = first :: others)
    (h : filteredPage keep offset limit (us ++ vs) = page offset limit ((vs ++ us).filter keep)) :
    ∀ x ∈ us, keep x = false := by
  have hthere := getElem?_filter_of_rows hfirst
  have hours := getElem?_of_page_eq hlimit hfirst h
  rw [List.filter_append, List.getElem?_append_left hearly] at hours
  obtain ⟨hbound, -⟩ := List.getElem?_eq_some_iff.mp hthere
  have hplace : (((us ++ vs).take offset).filter keep).length
      = (us.filter keep).length + offset := by
    refine (List.getElem?_inj hbound (hxs.filter _)).mp (hthere.trans ?_)
    rw [List.filter_append, List.getElem?_append_right (by omega), Nat.add_sub_cancel_left, hours]
  have hle : (((us ++ vs).take offset).filter keep).length ≤ offset := length_take_filter_le
  have hnone : us.filter keep = [] := List.length_eq_zero_iff.mp (by omega)
  intro x hx
  simpa using List.filter_eq_nil_iff.mp hnone x hx

theorem aligned_iff_shifted : Aligned keep offset limit xs ↔ Shifted keep offset limit xs [] := by
  have hbefore : (∀ x ∈ xs.take offset, keep x = true)
      ↔ ((xs.take offset).filter (!keep ·)).length = 0 := by
    rw [List.length_eq_zero_iff, List.filter_eq_nil_iff]
    simp
  have hrows : ∀ x ∈ rows offset limit xs, keep x = true → x ∈ xs :=
    fun x hx _ => List.mem_of_mem_drop (List.mem_of_mem_take hx)
  have hbehind : (∀ x ∈ xs.drop (offset + (limit + 1)), x ∈ xs → keep x = false)
      ↔ ∀ x ∈ xs.drop (offset + (limit + 1)), keep x = false :=
    forall₂_congr fun x hx => by simp [List.mem_of_mem_drop hx]
  rw [Aligned, Shifted, List.append_nil, hbefore, hbehind]
  exact and_congr_right fun _ => (and_iff_right hrows).symm

/-- When nothing passes in the part that the orders have at different places, they are the same. -/
theorem filter_append_of_forall (h : ∀ x ∈ us, keep x = false) :
    (vs ++ us).filter keep = (us ++ vs).filter keep := by
  have hnone : us.filter keep = [] := List.filter_eq_nil_iff.mpr fun x hx => by simpa using h x hx
  rw [List.filter_append, List.filter_append, hnone, List.append_nil, List.nil_append]

/-- **When filtering after the page has been taken does no harm.** -/
theorem filteredPage_eq_iff (hxs : (us ++ vs).Nodup) :
    filteredPage keep offset limit (us ++ vs) = page offset limit ((vs ++ us).filter keep)
      ↔ BothEmpty keep offset limit offset (us ++ vs) ∨ Shifted keep offset limit us vs
        ∨ ((∀ x ∈ us, keep x = false) ∧ Aligned keep offset limit (us ++ vs))
        ∨ EmptyPage keep offset limit (us ++ vs) := by
  have htotal := length_filter_append keep vs us
  have htotal' := length_filter_append keep us vs
  have hxs' : ((us ++ vs) ++ []).Nodup := by rwa [List.append_nil]
  constructor
  · intro h
    match hfirst : (rows offset limit (us ++ vs)).filter keep with
    | [] =>
      -- nothing passes among the rows, so both pages are empty
      left
      have hnone : ∀ x ∈ rows offset limit (us ++ vs), keep x = false := fun x hx => by
        simpa using List.filter_eq_nil_iff.mp hfirst x hx
      refine ⟨hnone, ?_⟩
      have := length_le_of_page (h.symm.trans (filteredPage_of_forall hnone))
      omega
    | first :: others =>
      right
      obtain ⟨hmem, hkeep⟩ := List.mem_filter.mp (hfirst ▸ List.mem_cons_self (a := first))
      rcases Nat.eq_zero_or_pos limit with rfl | hlimit
      · -- a page of no elements: the row that passes announces a next page
        refine Or.inr (Or.inr ⟨rfl, ⟨first, hmem, hkeep⟩, ?_⟩)
        have hnext := congrArg Prod.snd h
        by_contra hover
        rw [filteredPage, page, hfirst, if_pos (by simp), if_neg (by omega)] at hnext
        cases hnext
      · rcases Nat.lt_or_ge offset (vs.filter keep).length with hearly | hlate
        · have hnone := forall_of_early hxs hlimit hearly hfirst h
          refine Or.inr (Or.inl ⟨hnone, aligned_iff_shifted.mpr ?_⟩)
          rw [filter_append_of_forall hnone] at h
          rw [← List.append_nil (us ++ vs)] at hfirst
          refine Shifted.of_eq hxs' hlimit (Nat.zero_le _) hfirst ?_
          rwa [List.append_nil, List.nil_append]
        · exact Or.inl (Shifted.of_eq hxs hlimit hlate hfirst h)
  · rintro (h | h | ⟨hnone, h⟩ | h)
    · rw [filteredPage_eq_iff_of_length_le (by have := h.2; omega)]
      exact h.1
    · exact h.eq hxs
    · have heq := (aligned_iff_shifted.mp h).eq hxs'
      rwa [List.append_nil, List.nil_append, ← filter_append_of_forall hnone] at heq
    · exact h.eq

end

/-! ### Following the offsets -/

/-- The pages from an offset on, if there are no more than so many. -/
def walk (limit : Nat) (xs : List α) : Nat → Nat → Option (List (List α))
  | 0, _ => none
  | fuel + 1, offset =>
    match page offset limit xs with
    | (ys, none) => some [ys]
    | (ys, some next) => (walk limit xs fuel next).map (ys :: ·)

/-- **Pages that are not empty lead through the whole list.** -/
theorem walk_flatten {limit : Nat} (hlimit : 0 < limit) (xs : List α) (offset : Nat) :
    ∃ fuel pages, walk limit xs fuel offset = some pages ∧ pages.flatten = xs.drop offset := by
  -- every page brings the offset closer to the end of the list
  induction hrest : xs.length - offset using Nat.strongRecOn generalizing offset with
  | _ rest ih =>
    by_cases hmore : offset + limit < xs.length
    · obtain ⟨fuel, pages, hwalk, hflatten⟩ := ih (xs.length - (offset + limit)) (by omega)
        (offset + limit) rfl
      refine ⟨fuel + 1, (xs.drop offset).take limit :: pages, ?_, ?_⟩
      · simp only [walk, page, if_pos hmore, hwalk, Option.map_some]
      · rw [List.flatten_cons, hflatten, ← List.drop_drop, List.take_append_drop]
    · refine ⟨1, [(xs.drop offset).take limit], ?_, ?_⟩
      · simp only [walk, page, if_neg hmore]
      · rw [List.flatten_singleton, List.take_of_length_le]
        rw [List.length_drop]
        omega

/-- A page of no elements is its own next page. -/
theorem walk_zero {xs : List α} {offset : Nat} (h : offset < xs.length) (fuel : Nat) :
    walk 0 xs fuel offset = none := by
  induction fuel with
  | zero => rfl
  | succ fuel ih => simp only [walk, page, Nat.add_zero, if_pos h, ih, Option.map_none]

end Paging
