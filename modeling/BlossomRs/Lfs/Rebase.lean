import BlossomRs.Lib.Runs
import BlossomRs.Lfs.WellStored

/-!
# Deleting a blob that deltas rest on

Before a blob is deleted, every delta made directly against it is stored in full: `Store.rebase` for
one delta, a run of it for all.  A delta that cannot be read is passed over.

While the loop runs, later rounds and deltas stacked on the rewritten ones read through blobs that
earlier rounds rewrote.  `Rebased` is the loop invariant: the store still holds its contents, and a
delta of the list has lost its base exactly when a read of it found every record it looks for in the
store the loop started from.  `inOrder_delete_iff` follows: the store is in order after the delete
exactly when all deltas on the deleted blob could be read; then every other blob is read as before
(`read_delete`).
-/

namespace BlossomRs.Lfs

open Protocol ParentChain

/-- A store that holds the given contents, with no chain longer than a read can follow. -/
structure InOrder (codecs : Codecs) (s : Store) (contents : String → Bytes) : Prop
    extends WellStored codecs s contents where
  short : ∀ hash n, s.Stored hash → Depth s.parent hash n → n ≤ maxDeltaChainDepth

namespace Store

variable (codecs : Codecs) (s : Store)

/-- The content of a hash that has bytes, if its chain can be followed. -/
def contentOf (hash : String) : Option Bytes :=
  (s.blobs hash).bind fun _ =>
    (chase codecs s.lookup s.blobs maxDeltaChainDepth hash).toOption

/-- Store the content of one hash in full, if it can be read. -/
def rebase (hash : String) : Store :=
  match s.contentOf codecs hash with
  | none => s
  | some content =>
    (s.put hash (codecs.compressOr content)).restore hash .compressed none content.length

/-- Store the contents of several hashes in full, one after the other. -/
def rebaseAll (hashes : List String) : Store :=
  Runs.run (rebase codecs) s hashes

/-- Delete a hash with its records. -/
def drop (hash : String) : Store :=
  (s.remove hash).forget hash

variable {codecs s}

theorem find_restore_self (hash : String) (storage : LfsStorageType) (baseSha256 : Option String)
    (storedSize : Int) :
    (s.restore hash storage baseSha256 storedSize).find hash
      = (s.find hash).map (·.restore storage baseSha256 storedSize) := by
  rw [find_restore]
  cases hv : s.find hash with
  | none => rfl
  | some v => simp [sha256_of_find hv]

variable {hash other : String}

theorem find_restore_of_ne (hne : other ≠ hash) (storage : LfsStorageType)
    (baseSha256 : Option String) (storedSize : Int) :
    (s.restore hash storage baseSha256 storedSize).find other = s.find other := by
  rw [find_restore]
  cases hv : s.find other with
  | none => rfl
  | some v =>
    have hsha := sha256_of_find hv
    simp [hsha, hne]

/-- Changing a stored form changes no hash of a record. -/
theorem length_filter_restore (hash other : String) (storage : LfsStorageType)
    (baseSha256 : Option String) (storedSize : Int) :
    ((s.restore hash storage baseSha256 storedSize).records.filter (·.sha256 == other)).length
      = (s.records.filter (·.sha256 == other)).length := by
  cases hvs : s.versions with
  | none => simp [records, restore, hvs]
  | some vs =>
    simp only [records, restore, hvs, Option.map_some, Option.getD_some, List.filter_map,
      List.length_map]
    congr 2
    funext v
    by_cases hv : v.sha256 = hash
    · simp [hv]
    · simp [hv]

theorem stored_put_iff {raw : Bytes} (hstored : s.Stored hash) :
    (s.put hash raw).Stored other ↔ s.Stored other := by
  by_cases h : other = hash
  · subst h
    simpa [Stored] using hstored
  · simp [Stored, Function.update_of_ne h]

/-- A content is only computed of bytes that are stored. -/
theorem stored_of_contentOf {codecs : Codecs} {content : Bytes}
    (h : s.contentOf codecs hash = some content) : s.Stored hash := by
  rw [contentOf, Option.bind_eq_some_iff] at h
  obtain ⟨raw, hraw, -⟩ := h
  simp [Stored, hraw]

/-- Storing a hash in full adds no bytes for another. -/
theorem stored_rebase_iff (codecs : Codecs) (hash other : String) :
    (s.rebase codecs hash).Stored other ↔ s.Stored other := by
  unfold rebase
  cases hcontent : s.contentOf codecs hash with
  | none => rfl
  | some content => exact stored_put_iff (stored_of_contentOf hcontent)

theorem stored_rebaseAll_iff (codecs : Codecs) (hashes : List String) (other : String) :
    (s.rebaseAll codecs hashes).Stored other ↔ s.Stored other := by
  induction hashes generalizing s with
  | nil => rfl
  | cons hash hashes ih =>
    rw [rebaseAll, Runs.run_cons]
    exact ih.trans (stored_rebase_iff codecs hash other)

theorem stored_drop_iff :
    (s.drop hash).Stored other ↔ other ≠ hash ∧ s.Stored other := by
  by_cases h : other = hash
  · subst h
    simp [drop, Stored]
  · simp [drop, Stored, h]

theorem find_drop_self (hash : String) : (s.drop hash).find hash = none :=
  find_forget_self hash

theorem find_drop_of_ne (hne : other ≠ hash) :
    (s.drop hash).find other = s.find other :=
  (find_forget_of_ne hne).trans (congrFun (find_remove hash) other)

theorem blobs_drop_of_ne (hne : other ≠ hash) :
    (s.drop hash).blobs other = s.blobs other := by
  simp [drop, Function.update_of_ne hne]

/-- A delete cuts the base of the deleted hash and no other. -/
theorem parent_drop_cut (hash other : String) :
    (s.drop hash).parent other = s.parent other ∨ (s.drop hash).parent other = none := by
  by_cases h : other = hash
  · rw [h]
    exact Or.inr (parent_eq_none_of_find (find_drop_self hash))
  · exact Or.inl (by rw [parent, parent, find_drop_of_ne h])

end Store

section Step

variable {codecs : Codecs} {s : Store} {contents : String → Bytes}

/-- **Storing a blob in full** keeps the store well stored. -/
theorem WellStored.fill (hwell : WellStored codecs s contents) {hash : String} {raw : Bytes}
    (hstored : s.Stored hash) (hcompress : codecs.compress (contents hash) = .ok raw)
    (hrecord : (s.find hash).isSome) (size : Int) :
    WellStored codecs ((s.put hash raw).restore hash .compressed none size) contents := by
  obtain ⟨v, hv⟩ := Option.isSome_iff_exists.mp hrecord
  have hsame : ∀ k, ((s.put hash raw).restore hash .compressed none size).Stored k
      ↔ s.Stored k := fun _ => Store.stored_put_iff hstored
  have hfind : ∀ k, k ≠ hash →
      ((s.put hash raw).restore hash .compressed none size).find k = s.find k :=
    fun _ hne => Store.find_restore_of_ne hne _ _ _
  have hself : ((s.put hash raw).restore hash .compressed none size).find hash
      = some (v.restore .compressed none size) := by
    rw [Store.find_restore_self, Store.find_put, hv]
    rfl
  have hcut : ∀ k, ((s.put hash raw).restore hash .compressed none size).parent k = s.parent k
      ∨ ((s.put hash raw).restore hash .compressed none size).parent k = none := by
    intro k
    by_cases h : k = hash
    · refine Or.inr ?_
      rw [h, Store.parent, hself]
      rfl
    · exact Or.inl (by rw [Store.parent, Store.parent, hfind k h])
  refine ⟨?_, ?_, ?_⟩
  · intro k hk
    rw [Store.length_filter_restore]
    exact hwell.single k ((hsame k).mp hk)
  · intro k rawK hrawK
    by_cases h : k = hash
    · subst h
      obtain rfl : raw = rawK := by simpa using hrawK
      rw [Holds, hself]
      exact hcompress
    · have hold := hwell.holds k rawK (by simpa [Function.update_of_ne h] using hrawK)
      exact hold.mono (hfind k h) fun other => (hsame other).mpr
  · intro k hk
    obtain ⟨n, hn⟩ := hwell.ends k ((hsame k).mp hk)
    obtain ⟨m, -, hm⟩ := hn.cut hcut
    exact ⟨m, hm⟩

end Step

/-! ### The loop -/

/-- What a store is after some of the deltas on a hash were stored in full. -/
structure Rebased (codecs : Codecs) (contents : String → Bytes) (s : Store) (hashes : List String)
    (t : Store) : Prop where
  well : WellStored codecs t contents
  stored : ∀ k, t.Stored k ↔ s.Stored k
  filled : ∀ k ∈ hashes, s.Stored k → Recorded s k → t.parent k = none ∧ (t.find k).isSome
  kept : ∀ k, ¬ (k ∈ hashes ∧ s.Stored k ∧ Recorded s k) →
    t.find k = s.find k ∧ t.blobs k = s.blobs k

namespace Rebased

variable {codecs : Codecs} {contents : String → Bytes} {s t : Store} {hashes : List String}

section

variable (h : Rebased codecs contents s hashes t)
include h

theorem parent_kept {k : String} (hk : ¬ (k ∈ hashes ∧ s.Stored k ∧ Recorded s k)) :
    t.parent k = s.parent k := by
  rw [Store.parent, Store.parent, (h.kept k hk).1]

theorem cut (k : String) :
    t.parent k = s.parent k ∨ t.parent k = none := by
  by_cases hk : k ∈ hashes ∧ s.Stored k ∧ Recorded s k
  · exact Or.inr (h.filled k hk.1 hk.2.1 hk.2.2).1
  · exact Or.inl (h.parent_kept hk)

theorem isSome_find_iff (k : String) :
    (t.find k).isSome ↔ (s.find k).isSome := by
  by_cases hk : k ∈ hashes ∧ s.Stored k ∧ Recorded s k
  · have hrecord : (s.find k).isSome := hk.2.2 0 (by decide) k rfl
    simp [hrecord, (h.filled k hk.1 hk.2.1 hk.2.2).2]
  · rw [(h.kept k hk).1]

end

/-- Nothing is rewritten yet. -/
theorem init (hwell : WellStored codecs s contents) : Rebased codecs contents s [] s where
  well := hwell
  stored _ := Iff.rfl
  filled := by simp
  kept _ _ := ⟨rfl, rfl⟩

section

variable (h : Rebased codecs contents s hashes t)
include h

/-- A fully recorded hash is still read as its content. -/
theorem chase_eq (hs : InOrder codecs s contents) (hzstd : codecs.ZstdRoundTrips)
    (hdelta : s.DeltasDecode codecs contents) {hash : String} (hstored : s.Stored hash)
    (hrecorded : Recorded s hash) :
    chase codecs t.lookup t.blobs maxDeltaChainDepth hash = .ok (contents hash) := by
  obtain ⟨n, hn⟩ := hs.ends hash hstored
  obtain ⟨m, hmn, hm⟩ := hn.cut h.cut
  refine h.well.chase_eq_content hzstd (hdelta.mono fun k => (h.stored k).mp) maxDeltaChainDepth ((h.stored hash).mpr hstored) hm
    (hmn.trans (hs.short hash n hstored hn)) ?_
  intro i hi a ha
  rw [h.isSome_find_iff]
  exact hrecorded i hi a (ancestor_of_cut h.cut ha)

/-- A hash whose records were not all there is not read now either. -/
theorem chase_missing {i : Nat} {hash a : String} (hi : i < maxDeltaChainDepth)
    (ha : ancestor s.parent i hash = some a) (hmissing : s.find a = none) :
    ancestor t.parent i hash = some a ∧ t.find a = none := by
  refine ⟨?_, ?_⟩
  · rw [← ha]
    refine ancestor_congr fun j hj b hb => h.parent_kept ?_
    -- a rewritten hash on the way had all its records, the missing one included
    rintro ⟨-, -, hrecorded⟩
    obtain ⟨b', hb', hrest⟩ := ancestor_split (le_of_lt hj) ha
    obtain rfl : b = b' := Option.some.inj (hb.symm.trans hb')
    have hsome := hrecorded (i - j) (by omega) a hrest
    rw [hmissing] at hsome
    cases hsome
  · have hiff := h.isSome_find_iff a
    rw [hmissing] at hiff
    simpa using hiff

/-- **One round of the loop.** -/
theorem step (hs : InOrder codecs s contents) (hzstd : codecs.ZstdRoundTrips)
    (hdelta : s.DeltasDecode codecs contents) (hash : String) :
    Rebased codecs contents s (hashes ++ [hash]) (t.rebase codecs hash) := by
  have hmem : ∀ k, k ∈ hashes ++ [hash] ↔ k ∈ hashes ∨ k = hash := by simp
  by_cases hdone : s.Stored hash ∧ Recorded s hash
  · -- the hash is read, and stored in full
    obtain ⟨hstored, hrecorded⟩ := hdone
    have hstored' : t.Stored hash := (h.stored hash).mpr hstored
    obtain ⟨old, hold⟩ := Option.isSome_iff_exists.mp hstored'
    have hcontent : t.contentOf codecs hash = some (contents hash) := by
      rw [Store.contentOf, hold, Option.bind_some, h.chase_eq hs hzstd hdelta hstored hrecorded]
      rfl
    have hrecord : (t.find hash).isSome :=
      (h.isSome_find_iff hash).mpr (hrecorded 0 (by decide) hash rfl)
    obtain ⟨v, hv⟩ := Option.isSome_iff_exists.mp hrecord
    obtain ⟨raw, hraw, -⟩ := hzstd (contents hash)
    have hor : codecs.compressOr (contents hash) = raw := by rw [Codecs.compressOr, hraw]
    rw [Store.rebase, hcontent]
    dsimp only
    rw [hor]
    have hfind : ∀ k, k ≠ hash → ((t.put hash raw).restore hash .compressed none
        (contents hash).length).find k = t.find k :=
      fun _ hne => Store.find_restore_of_ne hne _ _ _
    refine ⟨h.well.fill hstored' hraw hrecord _, ?_, ?_, ?_⟩
    · intro k
      exact (Store.stored_put_iff hstored').trans (h.stored k)
    · intro k hk hkStored hkRecorded
      by_cases hself : k = hash
      · subst hself
        rw [Store.parent, Store.find_restore_self, Store.find_put, hv]
        exact ⟨rfl, rfl⟩
      · rw [Store.parent, hfind k hself]
        rcases (hmem k).mp hk with hk | hk
        · exact h.filled k hk hkStored hkRecorded
        · exact absurd hk hself
    · intro k hk
      have hself : k ≠ hash := by
        rintro rfl
        exact hk ⟨(hmem k).mpr (Or.inr rfl), hstored, hrecorded⟩
      have hkept := h.kept k fun hin => hk (hin.imp_left fun hin => (hmem k).mpr (Or.inl hin))
      rw [hfind k hself]
      refine ⟨hkept.1, ?_⟩
      simp [Function.update_of_ne hself, hkept.2]
  · -- the hash has no bytes or cannot be read, and nothing changes
    have hcontent : t.contentOf codecs hash = none := by
      by_cases hstored : s.Stored hash
      · have hnot : ¬ Recorded s hash := fun hrecorded => hdone ⟨hstored, hrecorded⟩
        simp only [Recorded, not_forall, Option.not_isSome_iff_eq_none] at hnot
        obtain ⟨i, hi, a, ha, hmissing⟩ := hnot
        obtain ⟨ha', hmissing'⟩ := h.chase_missing hi ha hmissing
        rw [Store.contentOf, chase_broken hi ha' hmissing']
        cases t.blobs hash <;> rfl
      · have hgone : t.blobs hash = none := by
          have := (h.stored hash).not.mpr hstored
          simpa [Store.Stored] using this
        rw [Store.contentOf, hgone]
        rfl
    rw [Store.rebase, hcontent]
    refine ⟨h.well, h.stored, ?_, ?_⟩
    · intro k hk hkStored hkRecorded
      rcases (hmem k).mp hk with hk | rfl
      · exact h.filled k hk hkStored hkRecorded
      · exact absurd ⟨hkStored, hkRecorded⟩ hdone
    · intro k hk
      exact h.kept k fun hin => hk (hin.imp_left fun hin => (hmem k).mpr (Or.inl hin))

end

/-- **The whole loop.** -/
theorem run (hs : InOrder codecs s contents) (hzstd : codecs.ZstdRoundTrips)
    (hdelta : s.DeltasDecode codecs contents) (hashes : List String) :
    Rebased codecs contents s hashes (s.rebaseAll codecs hashes) := by
  refine Runs.run_invariant (P := Rebased codecs contents s) (init hs.toWellStored) ?_ hashes []
    (List.append_nil hashes).symm
  intro pre hash _ _ h
  exact h.step hs hzstd hdelta hash

end Rebased

/-! ### The delete -/

section Delete

variable {codecs : Codecs} {s t : Store} {contents : String → Bytes} {hash : String}

/-- Deleting a blob that no stored delta rests on keeps the store well stored. -/
theorem WellStored.drop (hwell : WellStored codecs t contents)
    (hfree : ∀ k, t.Stored k → t.parent k ≠ some hash) :
    WellStored codecs (t.drop hash) contents := by
  refine ⟨?_, ?_, ?_⟩
  · intro k hk
    obtain ⟨-, hk⟩ := Store.stored_drop_iff.mp hk
    refine le_trans ?_ (hwell.single k hk)
    have hsub : List.Sublist (t.drop hash).records t.records := by
      cases hvs : t.versions with
      | none => simp [Store.records, Store.drop, Store.forget, Store.remove, hvs]
      | some vs => simp [Store.records, Store.drop, Store.forget, Store.remove, hvs]
    exact (hsub.filter _).length_le
  · intro k raw hraw
    have hstored : (t.drop hash).Stored k := by simp [Store.Stored, hraw]
    obtain ⟨hne, hk⟩ := Store.stored_drop_iff.mp hstored
    have hold := hwell.holds k raw (by rwa [Store.blobs_drop_of_ne hne] at hraw)
    unfold Holds at hold ⊢
    rw [Store.find_drop_of_ne hne]
    cases hv : t.find k with
    | none => simpa [hv] using hold
    | some v =>
      simp only [hv] at hold ⊢
      refine hold.mono_of_base fun base hbase hbaseStored => Store.stored_drop_iff.mpr
        ⟨?_, hbaseStored⟩
      rintro rfl
      exact hfree k hk (Store.parent_eq_some_iff.mpr ⟨v, hv, hbase⟩)
  · intro k hk
    obtain ⟨n, hn⟩ := hwell.ends k (Store.stored_drop_iff.mp hk).2
    obtain ⟨m, -, hm⟩ := hn.cut (Store.parent_drop_cut hash)
    exact ⟨m, hm⟩

namespace Rebased

variable {deltas : List String}

section

variable (h : Rebased codecs contents s deltas t)
include h

/-- The delete after the loop only cuts bases. -/
theorem cut_drop (hash k : String) :
    (t.drop hash).parent k = s.parent k ∨ (t.drop hash).parent k = none := by
  rcases Store.parent_drop_cut (s := t) hash k with hk | hk
  · rw [hk]
    exact h.cut k
  · exact Or.inr hk

/-- When all deltas on a hash could be read, none rests on it after the loop. -/
theorem free (hdeltas : ∀ d, s.Stored d → s.parent d = some hash → d ∈ deltas)
    (hrecorded : ∀ d, s.Stored d → s.parent d = some hash → Recorded s d) (k : String)
    (hk : t.Stored k) : t.parent k ≠ some hash := by
  intro hparent
  have hstored := (h.stored k).mp hk
  have hold : s.parent k = some hash := by
    rcases h.cut k with hsame | hnone
    · exact hsame.symm.trans hparent
    · rw [hnone] at hparent
      cases hparent
  have hfilled := (h.filled k (hdeltas k hstored hold) hstored (hrecorded k hstored hold)).1
  rw [hparent] at hfilled
  cases hfilled

/-- **Other blobs are read as before.**  One whose records were all there reads as its content
before and after; one that met a missing record still meets it, and is served as it is stored. -/
theorem read_drop (hs : InOrder codecs s contents) (hzstd : codecs.ZstdRoundTrips)
    (hdelta : s.DeltasDecode codecs contents) (hfree : ∀ k, t.Stored k → t.parent k ≠ some hash)
    {other : String} (hne : other ≠ hash) :
    (t.drop hash).read codecs other = s.read codecs other := by
  by_cases hstored : s.Stored other
  · have hstored' : (t.drop hash).Stored other :=
      Store.stored_drop_iff.mpr ⟨hne, (h.stored other).mpr hstored⟩
    have hwell' := h.well.drop hfree
    obtain ⟨n, hn⟩ := hs.ends other hstored
    by_cases hrecorded : s.parent other = none ∨ Recorded s other
    · obtain ⟨m, hmn, hm⟩ := hn.cut (h.cut_drop hash)
      have hshort := hs.short other n hstored hn
      have hall : s.parent other ≠ none → Recorded s other := fun hp =>
        hrecorded.resolve_left hp
      rw [hs.read_eq hzstd hdelta hstored hn hshort hall]
      have hdelta' : (t.drop hash).DeltasDecode codecs contents :=
        hdelta.mono fun k hk => (h.stored k).mp (Store.stored_drop_iff.mp hk).2
      refine hwell'.read_eq hzstd hdelta' hstored' hm (hmn.trans hshort) ?_
      intro hparent i hi a ha
      have hane : a ≠ hash := (Store.stored_drop_iff.mp (hwell'.stored_ancestor hstored' ha)).1
      have hold : s.parent other ≠ none := by
        rcases h.cut_drop hash other with hsame | hnone
        · rwa [← hsame]
        · exact absurd hnone hparent
      rw [Store.find_drop_of_ne hane, h.isSome_find_iff]
      exact hall hold i hi a (ancestor_of_cut (h.cut_drop hash) ha)
    · obtain ⟨hparent, hnot⟩ := not_or.mp hrecorded
      have hkeep : ¬ (other ∈ deltas ∧ s.Stored other ∧ Recorded s other) := fun hk => hnot hk.2.2
      simp only [Recorded, not_forall, Option.not_isSome_iff_eq_none] at hnot
      obtain ⟨i, hi, a, ha, hmissing⟩ := hnot
      obtain ⟨ha', hmissing'⟩ := h.chase_missing hi ha hmissing
      obtain ⟨base, hbase⟩ := Option.ne_none_iff_exists'.mp hparent
      -- the way to the missing record does not lead through the deleted hash
      have hway : ∀ j ≤ i, ∀ b, ancestor t.parent j other = some b → b ≠ hash := by
        rintro j - b hb rfl
        cases j with
        | zero => exact hne (by simpa using hb)
        | succ j =>
          rw [ancestor_succ_right, Option.bind_eq_some_iff] at hb
          obtain ⟨c, hc, hcb⟩ := hb
          exact hfree c (h.well.stored_ancestor ((h.stored other).mpr hstored) hc) hcb
      have ha'' : ancestor (t.drop hash).parent i other = some a := by
        rw [← ha']
        refine ancestor_congr fun j hj b hb => ?_
        rw [Store.parent, Store.parent, Store.find_drop_of_ne (hway j (le_of_lt hj) b hb)]
      have hmissing'' : (t.drop hash).find a = none := by
        rw [Store.find_drop_of_ne (hway i le_rfl a ha')]
        exact hmissing'
      have hbase' : (t.drop hash).parent other = some base := by
        rw [Store.parent, Store.find_drop_of_ne hne, (h.kept other hkeep).1]
        exact hbase
      rw [read_broken hbase hi ha hmissing, read_broken hbase' hi ha'' hmissing'',
        Store.blobs_drop_of_ne hne, (h.kept other hkeep).2]
  · have hbefore : s.blobs other = none := by simpa [Store.Stored] using hstored
    have hafter : (t.drop hash).blobs other = none := by
      rw [Store.blobs_drop_of_ne hne]
      have := (h.stored other).not.mpr hstored
      simpa [Store.Stored] using this
    rw [Store.read, Store.read, hbefore, hafter]
    rfl

end

end Rebased

variable {deltas : List String}

section

variable (hs : InOrder codecs s contents) (hzstd : codecs.ZstdRoundTrips)
    (hdelta : s.DeltasDecode codecs contents)
    (hdeltas : ∀ d, s.Stored d → s.parent d = some hash → d ∈ deltas)
include hs hzstd hdelta hdeltas

/-- **Deleting a blob that deltas rest on.**  The store is in order afterwards exactly when each
stored delta made against the blob could be read. -/
theorem inOrder_delete_iff :
    InOrder codecs ((s.rebaseAll codecs deltas).drop hash) contents
      ↔ ∀ d, s.Stored d → s.parent d = some hash → Recorded s d := by
  have h := Rebased.run hs hzstd hdelta deltas
  constructor
  · intro hafter d hstored hparent
    by_contra hnot
    -- a delta that was passed over rests on the deleted blob
    have hne : d ≠ hash := by
      rintro rfl
      obtain ⟨n, hn⟩ := hs.ends d hstored
      refine hn.ancestor_ne_self (m := 0) ?_
      rw [ancestor_succ_of_parent hparent]
      rfl
    have hparent' : ((s.rebaseAll codecs deltas).drop hash).parent d = some hash := by
      rw [Store.parent, Store.find_drop_of_ne hne, (h.kept d fun hk => hnot hk.2.2).1]
      exact hparent
    have hbase := hafter.stored_parent
      (Store.stored_drop_iff.mpr ⟨hne, (h.stored d).mpr hstored⟩) hparent'
    exact (Store.stored_drop_iff.mp hbase).1 rfl
  · intro hrecorded
    refine ⟨h.well.drop (h.free hdeltas hrecorded), ?_⟩
    intro k n hk hn
    have hstored := (h.stored k).mp (Store.stored_drop_iff.mp hk).2
    obtain ⟨n₀, hn₀⟩ := hs.ends k hstored
    obtain ⟨m, hle, hm⟩ := hn₀.cut (h.cut_drop hash)
    rw [hn.unique hm]
    exact hle.trans (hs.short k n₀ hstored hn₀)

/-- Every other blob is then read as before. -/
theorem read_delete (hrecorded : ∀ d, s.Stored d → s.parent d = some hash → Recorded s d)
    {other : String} (hne : other ≠ hash) :
    ((s.rebaseAll codecs deltas).drop hash).read codecs other = s.read codecs other := by
  have h := Rebased.run hs hzstd hdelta deltas
  exact h.read_drop hs hzstd hdelta (h.free hdeltas hrecorded) hne

end

end Delete

/-! ### Deleting without the loop -/

section Bare

variable {codecs : Codecs} {s : Store} {hash : String}

/-- A chain that ends in a blob without bytes gives no content. -/
theorem chase_without_root {m : Nat} {other : String}
    (ha : ancestor s.parent m other = some hash) (hgone : s.blobs hash = none) (content : Bytes) :
    chase codecs s.lookup s.blobs m other ≠ .ok content := by
  induction m generalizing other content with
  | zero =>
    obtain rfl : other = hash := by simpa using ha
    simp [chase, rootContent, hgone]
  | succ m ih =>
    rw [ancestor_succ, Option.bind_eq_some_iff] at ha
    obtain ⟨base, hparent, ha⟩ := ha
    rw [chase_succ_of_parent hparent]
    cases hbase : chase codecs s.lookup s.blobs m base with
    | error e => simp
    | ok found => exact absurd hbase (ih ha found)

/-- A blob without a record can be deleted alone, unless it is the last blob that a read of another
one looks at. -/
theorem read_remove (hmissing : s.find hash = none) {other : String} (hne : other ≠ hash)
    (hlast : ancestor s.parent maxDeltaChainDepth other ≠ some hash) :
    (s.remove hash).read codecs other = s.read codecs other := by
  have hblobs : ∀ k, k ≠ hash → (s.remove hash).blobs k = s.blobs k := by
    intro k hk
    simp [Function.update_of_ne hk]
  by_cases hmet : ∃ i < maxDeltaChainDepth, ancestor s.parent i other = some hash
  · -- the read met the blob before, and already failed there
    obtain ⟨i, hi, ha⟩ := hmet
    obtain ⟨base, hparent⟩ : ∃ base, s.parent other = some base := by
      cases i with
      | zero => exact absurd (by simpa using ha) hne
      | succ i =>
        rw [ancestor_succ, Option.bind_eq_some_iff] at ha
        obtain ⟨base, hparent, -⟩ := ha
        exact ⟨base, hparent⟩
    rw [read_broken (s := s.remove hash) hparent hi ha hmissing, read_broken hparent hi ha hmissing,
      hblobs other hne]
  · refine read_congr (hblobs other hne) rfl (chase_congr ?_ ?_)
    · intro i hi a ha
      refine ⟨rfl, hblobs a ?_⟩
      rintro rfl
      exact hmet ⟨i, hi, ha⟩
    · intro a ha
      have hane : a ≠ hash := by
        rintro rfl
        exact hlast ha
      simp only [rootContent, Store.lookup, Store.find_remove, hblobs a hane]

/-! ### Storing a deleted blob again -/

/-- An upload of a new body can be read back: if it is to be encoded then a record will say so, and
a base it names is served as a read with one lookup less would give it. -/
def CanReadBack (codecs : Codecs) (s : Store) (ctx : LfsContext) : Prop :=
  s.versions.isSome → ctx.isLfs = true → ctx.isManifest = false →
    ctx.recordKey.isSome ∧ ∀ base, ctx.base = some base → (s.find base).isSome → s.Stored base →
      ∃ content, s.read codecs base = some content
        ∧ chase codecs s.lookup s.blobs (maxDeltaChainDepth - 1) base = .ok content

/-- A chain that gives a content does not pass a hash without bytes and record. -/
theorem ancestor_ne_of_chase {m : Nat} {base : String} {content : Bytes}
    (hgone : s.blobs hash = none) (hmissing : s.find hash = none)
    (hchase : chase codecs s.lookup s.blobs m base = .ok content) :
    ∀ i ≤ m, ancestor s.parent i base ≠ some hash := by
  intro i hi ha
  rcases Nat.lt_or_eq_of_le hi with hlt | rfl
  · rw [chase_broken hlt ha hmissing] at hchase
    cases hchase
  · exact chase_without_root ha hgone content hchase

/-- A chain that does not pass the hash of an upload is read as before. -/
theorem chase_upload (ctx : LfsContext) {data : Bytes} (now : Nat) {m : Nat} {base : String}
    (hapart : ∀ i ≤ m, ancestor s.parent i base ≠ some (sha256Hex data)) :
    chase codecs (s.upload codecs ctx data now).lookup (s.upload codecs ctx data now).blobs m base
      = chase codecs s.lookup s.blobs m base := by
  have hne : ∀ i ≤ m, ∀ a, ancestor s.parent i base = some a → a ≠ sha256Hex data := by
    rintro i hi _ ha rfl
    exact hapart i hi ha
  refine chase_congr (fun i hi a ha => ?_) fun a ha => ?_
  · have hother := hne i (le_of_lt hi) a ha
    exact ⟨Store.find_upload_of_ne hother, Store.blobs_upload_of_ne hother⟩
  · have hother := hne m le_rfl a ha
    simp only [rootContent, Store.lookup, Store.find_upload_of_ne hother,
      Store.blobs_upload_of_ne hother]

/-- The delta from the base of an upload to its body decodes, if it can be made. -/
def DeltaDecodes (codecs : Codecs) (s : Store) (ctx : LfsContext) (data : Bytes) : Prop :=
  ∀ base content, ctx.base = some base → s.read codecs base = some content →
    ∀ delta, codecs.encodeDelta content data = .ok delta → codecs.decodeDelta content delta = .ok data

/-- **A new body is read back.** -/
theorem read_upload_new (hzstd : codecs.ZstdRoundTrips) {ctx : LfsContext} {data : Bytes}
    (hdelta : DeltaDecodes codecs s ctx data) (hgone : s.blobs (sha256Hex data) = none)
    (hmissing : s.find (sha256Hex data) = none) (hform : CanReadBack codecs s ctx) (now : Nat) :
    (s.upload codecs ctx data now).read codecs (sha256Hex data) = some data := by
  have hblobs : (s.upload codecs ctx data now).blobs (sha256Hex data)
      = some (s.prepared codecs ctx data).storedData := by
    rw [Store.blobs_upload, if_neg (by simp [hgone]), Function.update_self]
  have hfind := Store.find_upload_self (s := s) codecs ctx data now
  rw [hmissing, Option.none_or] at hfind
  have hrecord : s.versions.isSome ∧ ctx.isLfs = true ∧ ctx.isManifest = false →
      ∃ v, s.newRecord codecs ctx data now = some v := by
    rintro ⟨hversions, hlfs, hmanifest⟩
    exact Option.isSome_iff_exists.mp ((s.newRecord_isSome codecs ctx data now).mpr
      ⟨hversions, (hform hversions hlfs hmanifest).1⟩)
  have hnamed v (hv : s.newRecord codecs ctx data now = some v) := Store.newRecord_eq_some hv
  have hprepared := preparedAs codecs s ctx data
  generalize s.prepared codecs ctx data = prepared at hblobs hprepared hnamed
  rw [Store.read, hfind, hblobs, Option.map_some]
  congr 1
  cases hprepared with
  | raw =>
    cases hv : s.newRecord codecs ctx data now with
    | none => rfl
    | some v =>
      obtain ⟨-, -, -, hstorage, -⟩ := hnamed v hv
      simp [loadStored, hstorage, prepareRaw]
  | compressed hencoded =>
    obtain ⟨v, hv⟩ := hrecord hencoded
    obtain ⟨-, -, -, hstorage, -⟩ := hnamed v hv
    simp [hv, loadStored, hstorage, prepareCompressed, Codecs.decompressOr_compressOr hzstd]
  | @delta hencoded base content delta stored hctx hfound hread hencode _ hcompress =>
    obtain ⟨v, hv⟩ := hrecord hencoded
    obtain ⟨-, -, hsha, hstorage, hbase⟩ := hnamed v hv
    have hparent : (s.upload codecs ctx data now).parent (sha256Hex data) = some base :=
      Store.parent_eq_some_iff.mpr
        ⟨v, hfind.trans hv, deltaBase_eq_some.mpr ⟨hstorage, hbase⟩⟩
    obtain ⟨content', hread', hchase⟩ := (hform hencoded.1 hencoded.2.1 hencoded.2.2).2 base hctx
      hfound (Store.stored_of_read hread)
    obtain rfl : content = content' := Option.some.inj (hread.symm.trans hread')
    -- the chain of the base is the one it had before
    have hbaseChase :=
      (chase_upload ctx now (ancestor_ne_of_chase hgone hmissing hchase)).trans hchase
    have hwhole : chase codecs (s.upload codecs ctx data now).lookup
        (s.upload codecs ctx data now).blobs maxDeltaChainDepth (sha256Hex data) = .ok data := by
      have hsucc : maxDeltaChainDepth = (maxDeltaChainDepth - 1) + 1 := rfl
      rw [hsucc, chase_succ_of_parent hparent, hbaseChase, Checks.ok_bind, applyDelta, hblobs]
      dsimp only
      rw [Codecs.decompressOr_of_compress hzstd hcompress]
      exact hdelta base content hctx hread delta hencode
    simp only [hv, loadStored, hstorage, reconstructBlob_eq_chase, hsha, hwhole]

end Bare

end BlossomRs.Lfs
