import BlossomRs.Locks
import BlossomRs.Server.Delete
import BlossomRs.Server.Presigned

/-!
# `GET /n96`

The files of a key, a page at a time.  Pages are counted from one; the first record of a page is
the product of two 32-bit numbers of the client, computed in 32 bits and widened afterwards.

A build without overflow checks wraps the product around, which is what is modelled; one with them
ends the request instead.  `nip96_pages_exact_iff` says which requests that leaves alone.
-/

namespace BlossomRs.Server

open Protocol Auth Storage Database Lfs Locks

variable {β δ ν κ : Type}

/-- `Nip96ListQuery`. -/
structure Nip96ListQuery where
  page : UInt32 := 1
  count : UInt32 := 50

/-- `page.saturating_sub(1) * count`, still in 32 bits. -/
def Nip96ListQuery.start (query : Nip96ListQuery) : UInt32 :=
  (if query.page = 0 then 0 else query.page - 1) * query.count

/-- The records that are skipped to and taken. -/
def pageRecords (query : Nip96ListQuery) (records : List UploadRecord) : List UploadRecord :=
  (records.drop query.start.toNat).take query.count.toNat

/-- The entry of one file. -/
def nip96File (baseUrl : String) (record : UploadRecord) : Json :=
  let blobUrl := baseUrl ++ "/" ++ record.sha256
  let tags := [["url", blobUrl], ["ox", record.sha256, blobUrl], ["size", toString record.size],
    ["m", record.mimeType]]
  .obj [("tags", .arr (tags.map fun tag => .arr (tag.map .str))), ("content", .str ""),
    ("created_at", .num record.createdAt)]

/-- A page of files out of so many in total. -/
def filesResponse (baseUrl : String) (page : UInt32) (total : Nat) (records : List UploadRecord) :
    Response :=
  okJson [("count", .num records.length), ("total", .num total), ("page", .num page.toNat),
    ("files", .arr (records.map (nip96File baseUrl)))]

/-- The answer to a query from what the database lists. -/
def listFiles (query : Nip96ListQuery) (baseUrl : String) :
    Except DbError (List UploadRecord) → Response
  | .ok records => filesResponse baseUrl query.page records.length (pageRecords query records)
  | .error e => errorJson .internalServerError e.message

/-- `handle_nip96_list`. -/
def handleNip96List [BlobDatabase δ] (ext : Externals) (call : Call) (headers : HeaderMap)
    (query : Nip96ListQuery) (w : World β δ ν κ) : Response × World β δ ν κ :=
  match extractAuthEvent ext.parser headers with
  | .error e => (errorJson .unauthorized e.message, w)
  | .ok event =>
    match verifyAuthEvent ext (call.clock 0) (call.clock 1) w.seen event "get" w.server.baseUrl
        "/n96" "GET" none with
    | (.error e, seen) => (errorJson .unauthorized e.message, { w with seen := seen })
    | (.ok (), seen) =>
      (listFiles query w.server.baseUrl
        (BlobDatabase.listUploadsByPubkey w.server.database event.pubkey), { w with seen := seen })

/-! ### Pages -/

/-- The records of a page: `count` of them after the pages before it. -/
def exactPage (page count : Nat) (records : List UploadRecord) : List UploadRecord :=
  (records.drop ((page - 1) * count)).take count

/-- The pages put together are the list, as far as they go. -/
theorem flatten_exactPage (count pages : Nat) (records : List UploadRecord) :
    ((List.range pages).map fun i => exactPage (i + 1) count records).flatten
      = records.take (pages * count) := by
  induction pages with
  | zero => simp
  | succ pages ih =>
    rw [List.range_succ, List.map_append, List.flatten_append, ih, Nat.succ_mul, List.take_add]
    simp [exactPage]

variable {query : Nip96ListQuery}

theorem toNat_start (hpage : 1 ≤ query.page.toNat) :
    query.start.toNat = (query.page.toNat - 1) * query.count.toNat % 2 ^ 32 := by
  have hne : query.page ≠ 0 := by
    intro hzero
    rw [hzero] at hpage
    exact absurd hpage (by decide)
  have hle : (1 : UInt32) ≤ query.page := UInt32.le_iff_toNat_le.mpr hpage
  rw [Nip96ListQuery.start, if_neg hne, UInt32.toNat_mul, UInt32.toNat_sub_of_le _ _ hle]
  rfl

/-- An offset that fits gives the page. -/
theorem pageRecords_eq (hpage : 1 ≤ query.page.toNat)
    (hfits : (query.page.toNat - 1) * query.count.toNat < 2 ^ 32) (records : List UploadRecord) :
    pageRecords query records = exactPage query.page.toNat query.count.toNat records := by
  rw [pageRecords, exactPage, toNat_start hpage, Nat.mod_eq_of_lt hfits]

/-- A page's answer has as many files as the page. -/
theorem length_eq_of_filesResponse_eq {baseUrl : String} {page : UInt32} {total : Nat}
    {records records' : List UploadRecord}
    (h : filesResponse baseUrl page total records = filesResponse baseUrl page total records') :
    records.length = records'.length := by
  simp only [filesResponse, okJson, Response.mk.injEq, ResponseBody.json.injEq, Json.obj.injEq,
    List.cons.injEq, Prod.mk.injEq, Json.num.injEq, true_and] at h
  exact Int.ofNat_inj.mp h.1

/-! ### The handler -/

/-- The handler answers with a page of these records: the event is accepted, and they are what the
database lists for its key. -/
def Lists [BlobDatabase δ] (ext : Externals) (call : Call) (headers : HeaderMap) (w : World β δ ν κ)
    (records : List UploadRecord) : Prop :=
  ∃ event, extractAuthEvent ext.parser headers = .ok event
    ∧ (verifyAuthEvent ext (call.clock 0) (call.clock 1) w.seen event "get" w.server.baseUrl "/n96"
      "GET" none).1 = .ok ()
    ∧ BlobDatabase.listUploadsByPubkey w.server.database event.pubkey = .ok records

theorem handleNip96List_eq [BlobDatabase δ] {ext : Externals} {call : Call} {headers : HeaderMap}
    {w : World β δ ν κ} {records : List UploadRecord} (h : Lists ext call headers w records)
    (query : Nip96ListQuery) :
    (handleNip96List ext call headers query w).1
      = filesResponse w.server.baseUrl query.page records.length (pageRecords query records) := by
  obtain ⟨event, hevent, hverified, hlisted⟩ := h
  rcases hverify : verifyAuthEvent ext (call.clock 0) (call.clock 1) w.seen event "get"
    w.server.baseUrl "/n96" "GET" none with ⟨result, seen⟩
  rw [hverify] at hverified
  obtain rfl : result = .ok () := hverified
  simp only [handleNip96List, hevent, hverify, hlisted, listFiles]

/-- Records of one key, newest first. -/
structure Listing where
  records : List UploadRecord
  own : ∀ record ∈ records, record.pubkey = testKey
  sorted : records.Pairwise fun a b => b.createdAt ≤ a.createdAt
  hashes_nodup : (records.map (·.sha256)).Nodup

/-- They are filed with the key. -/
def Listing.entries (listing : Listing) : List (Sigma fun _ : String × String => UploadRecord) :=
  listing.records.map fun record => ⟨(record.sha256, testKey), record⟩

theorem Listing.entries_nodupKeys (listing : Listing) : listing.entries.NodupKeys := by
  have hkeys : listing.entries.keys.map Prod.fst = listing.records.map (·.sha256) := by
    simp [Listing.entries, List.keys, Function.comp_def]
  exact List.Nodup.of_map Prod.fst (hkeys ▸ listing.hashes_nodup)

def Listing.database (listing : Listing) : MemoryDatabase :=
  { MemoryDatabase.new with owners := ⟨listing.entries, listing.entries_nodupKeys⟩ }

theorem Listing.listUploadsByPubkey (listing : Listing) :
    listing.database.listUploadsByPubkey testKey = listing.records := by
  have hrecords : listing.database.owners.entries.map (fun entry => entry.2) = listing.records := by
    simp [Listing.database, Listing.entries, Function.comp_def]
  have hown : listing.records.filter (·.pubkey == testKey) = listing.records :=
    List.filter_eq_self.mpr fun record hrecord => by simp [listing.own record hrecord]
  rw [MemoryDatabase.listUploadsByPubkey, hrecords, hown]
  exact listing.sorted.insertionSort_eq

/-- The request for a page of them. -/
def listRequest : SignedRequest where
  sig := (0x25eb7880d84fe6ee5431321726e662dfe3ba07818854f016300b388e7612c821,
    0xe47d819505dd06a4fa4b3f46d19f31419308b11d510c8a7f73ee715a16e278b9)
  time := 1700000000
  action := "get"
  hash := none
  path := "/n96"
  method := "GET"
  tags := []

def Listing.world (listing : Listing) :
    World MemoryBackend MemoryDatabase MemoryLfsVersionDatabase MemoryLockDatabase :=
  ⟨{ ServerState.new MemoryBackend.new serverUrl with database := listing.database }, seenAuthEvents⟩

theorem Listing.lists (listing : Listing) :
    Lists (.knowing [listRequest.event]) listRequest.call listRequest.headers listing.world
      listing.records := by
  have hmem := List.mem_singleton_self listRequest.event
  refine ⟨listRequest.event, SignedRequest.extractAuthEvent_headers hmem, ?_,
    congrArg Except.ok listing.listUploadsByPubkey⟩
  have hnone : ∀ x, none = some x → listRequest.hash = some x := by simp
  obtain ⟨seen, hverified⟩ := SignedRequest.verifies (by decide : listRequest.WellFormed) hmem hnone
    (lapsed_seenAuthEvents (listRequest.call.clock 1))
  exact congrArg Prod.fst hverified

/-- A listing of any length. -/
def listingOf (length : Nat) : Listing where
  records := (List.range length).map fun i => ⟨toString i, 0, "", testKey, 0, none⟩
  own := by simp
  sorted := List.pairwise_map.mpr (List.pairwise_of_forall fun _ _ => le_rfl)
  hashes_nodup := by
    rw [List.map_map]
    exact List.nodup_range.map RustStr.toString_injective

/-- A page that should start at a number that wraps around starts at a smaller one, and a list that
reaches that one but not the page is answered with records all the same. -/
theorem pageRecords_wrapped (hcount : 1 ≤ query.count.toNat)
    (hwraps : 2 ^ 32 ≤ (query.page.toNat - 1) * query.count.toNat) :
    (pageRecords query (listingOf (query.start.toNat + 1)).records).length = 1
      ∧ exactPage query.page.toNat query.count.toNat (listingOf (query.start.toNat + 1)).records
        = [] := by
  have hstart : query.start.toNat < (query.page.toNat - 1) * query.count.toNat :=
    Nat.lt_of_lt_of_le query.start.toNat_lt hwraps
  have hlength : (listingOf (query.start.toNat + 1)).records.length = query.start.toNat + 1 := by
    simp [listingOf]
  constructor
  · rw [pageRecords, List.length_take, List.length_drop, hlength]
    omega
  · rw [exactPage, List.drop_eq_nil_of_le (hlength.trans_le hstart), List.take_nil]

/-- **Pages.**  The handler answers every accepted request with the records of the page, exactly if the
number of the first of them fits in 32 bits; up to such a page the pages put together are the list. -/
theorem nip96_pages_exact_iff (query : Nip96ListQuery) (hpage : 1 ≤ query.page.toNat)
    (hcount : 1 ≤ query.count.toNat) :
    ((∀ (β δ ν κ : Type) [BlobDatabase δ] (ext : Externals) (call : Call) (headers : HeaderMap)
          (w : World β δ ν κ) (records : List UploadRecord), Lists ext call headers w records →
        (handleNip96List ext call headers query w).1
          = filesResponse w.server.baseUrl query.page records.length
            (exactPage query.page.toNat query.count.toNat records))
        ↔ (query.page.toNat - 1) * query.count.toNat < 2 ^ 32)
      ∧ ((query.page.toNat - 1) * query.count.toNat < 2 ^ 32 → ∀ records,
        ((List.range query.page.toNat).map fun i =>
            pageRecords ⟨UInt32.ofNat (i + 1), query.count⟩ records).flatten
          = records.take (query.page.toNat * query.count.toNat)) := by
  refine ⟨⟨fun hexact => ?_, fun hfits β δ ν κ _ ext call headers w records hlists => ?_⟩,
    fun hfits records => ?_⟩
  · by_contra hwraps
    obtain ⟨hone, hnone⟩ := pageRecords_wrapped hcount (Nat.le_of_not_lt hwraps)
    have hlists := (listingOf (query.start.toNat + 1)).lists
    have hanswer := hexact _ _ _ _ _ _ _ _ _ hlists
    rw [handleNip96List_eq hlists] at hanswer
    have hlength := length_eq_of_filesResponse_eq hanswer
    rw [hone, hnone] at hlength
    exact absurd hlength (by simp)
  · rw [handleNip96List_eq hlists, pageRecords_eq hpage hfits]
  · rw [← flatten_exactPage]
    congr 1
    apply List.map_congr_left
    intro i hi
    have hi : i < query.page.toNat := List.mem_range.mp hi
    have hnumber : (UInt32.ofNat (i + 1)).toNat = i + 1 :=
      UInt32.toNat_ofNat_of_lt' (Nat.lt_of_le_of_lt hi query.page.toNat_lt)
    -- an earlier page starts earlier
    have hearlier : i * query.count.toNat ≤ (query.page.toNat - 1) * query.count.toNat :=
      Nat.mul_le_mul_right _ (by omega)
    have heq := @pageRecords_eq ⟨UInt32.ofNat (i + 1), query.count⟩
      (by rw [hnumber]; omega) (by rw [hnumber]; simp only [Nat.add_sub_cancel]; omega) records
    rw [hnumber] at heq
    exact heq

/-- The default page size, on the second page of sixty files. -/
theorem second_page_exact :
    (1 ≤ (2 : UInt32).toNat ∧ 1 ≤ (50 : UInt32).toNat)
      ∧ (handleNip96List (.knowing [listRequest.event]) listRequest.call listRequest.headers ⟨2, 50⟩
          (listingOf 60).world).1
        = filesResponse serverUrl 2 60 (exactPage 2 50 (listingOf 60).records) :=
  ⟨by decide, (nip96_pages_exact_iff ⟨2, 50⟩ (by decide) (by decide)).1.mpr (by decide) _ _ _ _ _ _ _
    _ _ (listingOf 60).lists⟩

/-- One file of the key. -/
def oneFile : Listing where
  records := [⟨sha256Hex [1], 1, "text/plain", testKey, 1700000000, none⟩]
  own := by simp
  sorted := List.pairwise_singleton _ _
  hashes_nodup := List.nodup_singleton _

/-- The page that starts at record `2 ^ 32` starts over: the key is answered with its one file. -/
theorem page_starts_over :
    exactPage 65537 65536 oneFile.records = []
      ∧ (handleNip96List (.knowing [listRequest.event]) listRequest.call listRequest.headers
          ⟨65537, 65536⟩ oneFile.world).1
        = filesResponse serverUrl 65537 1 oneFile.records := by
  have hstart : (Nip96ListQuery.mk 65537 65536).start = 0 := by decide
  constructor
  · rw [exactPage, List.drop_eq_nil_of_le (by decide), List.take_nil]
  · have hpage : pageRecords ⟨65537, 65536⟩ oneFile.records = oneFile.records := by
      rw [pageRecords, hstart]
      exact List.take_of_length_le (by decide)
    rw [handleNip96List_eq oneFile.lists, hpage]
    rfl

end BlossomRs.Server
