import BlossomRs.GitServer.PktLine
import Mathlib.Data.List.TakeWhile

/-!
# Streams of pkt-lines

Which bodies the server's parser reads, from both sides.

* `parse_written_updates`: a client writes updates as pkt-lines, each with its own length in front,
  then a flush packet and the pack.  The parser finds exactly these updates, whatever the pack is.
* `accepted_is_stream_iff`: a body that the parser accepts is a sequence of whole pkt-lines up to a
  flush packet or its end, unless the loop comes to a length with a plus sign, to a delimiter or
  response-end packet, or to fewer than four bytes that are left.
-/

namespace BlossomRs.GitServer

open Protocol

/-! ### Pkt-lines -/

/-- Four hexadecimal digits that spell a length. -/
def SpellsLength (digits : Bytes) (len : Nat) : Prop :=
  digits.length = 4 ∧ Hex.digitsValue? 0 (digits.map fun b => Char.ofNat b.toNat) = some len

instance (digits : Bytes) (len : Nat) : Decidable (SpellsLength digits len) :=
  inferInstanceAs (Decidable (_ ∧ _))

/-- A pkt-line: four digits that spell its own length, and the payload. -/
structure PktLine where
  digits : Bytes
  payload : Bytes
  spelled : SpellsLength digits (4 + payload.length)

def PktLine.bytes (line : PktLine) : Bytes :=
  line.digits ++ line.payload

/-- The flush packet. -/
def flushPacket : Bytes :=
  RustStr.asBytes "0000"

theorem PktLine.length_bytes (line : PktLine) : line.bytes.length = 4 + line.payload.length := by
  rw [PktLine.bytes, List.length_append, line.spelled.1]

variable {digits : Bytes} {len : Nat} {update : RefUpdate}

theorem parseLength_of_spells (h : SpellsLength digits len) :
    parseLength digits = .ok len :=
  parseLength_of_digits h.1 h.2

section Line

variable (line : PktLine) (rest : Bytes)

theorem PktLine.parseLength_take :
    parseLength ((line.bytes ++ rest).take 4) = .ok (4 + line.payload.length) := by
  rw [PktLine.bytes, List.append_assoc, List.take_left' line.spelled.1]
  exact parseLength_of_spells line.spelled

theorem PktLine.payload_eq :
    ((line.bytes ++ rest).take (4 + line.payload.length)).drop 4 = line.payload := by
  rw [List.take_left' line.length_bytes, PktLine.bytes, List.drop_left' line.spelled.1]

theorem PktLine.drop_eq : (line.bytes ++ rest).drop (4 + line.payload.length) = rest :=
  List.drop_left' line.length_bytes

/-- The parser's round at a pkt-line. -/
theorem PktLine.parse_eq :
    parseRefUpdates (line.bytes ++ rest) =
      if looksLikeUpdate line.payload then
        match parseRefUpdate line.payload with
        | .error e => .error e
        | .ok update => (parseRefUpdates rest).map (update :: ·)
      else parseRefUpdates rest := by
  have hlong : 4 + line.payload.length ≤ (line.bytes ++ rest).length := by
    rw [List.length_append, line.length_bytes]
    omega
  have hround := parseRefUpdates_line (line.parseLength_take rest) (by omega) hlong
  rw [line.payload_eq, line.drop_eq] at hround
  exact hround

/-- Git finds the same line there. -/
theorem PktLine.gitPackets_eq :
    gitPackets (line.bytes ++ rest) = .line line.payload :: gitPackets rest := by
  have hlength : (line.bytes ++ rest).length = 4 + line.payload.length + rest.length := by
    rw [List.length_append, line.length_bytes]
  have htake : (line.bytes ++ rest).take 4 = line.digits := by
    rw [PktLine.bytes, List.append_assoc, List.take_left' line.spelled.1]
  rw [gitPackets, if_pos (by omega), htake, line.spelled.2]
  dsimp only
  rw [if_neg (by omega), if_neg (by omega), if_neg (by omega), line.payload_eq, line.drop_eq]

end Line

/-- Git stops at a flush packet. -/
theorem gitPackets_flush (pack : Bytes) : gitPackets (flushPacket ++ pack) = [] := by
  have hflush : SpellsLength flushPacket 0 := by decide
  rw [gitPackets, if_pos (by rw [List.length_append, hflush.1]; omega),
    List.take_left' hflush.1, hflush.2]
  rfl

/-- The parser stops at a flush packet. -/
theorem parse_flush (pack : Bytes) : parseRefUpdates (flushPacket ++ pack) = .ok [] := by
  have hflush : SpellsLength flushPacket 0 := by decide
  have hlong : 4 ≤ (flushPacket ++ pack).length := by
    rw [List.length_append, hflush.1]
    omega
  rw [parseRefUpdates, if_pos hlong, List.take_left' hflush.1, parseLength_of_spells hflush]
  rfl

/-! ### Updates that are written -/

/-- An update as a client sends it. -/
structure Sendable (update : RefUpdate) : Prop where
  oldOid : isValidSha1 update.oldOid = true
  newOid : isValidSha1 update.newOid = true
  refs : RustStr.startsWith update.refname "refs/" = true
  noNul : '\x00' ∉ update.refname.toList
  noFinalNewline : update.refname.toList.getLast? ≠ some '\n'
  trimmed : ∀ caps ∈ update.capabilities,
    (∀ c ∈ caps.toList.head?, RustStr.isWhitespace c = false)
      ∧ ∀ c ∈ caps.toList.getLast?, RustStr.isWhitespace c = false

/-- The ref name, then NUL and the capabilities if there are any. -/
def RefUpdate.refWithCaps (update : RefUpdate) : String :=
  update.refname ++ update.capabilities.elim "" ("\x00" ++ ·)

/-- The text of an update. -/
def RefUpdate.text (update : RefUpdate) : String :=
  update.oldOid ++ " " ++ (update.newOid ++ " " ++ update.refWithCaps)

/-- The payload of an update, with or without a newline at its end. -/
def RefUpdate.payload (update : RefUpdate) (newline : Bool) : Bytes :=
  RustStr.asBytes update.text ++ if newline then [10] else []

theorem space_notMem_of_isValidSha1 {s : String} (h : isValidSha1 s = true) : ' ' ∉ s.toList := by
  intro hspace
  have hall := (Bool.and_eq_true_iff.mp h).2
  exact absurd (List.all_eq_true.mp hall ' ' hspace) (by decide)

/-- The first pieces of an update are its object ids. -/
theorem splitn_text (hold : isValidSha1 update.oldOid = true)
    (hnew : isValidSha1 update.newOid = true) (count : Nat) (rest : String) :
    RustStr.splitn ' ' (count + 3) (update.text ++ rest)
      = update.oldOid :: update.newOid
        :: RustStr.splitn ' ' (count + 1) (update.refWithCaps ++ rest) := by
  have hspace : (" " : String).toList = [' '] := by decide
  have htext : update.text ++ rest
      = update.oldOid ++ " " ++ (update.newOid ++ " " ++ (update.refWithCaps ++ rest)) := by
    simp only [RefUpdate.text, String.append_assoc]
  rw [htext, RustStr.splitn_append hspace (space_notMem_of_isValidSha1 hold),
    RustStr.splitn_append hspace (space_notMem_of_isValidSha1 hnew)]

/-- The payload is the text, or the text and a newline. -/
theorem fromUtf8_payload (update : RefUpdate) (newline : Bool) :
    RustStr.fromUtf8 (update.payload newline)
      = some (update.text ++ if newline then "\n" else "") := by
  rw [RustStr.fromUtf8_eq_some, RustStr.asBytes_append, RefUpdate.payload]
  cases newline with
  | false => rfl
  | true => rfl

theorem looksLikeUpdate_payload (h : Sendable update) (newline : Bool) :
    looksLikeUpdate (update.payload newline) = true := by
  generalize hrest : (if newline then "\n" else "") = rest
  have hutf8 := fromUtf8_payload update newline
  rw [hrest] at hutf8
  -- the text has two spaces, so there is room for three pieces
  obtain ⟨count, hcount⟩ : ∃ count, (update.text ++ rest).toList.length + 1 = count + 3 := by
    refine ⟨(update.text ++ rest).toList.length - 2, ?_⟩
    have hlen : 2 ≤ (update.text ++ rest).toList.length := by
      simp [RefUpdate.text]
      omega
    omega
  simp only [looksLikeUpdate, hutf8, RustStr.split, hcount, splitn_text h.oldOid h.newOid]
  simp [h.oldOid, h.newOid]

theorem trim_eq_self {s : String} (hhead : ∀ c ∈ s.toList.head?, RustStr.isWhitespace c = false)
    (hlast : ∀ c ∈ s.toList.getLast?, RustStr.isWhitespace c = false) : RustStr.trim s = s := by
  have hdrop : ∀ chars : List Char, (∀ c ∈ chars.head?, RustStr.isWhitespace c = false) →
      chars.dropWhile RustStr.isWhitespace = chars := by
    intro chars hchars
    cases chars with
    | nil => rfl
    | cons c rest =>
      have hc := hchars c rfl
      rw [List.dropWhile_cons_of_neg (by rw [hc]; exact Bool.false_ne_true)]
  rw [RustStr.trim, hdrop _ hhead, hdrop _ (by rwa [List.head?_reverse]), List.reverse_reverse,
    String.ofList_toList]

theorem splitOnce_eq_none {c : Char} {s : String} (h : c ∉ s.toList) :
    RustStr.splitOnce c s = none := by
  have hdrop : s.toList.dropWhile (· ≠ c) = [] := by
    rw [List.dropWhile_eq_nil_iff]
    intro d hd
    exact decide_eq_true fun heq => h (heq ▸ hd)
  rw [RustStr.splitOnce, hdrop]

/-- The capabilities are found behind the first NUL. -/
theorem splitCapabilities_refWithCaps (h : Sendable update) :
    splitCapabilities update.refWithCaps = (update.refname, update.capabilities) := by
  obtain ⟨oldOid, newOid, refname, capabilities⟩ := update
  have hnul : ("\x00" : String).toList = ['\x00'] := by decide
  cases capabilities with
  | none =>
    have hempty : (RefUpdate.mk oldOid newOid refname none).refWithCaps = refname := by
      simp [RefUpdate.refWithCaps]
    rw [hempty, splitCapabilities, splitOnce_eq_none h.noNul]
  | some caps =>
    have hcaps : (RefUpdate.mk oldOid newOid refname (some caps)).refWithCaps
        = refname ++ "\x00" ++ caps := by
      simp [RefUpdate.refWithCaps, String.append_assoc]
    obtain ⟨hhead, hlast⟩ := h.trimmed caps rfl
    rw [hcaps, splitCapabilities, RustStr.splitOnce_append hnul h.noNul]
    simp only [trim_eq_self hhead hlast]

/-- A text whose bytes end in a newline ends in one. -/
theorem getLast?_of_asBytes {s : String} (h : (RustStr.asBytes s).getLast? = some 10) :
    s.toList.getLast? = some '\n' := by
  have hbytes := List.dropLast_append_getLast? 10 h
  obtain ⟨front, rfl, -⟩ := RustStr.exists_of_asBytes_eq_concat (by decide) hbytes.symm
  have hnewline : RustStr.asciiText [10] = "\n" := by decide
  rw [hnewline, String.toList_append]
  exact List.getLast?_concat

/-- The text of an update does not end in a newline. -/
theorem getLast?_text {update : RefUpdate} (h : Sendable update) :
    update.text.toList.getLast? ≠ some '\n' := by
  obtain ⟨oldOid, newOid, refname, capabilities⟩ := update
  have hrefname : refname.toList ≠ [] := by
    intro hnil
    have hrefs := h.refs
    simp [RustStr.startsWith, hnil] at hrefs
  cases capabilities with
  | none =>
    have hlast : (RefUpdate.mk oldOid newOid refname none).text.toList.getLast?
        = refname.toList.getLast? := by
      simp only [RefUpdate.text, RefUpdate.refWithCaps, Option.elim_none, String.append_empty,
        String.toList_append]
      rw [List.getLast?_append_of_ne_nil _ (by simp),
        List.getLast?_append_of_ne_nil _ hrefname]
    rw [hlast]
    exact h.noFinalNewline
  | some caps =>
    have htext : (RefUpdate.mk oldOid newOid refname (some caps)).text.toList
        = (oldOid ++ " " ++ newOid ++ " " ++ refname).toList ++ '\x00' :: caps.toList := by
      simp [RefUpdate.text, RefUpdate.refWithCaps]
    rw [htext, List.getLast?_append_of_ne_nil _ (List.cons_ne_nil _ _)]
    intro hlast
    cases hcaps : caps.toList with
    | nil =>
      rw [hcaps] at hlast
      exact absurd hlast (by decide)
    | cons c rest =>
      -- a newline is white space, and the capabilities do not end in any
      rw [hcaps, List.getLast?_cons_cons, ← hcaps] at hlast
      exact absurd ((h.trimmed caps rfl).2 '\n' hlast) (by decide)

theorem stripNewline_payload (h : Sendable update) (newline : Bool) :
    stripNewline (update.payload newline) = RustStr.asBytes update.text := by
  cases newline with
  | true =>
    have hlast : (update.payload true).getLast? = some 10 := List.getLast?_concat
    rw [stripNewline, if_pos hlast]
    exact List.dropLast_concat
  | false =>
    have hpayload : update.payload false = RustStr.asBytes update.text := List.append_nil _
    rw [hpayload, stripNewline, if_neg]
    exact fun hlast => getLast?_text h (getLast?_of_asBytes hlast)

/-- **One line.**  The update comes back with all four fields. -/
theorem parseRefUpdate_payload (h : Sendable update) (newline : Bool) :
    parseRefUpdate (update.payload newline) = .ok update := by
  have hsplit : RustStr.splitn ' ' 3 update.text
      = [update.oldOid, update.newOid, update.refWithCaps] := by
    have hpieces := splitn_text h.oldOid h.newOid 0 ""
    simpa [RustStr.splitn] using hpieces
  rw [parseRefUpdate, stripNewline_payload h, RustStr.fromUtf8_asBytes]
  simp only [hsplit, splitCapabilities_refWithCaps h]
  simp [h.oldOid, h.newOid, h.refs]

/-- The line carries the update, with or without a newline at its end. -/
def Carries (line : PktLine) (update : RefUpdate) : Prop :=
  ∃ newline, line.payload = update.payload newline

/-- The parser's round at a line that carries an update. -/
theorem parse_carried {line : PktLine} (hsendable : Sendable update)
    (hcarries : Carries line update) (rest : Bytes) :
    parseRefUpdates (line.bytes ++ rest) = (parseRefUpdates rest).map (update :: ·) := by
  obtain ⟨newline, hpayload⟩ := hcarries
  rw [line.parse_eq, hpayload, looksLikeUpdate_payload hsendable newline, if_pos rfl,
    parseRefUpdate_payload hsendable newline]

/-- **Written updates are read back.**  The lines of some updates, a flush packet and any pack: the
parser returns the updates, in their order. -/
theorem parse_written_updates {updates : List RefUpdate} {lines : List PktLine}
    (hsendable : ∀ update ∈ updates, Sendable update)
    (hcarries : List.Forall₂ Carries lines updates) (pack : Bytes) :
    parseRefUpdates (lines.flatMap PktLine.bytes ++ (flushPacket ++ pack)) = .ok updates := by
  induction hcarries with
  | nil => exact parse_flush pack
  | @cons line update lines updates hline _ ih =>
    have hrest := ih fun u hu => hsendable u (List.mem_cons_of_mem update hu)
    rw [List.flatMap_cons, List.append_assoc,
      parse_carried (hsendable update List.mem_cons_self) hline, hrest]
    rfl

section Written

/-- A new branch, with the capabilities of the client. -/
def createdBranch : RefUpdate :=
  ⟨nullOid, "53e284c5c3e8b8310077a43d09fd391456f582df", "refs/heads/new branch",
    some "report-status side-band-64k"⟩

/-- A tag that is moved. -/
def movedTag : RefUpdate :=
  ⟨"ac281124fd463f368106445a4fe4eb251d9c7d7a", "4559B8048C334A7E61C76A622CF7CD578A6AF406",
    "refs/tags/v1", none⟩

def createdBranchLine : PktLine where
  digits := RustStr.asBytes "0088"
  payload := createdBranch.payload true
  spelled := by
    set_option maxRecDepth 20000 in
    decide

def movedTagLine : PktLine where
  digits := RustStr.asBytes "0062"
  payload := movedTag.payload false
  spelled := by decide

theorem sendable_createdBranch : Sendable createdBranch := by
  refine ⟨by decide, by decide, by decide, by decide, by decide, ?_⟩
  rintro caps ⟨⟩
  have hfirst : "report-status side-band-64k".toList.head? = some 'r' := by decide
  have hlast : "report-status side-band-64k".toList.getLast? = some 'k' := by decide
  rw [hfirst, hlast]
  constructor
  · rintro c ⟨⟩
    decide
  · rintro c ⟨⟩
    decide

theorem sendable_movedTag : Sendable movedTag := by
  refine ⟨by decide, by decide, by decide, by decide, by decide, ?_⟩
  rintro caps ⟨⟩

theorem carries_createdBranch : Carries createdBranchLine createdBranch :=
  ⟨true, rfl⟩

theorem carries_movedTag : Carries movedTagLine movedTag :=
  ⟨false, rfl⟩

/-- The pack holds what would be another update. -/
theorem parse_branch_and_tag :
    parseRefUpdates ([createdBranchLine, movedTagLine].flatMap PktLine.bytes
      ++ (flushPacket ++ movedTagLine.bytes)) = .ok [createdBranch, movedTag] := by
  have hsendable : ∀ update ∈ [createdBranch, movedTag], Sendable update := by
    intro update hupdate
    rcases List.mem_pair.mp hupdate with rfl | rfl
    · exact sendable_createdBranch
    · exact sendable_movedTag
  have hcarries : List.Forall₂ Carries [createdBranchLine, movedTagLine]
      [createdBranch, movedTag] :=
    .cons carries_createdBranch (.cons carries_movedTag .nil)
  exact parse_written_updates hsendable hcarries movedTagLine.bytes

end Written

/-! ### Bodies that are accepted -/

/-- Whole pkt-lines up to a flush packet, behind which anything may stand, or up to the end. -/
inductive PktStream : Bytes → Prop where
  | ended : PktStream []
  | flushed (pack : Bytes) : PktStream (flushPacket ++ pack)
  | line (line : PktLine) {rest : Bytes} (behind : PktStream rest) : PktStream (line.bytes ++ rest)

/-- What the loop can find where a packet should start, without a sign in front of the length,
without a packet other than a flush that has no payload, and without a fragment. -/
structure CleanHead (rest : Bytes) : Prop where
  whole : rest = [] ∨ 4 ≤ rest.length
  unsigned : rest.head? ≠ some 43
  notDelimiter : rest.take 4 ≠ RustStr.asBytes "0001"
  notResponseEnd : rest.take 4 ≠ RustStr.asBytes "0002"

/-- Digits behind a sign are not read by git, so no length is spelled that way. -/
theorem head?_of_spells {digits : Bytes} {len : Nat} (h : SpellsLength digits len) (rest : Bytes) :
    (digits ++ rest).head? ≠ some 43 := by
  obtain ⟨hlength, hvalue⟩ := h
  cases digits with
  | nil => cases hlength
  | cons b digits =>
    rw [List.cons_append, List.head?_cons]
    rintro hplus
    obtain rfl := Option.some.inj hplus
    obtain ⟨value, hplusValue, -⟩ := Option.bind_eq_some_iff.mp hvalue
    have hnone : Hex.value? (Char.ofNat (43 : UInt8).toNat) = none := by decide
    exact absurd (hnone.symm.trans hplusValue) (Option.some_ne_none value).symm

/-- A length has one value. -/
theorem SpellsLength.unique {len' : Nat} (h : SpellsLength digits len)
    (h' : SpellsLength digits len') : len = len' :=
  Option.some.inj (h.2.symm.trans h'.2)

theorem cleanHead_of_spells (h : SpellsLength digits len) (hlen : len ≠ 1 ∧ len ≠ 2)
    (rest : Bytes) : CleanHead (digits ++ rest) := by
  have htake : (digits ++ rest).take 4 = digits := List.take_left' h.1
  refine ⟨Or.inr ?_, head?_of_spells h rest, ?_, ?_⟩
  · rw [List.length_append, h.1]
    omega
  · rw [htake]
    rintro rfl
    exact hlen.1 (h.unique (by decide))
  · rw [htake]
    rintro rfl
    exact hlen.2 (h.unique (by decide))

theorem PktStream.cleanHead {body : Bytes} (h : PktStream body) : CleanHead body := by
  cases h with
  | ended => exact ⟨Or.inl rfl, by decide, by decide, by decide⟩
  | flushed pack =>
    exact cleanHead_of_spells (show SpellsLength flushPacket 0 by decide) (by decide) pack
  | @line line rest _ =>
    rw [PktLine.bytes, List.append_assoc]
    exact cleanHead_of_spells line.spelled (by omega) _

/-- What stands in front of a body is determined by its first line. -/
theorem PktLine.behind_inj {line line' : PktLine} {rest rest' : Bytes}
    (h : line.bytes ++ rest = line'.bytes ++ rest') : rest = rest' := by
  have hdigits : line.digits = line'.digits := by
    have htake := congrArg (List.take 4) h
    rwa [PktLine.bytes, PktLine.bytes, List.append_assoc, List.append_assoc,
      List.take_left' line.spelled.1, List.take_left' line'.spelled.1] at htake
  have hlen : 4 + line.payload.length = 4 + line'.payload.length :=
    line.spelled.unique (hdigits ▸ line'.spelled)
  have hdrop := congrArg (List.drop (4 + line.payload.length)) h
  rwa [line.drop_eq, hlen, line'.drop_eq] at hdrop

/-- What stands behind a line of a stream is a stream. -/
theorem PktStream.behind {line : PktLine} {rest : Bytes} (h : PktStream (line.bytes ++ rest)) :
    PktStream rest := by
  generalize hbody : line.bytes ++ rest = body at h
  cases h with
  | ended =>
    have hlength := congrArg List.length hbody
    rw [List.length_append, line.length_bytes, List.length_nil] at hlength
    omega
  | flushed pack =>
    -- the first four bytes would spell zero and the length of the line
    have htake := congrArg (List.take 4) hbody
    rw [PktLine.bytes, List.append_assoc, List.take_left' line.spelled.1] at htake
    have hzero : SpellsLength line.digits 0 := by
      rw [htake, List.take_left' (by decide)]
      decide
    have hlen := line.spelled.unique hzero
    omega
  | @line line' rest' hbehind =>
    exact PktLine.behind_inj hbody ▸ hbehind

theorem PktStream.drop_lines {lines : List PktLine} {rest : Bytes}
    (h : PktStream (lines.flatMap PktLine.bytes ++ rest)) : PktStream rest := by
  induction lines with
  | nil => exact h
  | cons line lines ih =>
    rw [List.flatMap_cons, List.append_assoc] at h
    exact ih h.behind

/-- Without a sign, a length that the parser reads is spelled in four digits. -/
theorem spells_of_parseLength (hlength : digits.length = 4) (hplus : digits.head? ≠ some 43)
    (h : parseLength digits = .ok len) :
    SpellsLength digits len := by
  unfold parseLength at h
  split at h
  case h_1 => cases h
  case h_2 text htext =>
    obtain rfl := RustStr.fromUtf8_eq_some.mp htext
    cases hradix : Hex.fromStrRadix 16 text with
    | none => simp [hradix] at h
    | some value =>
      rw [hradix] at h
      obtain rfl : value = len := Except.ok.inj h
      have hsign : text.toList.head? ≠ some '+' := by
        intro hhead
        obtain ⟨rest, hrest⟩ := List.head?_eq_some_iff.mp hhead
        apply hplus
        rw [RustStr.asBytes_eq_flatMap, hrest]
        rfl
      have hvalue := Hex.digitsValue?_of_fromStrRadix hradix hsign
      have hascii : ∀ c ∈ text.toList, c.toNat < 128 := by
        intro c hc
        have hlt := Hex.toNat_lt_of_digitsValue? hvalue c hc
        omega
      refine ⟨hlength, ?_⟩
      rw [RustStr.map_asBytes_of_ascii hascii]
      exact hvalue

/-- Lengths up to two are spelled in one way. -/
theorem eq_of_spells_small (h : SpellsLength digits len) (hlen : len ≤ 2) :
    digits = [48, 48, 48, UInt8.ofNat (48 + len)] := by
  obtain ⟨hlength, hvalue⟩ := h
  obtain ⟨a, b, c, d, rfl⟩ : ∃ a b c d, digits = [a, b, c, d] := by
    match digits, hlength with
    | [a, b, c, d], _ => exact ⟨a, b, c, d, rfl⟩
  simp only [List.map_cons, List.map_nil, Hex.digitsValue?, Option.bind_eq_some_iff,
    Option.some.injEq] at hvalue
  obtain ⟨va, ha, vb, hb, vc, hc, vd, hd, hsum⟩ := hvalue
  have hbyte : ∀ {x : UInt8} {v : Nat}, Hex.value? (Char.ofNat x.toNat) = some v → v ≤ 2 →
      x = UInt8.ofNat (48 + v) := by
    intro x v hx hv
    have hdigit : Char.ofNat x.toNat = Char.ofNat (48 + v) := by
      rw [Hex.eq_digit_of_value? hx (by omega), Hex.digit, if_pos (by omega)]
    have hnat := congrArg Char.toNat hdigit
    rw [RustStr.toNat_ofNat_byte] at hnat
    interval_cases v <;> exact UInt8.toNat_inj.mp hnat
  obtain ⟨rfl, rfl, rfl, rfl⟩ : va = 0 ∧ vb = 0 ∧ vc = 0 ∧ vd = len := by omega
  rw [hbyte ha (by omega), hbyte hb (by omega), hbyte hc (by omega), hbyte hd hlen]
  rfl

/-- The ways in which the parser accepts a body: it comes to the end, it stops at a packet without
payload, or it accepts what stands behind a line. -/
theorem parse_ok_cases {body : Bytes} {updates : List RefUpdate}
    (h : parseRefUpdates body = .ok updates) :
    body.length < 4 ∨ 4 ≤ body.length ∧ ∃ len, parseLength (body.take 4) = .ok len
      ∧ (len ≤ 2 ∨ 4 ≤ len ∧ len ≤ body.length
        ∧ ∃ behind, parseRefUpdates (body.drop len) = .ok behind) := by
  by_cases hlong : 4 ≤ body.length
  · refine Or.inr ⟨hlong, ?_⟩
    cases hlen : parseLength (body.take 4) with
    | error e =>
      rw [parseRefUpdates, if_pos hlong, hlen] at h
      cases h
    | ok len =>
      refine ⟨len, rfl, ?_⟩
      by_cases hspecial : len ≤ 2
      · exact Or.inl hspecial
      · have hfits : 4 ≤ len ∧ len ≤ body.length := by
          rw [parseRefUpdates, if_pos hlong, hlen] at h
          dsimp only at h
          rw [if_neg hspecial] at h
          split at h
          · cases h
          split at h
          · cases h
          omega
        obtain ⟨⟨behind, hbehind, -⟩, -⟩ := mem_of_parseRefUpdates_line hlen hfits.1 hfits.2 h
        exact Or.inr ⟨hfits.1, hfits.2, behind, hbehind⟩
  · exact Or.inl (by omega)

/-- If the loop finds no sign, no delimiter or response-end packet and no fragment, what it accepts
is a stream. -/
theorem pktStream_of_parse {body : Bytes} {updates : List RefUpdate}
    (h : parseRefUpdates body = .ok updates)
    (hclean : ∀ lines rest, body = List.flatMap PktLine.bytes lines ++ rest → CleanHead rest) :
    PktStream body := by
  -- on the length of what is left: each line takes at least its own four digits
  induction hsize : body.length using Nat.strongRecOn generalizing body updates with
  | ind size ih =>
    have hhead : CleanHead body := hclean [] body rfl
    rcases parse_ok_cases h with hshort | ⟨hlong, len, hlen, hcases⟩
    · obtain rfl := hhead.whole.resolve_right (by omega)
      exact .ended
    have htake : (body.take 4).length = 4 := List.length_take_of_le hlong
    have hspells : SpellsLength (body.take 4) len := by
      refine spells_of_parseLength htake ?_ hlen
      rw [List.head?_take, if_neg (by decide)]
      exact hhead.unsigned
    rcases hcases with hspecial | ⟨hfour, hfits, behind, hbehind⟩
    · have hdigits := eq_of_spells_small hspells hspecial
      interval_cases len
      · rw [← List.take_append_drop 4 body, hdigits]
        exact .flushed _
      · exact absurd hdigits hhead.notDelimiter
      · exact absurd hdigits hhead.notResponseEnd
    · have hpayload : ((body.take len).drop 4).length = len - 4 := by
        rw [List.length_drop, List.length_take_of_le hfits]
      let line : PktLine :=
        ⟨body.take 4, (body.take len).drop 4, by rwa [hpayload, Nat.add_sub_cancel' hfour]⟩
      have hbytes : line.bytes = body.take len := by
        have hfront : body.take 4 = (body.take len).take 4 := by
          rw [List.take_take, Nat.min_eq_left hfour]
        show body.take 4 ++ (body.take len).drop 4 = body.take len
        rw [hfront, List.take_append_drop]
      have hbody : body = line.bytes ++ body.drop len := by
        rw [hbytes, List.take_append_drop]
      have hrest : PktStream (body.drop len) := by
        refine ih (body.drop len).length ?_ hbehind ?_ rfl
        · rw [List.length_drop]
          omega
        · intro lines rest hlines
          apply hclean (line :: lines) rest
          rw [List.flatMap_cons, List.append_assoc, ← hlines]
          exact hbody
      rw [hbody]
      exact .line line hrest

/-- **What is accepted.**  An accepted body is a stream of pkt-lines exactly if behind none of its
lines the loop finds a signed length, a delimiter or response-end packet, or a fragment. -/
theorem accepted_is_stream_iff {body : Bytes} {updates : List RefUpdate}
    (h : parseRefUpdates body = .ok updates) :
    PktStream body
      ↔ ∀ lines rest, body = List.flatMap PktLine.bytes lines ++ rest → CleanHead rest := by
  constructor
  · rintro hstream lines rest rfl
    exact hstream.drop_lines.cleanHead
  · exact pktStream_of_parse h

/-- Two updates, a flush packet and the start of a pack. -/
def branchAndTagBody : Bytes :=
  createdBranchLine.bytes ++ (movedTagLine.bytes ++ (flushPacket ++ RustStr.asBytes "PACK"))

/-- They are accepted, and the loop finds nothing behind any of their lines that it should not. -/
theorem branch_and_tag_is_stream :
    parseRefUpdates branchAndTagBody = .ok [createdBranch, movedTag]
      ∧ PktStream branchAndTagBody
      ∧ ∀ lines rest, branchAndTagBody = List.flatMap PktLine.bytes lines ++ rest →
        CleanHead rest := by
  have hparse : parseRefUpdates branchAndTagBody = .ok [createdBranch, movedTag] := by
    rw [branchAndTagBody, parse_carried sendable_createdBranch carries_createdBranch,
      parse_carried sendable_movedTag carries_movedTag, parse_flush]
    rfl
  have hstream : PktStream branchAndTagBody :=
    .line createdBranchLine (.line movedTagLine (.flushed _))
  exact ⟨hparse, hstream, (accepted_is_stream_iff hparse).mp hstream⟩

/-- A length with a plus sign, a delimiter packet and a fragment are all accepted. -/
theorem accepted_without_stream :
    (parseRefUpdates (RustStr.asBytes "+004") = .ok [] ∧ ¬ PktStream (RustStr.asBytes "+004"))
      ∧ (parseRefUpdates (RustStr.asBytes "0001") = .ok []
        ∧ ¬ PktStream (RustStr.asBytes "0001"))
      ∧ (parseRefUpdates (RustStr.asBytes "0") = .ok [] ∧ ¬ PktStream (RustStr.asBytes "0")) := by
  refine ⟨⟨?_, fun h => ?_⟩, ⟨?_, fun h => ?_⟩, ⟨?_, fun h => ?_⟩⟩
  · have hlen : parseLength ((RustStr.asBytes "+004").take 4) = .ok 4 := by decide
    rw [parseRefUpdates_line hlen (by decide) (by decide), if_neg (by decide)]
    rw [parseRefUpdates, if_neg (by decide)]
  · exact h.cleanHead.unsigned (by decide)
  · have hlen : parseLength ((RustStr.asBytes "0001").take 4) = .ok 1 := by decide
    rw [parseRefUpdates, if_pos (by decide), hlen]
    rfl
  · exact h.cleanHead.notDelimiter (by decide)
  · rw [parseRefUpdates, if_neg (by decide)]
  · exact absurd h.cleanHead.whole (by decide)

end BlossomRs.GitServer
