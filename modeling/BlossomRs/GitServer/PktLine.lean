import BlossomRs.Access
import BlossomRs.Lib.Utf8

/-!
# Ref updates of a push

The body of a push is a sequence of pkt-lines: four hexadecimal digits with the length of the line,
then its payload.  It is read twice: by the server, which validates what it reads, and by git, which
executes what it reads.  Both readings are modelled here, the server's as its source has it, and they
are compared line by line: a line that git executes is read alike by the server when its payload is
UTF-8 and has no newline before the first NUL other than a final one.
-/

namespace BlossomRs.GitServer

open Protocol Access

/-! ### The server's reading -/

/-- `NULL_OID`. -/
def nullOid : String :=
  "0000000000000000000000000000000000000000"

structure RefUpdate where
  oldOid : String
  newOid : String
  refname : String
  capabilities : Option String
deriving DecidableEq, Repr

def RefUpdate.isCreate (update : RefUpdate) : Bool :=
  update.oldOid == nullOid

def RefUpdate.isDelete (update : RefUpdate) : Bool :=
  update.newOid == nullOid

/-- `is_valid_sha1`. -/
def isValidSha1 (s : String) : Bool :=
  (RustStr.asBytes s).length == 40 && s.toList.all isAsciiHexdigit

/-- `payload.strip_suffix(b"\n").unwrap_or(payload)`. -/
def stripNewline (payload : Bytes) : Bytes :=
  if payload.getLast? = some 10 then payload.dropLast else payload

/-- The name and the capabilities behind the two object ids. -/
def splitCapabilities (refWithCaps : String) : String × Option String :=
  match RustStr.splitOnce '\x00' refWithCaps with
  | some (name, caps) => (name, some (RustStr.trim caps))
  | none => (refWithCaps, none)

/-- `parse_ref_update`. -/
def parseRefUpdate (payload : Bytes) : Except String RefUpdate :=
  match RustStr.fromUtf8 (stripNewline payload) with
  | none => .error "invalid UTF-8 in pkt-line"
  | some s =>
    match RustStr.splitn ' ' 3 s with
    | [] => .error "missing old oid"
    | [_] => .error "missing new oid"
    | [_, _] => .error "missing refname"
    | oldOid :: newOid :: refWithCaps :: _ =>
      let (refname, capabilities) := splitCapabilities refWithCaps
      if !isValidSha1 oldOid then .error "invalid old oid"
      else if !isValidSha1 newOid then .error "invalid new oid"
      else if !RustStr.startsWith refname "refs/" then .error "refname must start with refs/"
      else .ok ⟨oldOid, newOid, refname, capabilities⟩

/-- The length at the front of a pkt-line. -/
def parseLength (digits : Bytes) : Except String Nat :=
  match RustStr.fromUtf8 digits with
  | none => .error "invalid pkt-line length"
  | some lenStr => (Hex.fromStrRadix 16 lenStr).elim (.error "invalid hex in pkt-line length") .ok

/-- Whether a payload starts with two object ids.  One that is not UTF-8 does not count. -/
def looksLikeUpdate (payload : Bytes) : Bool :=
  match RustStr.fromUtf8 payload with
  | none => false
  | some s =>
    let parts := RustStr.split ' ' s
    isValidSha1 (parts[0]?.getD "") && isValidSha1 (parts[1]?.getD "")

/-- `parse_ref_updates`, on what is left of the body. -/
def parseRefUpdates (body : Bytes) : Except String (List RefUpdate) :=
  if 4 ≤ body.length then
    match parseLength (body.take 4) with
    | .error e => .error e
    | .ok len =>
      -- flush, delimiter and response-end packets all end the reading
      if len ≤ 2 then .ok []
      else if len < 4 then .error "pkt-line length too short"
      else if body.length < len then .error "pkt-line extends beyond body"
      else
        let payload := (body.take len).drop 4
        if looksLikeUpdate payload then
          match parseRefUpdate payload with
          | .error e => .error e
          | .ok update => (parseRefUpdates (body.drop len)).map (update :: ·)
        else parseRefUpdates (body.drop len)
  else .ok []
termination_by body.length
decreasing_by
  all_goals
    rw [List.length_drop]
    omega

/-! ### Git's reading -/

/-- A packet before the first flush: a pkt-line, or a packet without payload. -/
inductive Packet where
  | line (payload : Bytes)
  | special
deriving DecidableEq, Repr

/-- The packets before the first flush.  Delimiter and response-end packets do not end them. -/
def gitPackets (body : Bytes) : List Packet :=
  if 4 ≤ body.length then
    match Hex.digitsValue? 0 ((body.take 4).map fun b => Char.ofNat b.toNat) with
    | none => []
    | some len =>
      if len = 0 then []
      else if len ≤ 2 then .special :: gitPackets (body.drop 4)
      else if len < 4 ∨ body.length < len then []
      else .line ((body.take len).drop 4) :: gitPackets (body.drop len)
  else []
termination_by body.length
decreasing_by
  all_goals
    rw [List.length_drop]
    omega

/-- The bytes every ref name starts with. -/
def refsBytes : Bytes :=
  RustStr.asBytes "refs/"

/-- A command that git executes. -/
structure Command where
  oldOid : Bytes
  newOid : Bytes
  name : Bytes
  named : refsBytes <+: name
deriving DecidableEq

/-- Forty hexadecimal digits. -/
def isHexId (bytes : Bytes) : Bool :=
  bytes.length == 40 && bytes.all fun b => isAsciiHexdigit (Char.ofNat b.toNat)

/-- A name ends at NUL, at a newline or with the payload. -/
def nameByte (b : UInt8) : Bool :=
  b ≠ 0 && b ≠ 10

/-- The command on a line: two object ids, each with a space behind it, and a ref name. -/
def gitCommand? (payload : Bytes) : Option Command :=
  let name := (payload.drop 82).takeWhile nameByte
  if h : isHexId (payload.take 40) ∧ payload[40]? = some 32 ∧ isHexId ((payload.drop 41).take 40)
      ∧ payload[81]? = some 32 ∧ refsBytes <+: name then
    some ⟨payload.take 40, (payload.drop 41).take 40, name, h.2.2.2.2⟩
  else none

/-! ### Lines -/

variable {len : Nat} {body payload bytes : Bytes} {updates : List RefUpdate} {command : Command}

/-- Four digits that git accepts are a length for the server too. -/
theorem parseLength_of_digits {digits : Bytes} (hlength : digits.length = 4)
    (h : Hex.digitsValue? 0 (digits.map fun b => Char.ofNat b.toNat) = some len) :
    parseLength digits = .ok len := by
  have hascii : ∀ b ∈ digits, b.toNat < 128 := by
    intro b hb
    have hlt := Hex.toNat_lt_of_digitsValue? h _ (List.mem_map.mpr ⟨b, hb, rfl⟩)
    rw [RustStr.toNat_ofNat_byte] at hlt
    omega
  have hlen : len < 2 ^ 16 := by
    have hlt := Hex.digitsValue?_lt h
    rw [List.length_map, hlength] at hlt
    omega
  have hdigits : digits ≠ [] := fun hnil => by simp [hnil] at hlength
  have hradix : Hex.fromStrRadix 16 (RustStr.asciiText digits) = some len :=
    Hex.fromStrRadix_of_digits (by simpa using hdigits) (by simpa using h) hlen
  have hutf8 := RustStr.fromUtf8_eq_some.mpr (RustStr.asBytes_asciiText hascii)
  simp [parseLength, hutf8, hradix]

section

variable (hlen : parseLength (body.take 4) = .ok len) (hshort : 4 ≤ len) (hbody : len ≤ body.length)
include hlen hshort hbody

/-- One round of the server's loop at a pkt-line. -/
theorem parseRefUpdates_line :
    parseRefUpdates body =
      if looksLikeUpdate ((body.take len).drop 4) then
        match parseRefUpdate ((body.take len).drop 4) with
        | .error e => .error e
        | .ok update => (parseRefUpdates (body.drop len)).map (update :: ·)
      else parseRefUpdates (body.drop len) := by
  rw [parseRefUpdates, if_pos (by omega), hlen]
  dsimp only
  rw [if_neg (by omega), if_neg (by omega), if_neg (by omega)]

/-- The updates behind a pkt-line are among those of the body. -/
theorem mem_of_parseRefUpdates_line (h : parseRefUpdates body = .ok updates) :
    (∃ rest, parseRefUpdates (body.drop len) = .ok rest ∧ ∀ update ∈ rest, update ∈ updates)
      ∧ (looksLikeUpdate ((body.take len).drop 4) = true →
        ∃ update ∈ updates, parseRefUpdate ((body.take len).drop 4) = .ok update) := by
  rw [parseRefUpdates_line hlen hshort hbody] at h
  split at h
  · cases hupdate : parseRefUpdate ((body.take len).drop 4) with
    | error e => simp [hupdate] at h
    | ok update =>
      rw [hupdate] at h
      cases hrest : parseRefUpdates (body.drop len) with
      | error e => simp [hrest, Except.map] at h
      | ok rest =>
        simp only [hrest, Except.map, Except.ok.injEq] at h
        subst h
        refine ⟨⟨rest, rfl, fun u hu => by simp [hu]⟩, fun _ => ⟨update, by simp, rfl⟩⟩
  · rename_i hlooks
    exact ⟨⟨updates, h, fun u hu => hu⟩, fun hlooks' => absurd hlooks' hlooks⟩

end

/-- The server parses every line that stands before the first packet without payload, if it looks
like an update to it. -/
theorem exists_update_of_line {before after : List Packet} (h : parseRefUpdates body = .ok updates)
    (hpackets : gitPackets body = before ++ .line payload :: after) (hbefore : .special ∉ before)
    (hlooks : looksLikeUpdate payload = true) :
    ∃ update ∈ updates, parseRefUpdate payload = .ok update := by
  -- along git's reading, the server's loop keeps step until a packet without payload
  fun_induction gitPackets body generalizing before updates with
  | case1 | case2 | case4 | case6 => simp at hpackets
  | case3 body hbody len hdigits hzero hspecial ih =>
    cases before with
    | nil => simp at hpackets
    | cons packet before =>
      obtain ⟨rfl, -⟩ := List.cons.inj hpackets
      simp at hbefore
  | case5 body hbody len hdigits hzero hspecial hline ih =>
    rw [not_or] at hline
    have hlen := parseLength_of_digits (by simp; omega) hdigits
    obtain ⟨⟨rest, hrest, hmem⟩, hhead⟩ :=
      mem_of_parseRefUpdates_line hlen (by omega) (by omega) h
    cases before with
    | nil =>
      obtain ⟨hpayload, -⟩ := List.cons.inj hpackets
      rw [← Packet.line.inj hpayload] at hlooks ⊢
      exact hhead hlooks
    | cons packet before =>
      obtain ⟨-, hpackets⟩ := List.cons.inj hpackets
      have hbefore' : .special ∉ before := fun hspecial => hbefore (by simp [hspecial])
      obtain ⟨update, hupdate, hparse⟩ := ih hrest hpackets hbefore'
      exact ⟨update, hmem update hupdate, hparse⟩

/-! ### Payloads -/

/-- What the server reads as git does: UTF-8, and no newline before the first NUL except one at the
very end. -/
def ReadAlike (payload : Bytes) : Prop :=
  (RustStr.fromUtf8 payload).isSome = true ∧ 10 ∉ (stripNewline payload).takeWhile (· ≠ 0)

instance (payload : Bytes) : Decidable (ReadAlike payload) :=
  inferInstanceAs (Decidable (_ ∧ _))

theorem drop_eq_append {i : Nat} {b : UInt8} (h : payload[i]? = some b) :
    payload.drop i = [b] ++ payload.drop (i + 1) := by
  obtain ⟨hi, hb⟩ := List.getElem?_eq_some_iff.mp h
  rw [List.drop_eq_getElem_cons hi, hb, List.singleton_append]

/-- The two object ids of a command and the start of its name, as they stand in the payload. -/
def Command.front (command : Command) : Bytes :=
  command.oldOid ++ ([32] ++ (command.newOid ++ ([32] ++ refsBytes)))

/-- The shape of a line with a command. -/
theorem gitCommand?_eq_some (h : gitCommand? payload = some command) :
    isHexId command.oldOid = true ∧ isHexId command.newOid = true
      ∧ ∃ tail, payload = command.front ++ tail
        ∧ command.name = refsBytes ++ tail.takeWhile nameByte := by
  unfold gitCommand? at h
  dsimp only at h
  split at h
  case isFalse => cases h
  case isTrue hshape =>
    obtain ⟨hold, hspace, hnew, hspace', hname⟩ := hshape
    obtain rfl := Option.some.inj h
    obtain ⟨tail, htail⟩ := hname.trans (List.takeWhile_prefix nameByte)
    have hids : payload.drop 41 = (payload.drop 41).take 40 ++ payload.drop 81 := by
      have hdrop := List.take_append_drop 40 (payload.drop 41)
      rw [List.drop_drop] at hdrop
      exact hdrop.symm
    have hsplit : payload = payload.take 40
        ++ ([32] ++ ((payload.drop 41).take 40 ++ ([32] ++ (refsBytes ++ tail)))) :=
      calc payload
        _ = payload.take 40 ++ payload.drop 40 := (List.take_append_drop 40 payload).symm
        _ = payload.take 40 ++ ([32] ++ payload.drop 41) := by
          rw [drop_eq_append hspace]
        _ = payload.take 40 ++ ([32] ++ ((payload.drop 41).take 40 ++ payload.drop 81)) := by
          rw [← hids]
        _ = payload.take 40 ++ ([32] ++ ((payload.drop 41).take 40 ++ ([32] ++ payload.drop 82))) := by
          rw [drop_eq_append hspace']
        _ = _ := by rw [htail]
    refine ⟨hold, hnew, tail, ?_, ?_⟩
    · simpa only [Command.front, List.append_assoc] using hsplit
    · have hrefs : refsBytes.all nameByte = true := by decide
      show (payload.drop 82).takeWhile nameByte = _
      rw [← htail, List.takeWhile_append_of_pos (List.all_eq_true.mp hrefs)]

section

variable (h : isHexId bytes = true)
include h

theorem isAsciiHexdigit_of_mem {b : UInt8} (hb : b ∈ bytes) :
    isAsciiHexdigit (Char.ofNat b.toNat) = true :=
  List.all_eq_true.mp (Bool.and_eq_true_iff.mp h).2 b hb

/-- Object ids are ASCII text without NUL. -/
theorem ascii_of_isHexId :
    ∀ b ∈ bytes, b ≠ 0 ∧ b.toNat < 128 := by
  intro b hb
  have hdigit := isAsciiHexdigit_of_mem h hb
  constructor
  · rintro rfl
    exact absurd hdigit (by decide)
  · obtain ⟨value, hvalue⟩ := Option.isSome_iff_exists.mp hdigit
    have hlt := Hex.toNat_lt_of_value? hvalue
    rw [RustStr.toNat_ofNat_byte] at hlt
    omega

theorem asBytes_hexId :
    RustStr.asBytes (RustStr.asciiText bytes) = bytes :=
  RustStr.asBytes_asciiText fun b hb => (ascii_of_isHexId h b hb).2

/-- An object id of git is one for the server. -/
theorem isValidSha1_asciiText :
    isValidSha1 (RustStr.asciiText bytes) = true := by
  rw [isValidSha1, asBytes_hexId h, RustStr.toList_asciiText, List.all_map]
  exact h

theorem space_notMem_asciiText :
    ' ' ∉ (RustStr.asciiText bytes).toList := by
  intro hspace
  rw [RustStr.toList_asciiText, List.mem_map] at hspace
  obtain ⟨b, hb, hb'⟩ := hspace
  have hdigit := isAsciiHexdigit_of_mem h hb
  rw [hb'] at hdigit
  exact absurd hdigit (by decide)

end

theorem Command.front_ascii (hold : isHexId command.oldOid = true)
    (hnew : isHexId command.newOid = true) : ∀ b ∈ command.front, b ≠ 0 ∧ b.toNat < 128 := by
  have hrefs : refsBytes.all (fun b => b ≠ 0 ∧ b.toNat < 128) = true := by decide
  intro b hb
  simp only [Command.front, List.mem_append, List.mem_singleton] at hb
  rcases hb with hb | rfl | hb | rfl | hb
  · exact ascii_of_isHexId hold b hb
  · decide
  · exact ascii_of_isHexId hnew b hb
  · decide
  · exact of_decide_eq_true (List.all_eq_true.mp hrefs b hb)

/-- The text of a line with a command. -/
theorem Command.text_front (command : Command) (rest : String) :
    RustStr.asciiText command.front ++ rest
      = RustStr.asciiText command.oldOid ++ " "
        ++ (RustStr.asciiText command.newOid ++ " " ++ ("refs/" ++ rest)) := by
  have hspace : RustStr.asciiText [32] = " " := by decide
  have hrefs : RustStr.asciiText refsBytes = "refs/" := by decide
  simp only [Command.front, RustStr.asciiText_append, hspace, hrefs, String.append_assoc]

theorem splitn_front (hold : isHexId command.oldOid = true) (hnew : isHexId command.newOid = true)
    (count : Nat) (rest : String) :
    RustStr.splitn ' ' (count + 3) (RustStr.asciiText command.front ++ rest)
      = RustStr.asciiText command.oldOid :: RustStr.asciiText command.newOid
        :: RustStr.splitn ' ' (count + 1) ("refs/" ++ rest) := by
  have hspace : (" " : String).toList = [' '] := by decide
  rw [Command.text_front, RustStr.splitn_append hspace (space_notMem_asciiText hold),
    RustStr.splitn_append hspace (space_notMem_asciiText hnew)]

/-- A command that is UTF-8 looks like an update to the server. -/
theorem looksLikeUpdate_of_command (h : gitCommand? payload = some command)
    (hutf8 : (RustStr.fromUtf8 payload).isSome = true) :
    looksLikeUpdate payload = true := by
  obtain ⟨hold, hnew, tail, rfl, -⟩ := gitCommand?_eq_some h
  obtain ⟨s, hs⟩ := Option.isSome_iff_exists.mp hutf8
  obtain ⟨rest, rfl, -⟩ := RustStr.exists_of_asBytes_eq_append
    (fun b hb => (Command.front_ascii hold hnew b hb).2) (RustStr.fromUtf8_eq_some.mp hs)
  obtain ⟨count, hcount⟩ : ∃ count, (RustStr.asciiText command.front ++ rest).toList.length + 1
      = count + 3 := by
    refine ⟨(RustStr.asciiText command.front ++ rest).toList.length - 2, ?_⟩
    have hlen : 2 ≤ (RustStr.asciiText command.front ++ rest).toList.length := by
      simp [Command.front]
      omega
    omega
  simp only [looksLikeUpdate, hs, RustStr.split, hcount, splitn_front hold hnew]
  simp [isValidSha1_asciiText hold, isValidSha1_asciiText hnew]

theorem splitCapabilities_fst (s : String) :
    (splitCapabilities s).1 = RustStr.splitFirst '\x00' s := by
  have hparts := List.takeWhile_append_dropWhile (p := (· ≠ '\x00')) (l := s.toList)
  unfold splitCapabilities RustStr.splitOnce RustStr.splitFirst
  cases hdrop : s.toList.dropWhile (· ≠ '\x00') with
  | nil =>
    rw [hdrop, List.append_nil] at hparts
    simp only [hparts, String.ofList_toList]
  | cons c rest => rfl

theorem stripNewline_append {xs : Bytes} (hxs : xs.getLast? ≠ some 10) (ys : Bytes) :
    stripNewline (xs ++ ys) = xs ++ stripNewline ys := by
  cases ys with
  | nil => simp [stripNewline, hxs]
  | cons y ys =>
    have hlast : (xs ++ y :: ys).getLast? = (y :: ys).getLast? := by
      rw [List.getLast?_append_of_ne_nil xs (List.cons_ne_nil y ys)]
    unfold stripNewline
    rw [hlast]
    split
    · rw [List.dropLast_append_of_ne_nil (List.cons_ne_nil y ys)]
    · rfl

theorem Command.getLast?_front (command : Command) : command.front.getLast? ≠ some 10 := by
  have hrefs : refsBytes ≠ [] := by decide
  have hlast : refsBytes.getLast? ≠ some 10 := by decide
  unfold Command.front
  rwa [← List.append_assoc, ← List.append_assoc, ← List.append_assoc,
    List.getLast?_append_of_ne_nil _ hrefs]

/-- A text without its final newline is a text. -/
theorem exists_text_stripNewline {s : String} (h : RustStr.asBytes s = bytes) :
    ∃ front, RustStr.asBytes front = stripNewline bytes := by
  unfold stripNewline
  split
  · rename_i hlast
    rw [← List.dropLast_append_getLast? 10 hlast] at h
    obtain ⟨front, -, hfront⟩ := RustStr.exists_of_asBytes_eq_concat (by decide) h
    exact ⟨front, hfront⟩
  · exact ⟨s, h⟩

/-- Up to the first NUL there is no newline, so a name ends there or with a final newline. -/
theorem takeWhile_nameByte {xs ys : Bytes} (hxs : 10 ∉ xs.takeWhile (· ≠ 0))
    (hys : ys.takeWhile nameByte = []) :
    (xs ++ ys).takeWhile nameByte = xs.takeWhile (· ≠ 0) := by
  induction xs with
  | nil => exact hys
  | cons x xs ih =>
    by_cases hzero : x = 0
    · subst hzero
      rfl
    · rw [List.takeWhile_cons_of_pos (by simpa using hzero)] at hxs ⊢
      obtain ⟨hten, hxs⟩ := not_or.mp (mt List.mem_cons.mpr hxs)
      have hname : nameByte x = true := by simp [nameByte, hzero, Ne.symm hten]
      rw [List.cons_append, List.takeWhile_cons_of_pos hname, ih hxs]

theorem takeWhile_stripNewline (h : 10 ∉ (stripNewline bytes).takeWhile (· ≠ 0)) :
    (stripNewline bytes).takeWhile (· ≠ 0) = bytes.takeWhile nameByte := by
  unfold stripNewline at h ⊢
  split at h
  · rename_i hlast
    rw [if_pos hlast]
    conv_rhs => rw [← List.dropLast_append_getLast? 10 hlast]
    exact (takeWhile_nameByte h rfl).symm
  · rename_i hlast
    rw [if_neg hlast]
    have hname := @takeWhile_nameByte bytes [] h rfl
    rw [List.append_nil] at hname
    exact hname.symm

/-- **The server's reading of a command.**  It finds the object ids of a command that is UTF-8, and
its name when no newline stands in the way. -/
theorem parseRefUpdate_of_command (h : gitCommand? payload = some command)
    (hutf8 : (RustStr.fromUtf8 payload).isSome = true) :
    ∃ update, parseRefUpdate payload = .ok update
      ∧ RustStr.asBytes update.newOid = command.newOid
      ∧ (10 ∉ (stripNewline payload).takeWhile (· ≠ 0) →
        RustStr.asBytes update.refname = command.name) := by
  obtain ⟨hold, hnew, tail, rfl, hname⟩ := gitCommand?_eq_some h
  have hascii : ∀ b ∈ command.front, b.toNat < 128 := fun b hb =>
    (Command.front_ascii hold hnew b hb).2
  obtain ⟨s, hs⟩ := Option.isSome_iff_exists.mp hutf8
  obtain ⟨rest, rfl, hrest⟩ := RustStr.exists_of_asBytes_eq_append hascii
    (RustStr.fromUtf8_eq_some.mp hs)
  obtain ⟨text, htext⟩ := exists_text_stripNewline hrest
  have hstrip := stripNewline_append command.getLast?_front tail
  have hline : RustStr.fromUtf8 (stripNewline (command.front ++ tail))
      = some (RustStr.asciiText command.front ++ text) := by
    rw [RustStr.fromUtf8_eq_some, RustStr.asBytes_append, RustStr.asBytes_asciiText hascii, htext,
      hstrip]
  have hsplit : RustStr.splitn ' ' 3 (RustStr.asciiText command.front ++ text)
      = [RustStr.asciiText command.oldOid, RustStr.asciiText command.newOid, "refs/" ++ text] :=
    splitn_front hold hnew 0 text
  have hrefname : (splitCapabilities ("refs/" ++ text)).1
      = "refs/" ++ RustStr.splitFirst '\x00' text := by
    rw [splitCapabilities_fst]
    apply String.toList_inj.mp
    simp [RustStr.splitFirst]
  refine ⟨⟨RustStr.asciiText command.oldOid, RustStr.asciiText command.newOid,
    (splitCapabilities ("refs/" ++ text)).1, (splitCapabilities ("refs/" ++ text)).2⟩, ?_, ?_, ?_⟩
  · have hstarts : RustStr.startsWith (splitCapabilities ("refs/" ++ text)).1 "refs/" = true := by
      rw [hrefname]
      exact RustStr.startsWith_append _ _
    simp [parseRefUpdate, hline, hsplit, isValidSha1_asciiText hold, isValidSha1_asciiText hnew,
      hstarts]
  · exact asBytes_hexId hnew
  · intro hnewline
    have hfront : ∀ b ∈ command.front, decide (b ≠ 0) = true := fun b hb =>
      decide_eq_true (Command.front_ascii hold hnew b hb).1
    rw [hstrip, List.takeWhile_append_of_pos hfront, List.mem_append, not_or] at hnewline
    have hcut : (RustStr.asBytes text).takeWhile (· ≠ 0)
        = RustStr.asBytes (RustStr.splitFirst '\x00' text) :=
      RustStr.takeWhile_asBytes (b := 0) (by decide) text
    rw [hrefname, hname, RustStr.asBytes_append, ← hcut, htext, takeWhile_stripNewline hnewline.2]
    rfl

/-- A command that the server reads as git does is among its updates, when it stands before the first
packet without payload. -/
theorem exists_update_of_command {before after : List Packet}
    (h : parseRefUpdates body = .ok updates)
    (hpackets : gitPackets body = before ++ .line payload :: after) (hbefore : .special ∉ before)
    (hcommand : gitCommand? payload = some command) (hread : ReadAlike payload) :
    ∃ update ∈ updates, RustStr.asBytes update.newOid = command.newOid
      ∧ RustStr.asBytes update.refname = command.name := by
  obtain ⟨hutf8, hnewline⟩ := hread
  obtain ⟨update, hupdate, hparse⟩ :=
    exists_update_of_line h hpackets hbefore (looksLikeUpdate_of_command hcommand hutf8)
  obtain ⟨update', hparse', hnew, hname⟩ := parseRefUpdate_of_command hcommand hutf8
  obtain rfl : update = update' := Except.ok.inj (hparse.symm.trans hparse')
  exact ⟨update, hupdate, hnew, hname hnewline⟩

end BlossomRs.GitServer
