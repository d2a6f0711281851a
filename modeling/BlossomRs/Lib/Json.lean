import BlossomRs.Lib.Hex

/-!
# Compact JSON text

JSON values and their compact printed form, as a standard serializer writes it: no blanks, strings
escaped only where the grammar requires it, integers in decimal.

The printed form is a prefix code up to a following digit (`render_cancel`): what follows a value
can only be confused with it when the value is a number and a digit comes next.  Printing is
therefore injective (`print_injective`).
-/

inductive Json where
  | null
  | bool (b : Bool)
  | num (n : Int)
  | str (s : String)
  | arr (items : List Json)
  | obj (fields : List (String × Json))

namespace Json

/-- One character inside a string literal. -/
def escapeChar (c : Char) : List Char :=
  if c = '"' then ['\\', '"']
  else if c = '\\' then ['\\', '\\']
  else if c = '\x08' then ['\\', 'b']
  else if c = '\x0c' then ['\\', 'f']
  else if c = '\n' then ['\\', 'n']
  else if c = '\r' then ['\\', 'r']
  else if c = '\t' then ['\\', 't']
  else if c.toNat < 32 then
    ['\\', 'u', '0', '0', Hex.digit (c.toNat / 16), Hex.digit (c.toNat % 16)]
  else [c]

/-- A string literal without its opening quote. -/
def renderStringTail : List Char → List Char
  | [] => ['"']
  | c :: rest => escapeChar c ++ renderStringTail rest

def renderString (s : String) : List Char :=
  '"' :: renderStringTail s.toList

def renderInt (n : Int) : List Char :=
  if n < 0 then '-' :: Nat.toDigits 10 n.natAbs else Nat.toDigits 10 n.natAbs

mutual

def render : Json → List Char
  | .null => ['n', 'u', 'l', 'l']
  | .bool true => ['t', 'r', 'u', 'e']
  | .bool false => ['f', 'a', 'l', 's', 'e']
  | .num n => renderInt n
  | .str s => renderString s
  | .arr [] => ['[', ']']
  | .arr (item :: rest) => '[' :: (render item ++ renderItems rest)
  | .obj [] => ['{', '}']
  | .obj ((key, value) :: rest) =>
    '{' :: (renderString key ++ ':' :: (render value ++ renderFields rest))

/-- The items after the first, with the closing bracket. -/
def renderItems : List Json → List Char
  | [] => [']']
  | item :: rest => ',' :: (render item ++ renderItems rest)

/-- The fields after the first, with the closing brace. -/
def renderFields : List (String × Json) → List Char
  | [] => ['}']
  | (key, value) :: rest =>
    ',' :: (renderString key ++ ':' :: (render value ++ renderFields rest))

end

/-- The compact text of a value. -/
def print (value : Json) : String :=
  String.ofList value.render

example : print (.arr [.num 0, .str "a\"\n", .arr []]) = "[0,\"a\\\"\\n\",[]]" := by decide

/-! ### Strings are self-delimiting -/

/-- Read one character of a string literal back. -/
def unescape : List Char → Option (Char × List Char)
  | '\\' :: 'u' :: _ :: _ :: high :: low :: rest =>
    match Hex.value? high, Hex.value? low with
    | some h, some l => some (Char.ofNat (16 * h + l), rest)
    | _, _ => none
  | '\\' :: 'b' :: rest => some ('\x08', rest)
  | '\\' :: 'f' :: rest => some ('\x0c', rest)
  | '\\' :: 'n' :: rest => some ('\n', rest)
  | '\\' :: 'r' :: rest => some ('\r', rest)
  | '\\' :: 't' :: rest => some ('\t', rest)
  | '\\' :: c :: rest => some (c, rest)
  | c :: rest => some (c, rest)
  | [] => none

theorem unescape_escapeChar (c : Char) (rest : List Char) :
    unescape (escapeChar c ++ rest) = some (c, rest) := by
  by_cases hcontrol : c.toNat < 32
  · -- The control characters are thirty-two values; each escape is read back by computation.
    have hall : ∀ n < 32, unescape (escapeChar (Char.ofNat n) ++ rest) = some (Char.ofNat n, rest) := by
      intro n hn
      interval_cases n <;> rfl
    have := hall c.toNat hcontrol
    rwa [Char.ofNat_toNat] at this
  · unfold escapeChar
    by_cases hquote : c = '"'
    · subst hquote; rfl
    by_cases hslash : c = '\\'
    · subst hslash; rfl
    have hplain : c ≠ '\x08' ∧ c ≠ '\x0c' ∧ c ≠ '\n' ∧ c ≠ '\r' ∧ c ≠ '\t' := by
      refine ⟨?_, ?_, ?_, ?_, ?_⟩ <;> (rintro rfl; exact hcontrol (by decide))
    obtain ⟨h1, h2, h3, h4, h5⟩ := hplain
    rw [if_neg hquote, if_neg hslash, if_neg h1, if_neg h2, if_neg h3, if_neg h4, if_neg h5,
      if_neg hcontrol]
    unfold unescape
    split <;> simp_all

theorem escapeChar_ne_quote (c : Char) (rest rest' : List Char) :
    escapeChar c ++ rest ≠ '"' :: rest' := by
  intro h
  have hread := congrArg unescape h
  rw [unescape_escapeChar] at hread
  have hc : c = '"' := by
    simpa [unescape] using congrArg (Option.map Prod.fst) hread
  subst hc
  simp [escapeChar] at h

variable {r r' : List Char}

theorem renderStringTail_cancel {xs ys : List Char}
    (h : renderStringTail xs ++ r = renderStringTail ys ++ r') : xs = ys ∧ r = r' := by
  induction xs generalizing ys with
  | nil =>
    cases ys with
    | nil => simpa [renderStringTail] using h
    | cons d ys =>
      rw [renderStringTail, renderStringTail, List.append_assoc] at h
      exact absurd h.symm (escapeChar_ne_quote _ _ _)
  | cons c xs ih =>
    cases ys with
    | nil =>
      rw [renderStringTail, renderStringTail, List.append_assoc] at h
      exact absurd h (escapeChar_ne_quote _ _ _)
    | cons d ys =>
      rw [renderStringTail, renderStringTail, List.append_assoc, List.append_assoc] at h
      have hread := congrArg unescape h
      rw [unescape_escapeChar, unescape_escapeChar] at hread
      obtain ⟨rfl, hrest⟩ := Prod.mk.inj (Option.some.inj hread)
      obtain ⟨rfl, hr⟩ := ih hrest
      exact ⟨rfl, hr⟩

theorem renderString_cancel {s t : String}
    (h : renderString s ++ r = renderString t ++ r') : s = t ∧ r = r' := by
  obtain ⟨-, htail⟩ := List.cons.inj h
  obtain ⟨hchars, hr⟩ := renderStringTail_cancel htail
  exact ⟨String.toList_inj.mp hchars, hr⟩

/-! ### Numbers are delimited by a character that is no digit -/

/-- What follows does not continue a number. -/
def Delimits (r : List Char) : Prop :=
  ∀ c, r.head? = some c → c.isDigit = false

theorem takeWhile_isDigit_append {digits : List Char} (hdigits : ∀ c ∈ digits, c.isDigit = true)
    (hr : Delimits r) : (digits ++ r).takeWhile Char.isDigit = digits := by
  induction digits with
  | nil =>
    cases r with
    | nil => rfl
    | cons c r => simp [hr c rfl]
  | cons d digits ih =>
    rw [List.cons_append, List.takeWhile_cons_of_pos (hdigits d (by simp)),
      ih fun c hc => hdigits c (List.mem_cons_of_mem _ hc)]

theorem isDigit_toDigits (n : Nat) : ∀ c ∈ Nat.toDigits 10 n, c.isDigit = true := by
  intro c hc
  exact Nat.isDigit_of_mem_toDigits (by decide) (by decide) hc

theorem toDigits_cancel {m n : Nat} (hr : Delimits r) (hr' : Delimits r')
    (h : Nat.toDigits 10 m ++ r = Nat.toDigits 10 n ++ r') : m = n ∧ r = r' := by
  have hdigits : Nat.toDigits 10 m = Nat.toDigits 10 n := by
    have := congrArg (List.takeWhile Char.isDigit) h
    rwa [takeWhile_isDigit_append (isDigit_toDigits m) hr,
      takeWhile_isDigit_append (isDigit_toDigits n) hr'] at this
  have hvalue := congrArg (fun digits => Nat.ofDigitChars 10 digits 0) hdigits
  simp only [Nat.ofDigitChars_ten_toDigits] at hvalue
  rw [hdigits] at h
  exact ⟨hvalue, List.append_cancel_left h⟩

theorem head_toDigits_ne_minus (n : Nat) (r r' : List Char) :
    Nat.toDigits 10 n ++ r ≠ '-' :: r' := by
  intro h
  cases hd : Nat.toDigits 10 n with
  | nil => exact Nat.toDigits_ne_nil hd
  | cons c digits =>
    have hc := isDigit_toDigits n c (by simp [hd])
    rw [hd, List.cons_append] at h
    obtain ⟨rfl, -⟩ := List.cons.inj h
    exact absurd hc (by decide)

theorem renderInt_cancel {m n : Int} (hr : Delimits r) (hr' : Delimits r')
    (h : renderInt m ++ r = renderInt n ++ r') : m = n ∧ r = r' := by
  unfold renderInt at h
  by_cases hm : m < 0 <;> by_cases hn : n < 0
  · rw [if_pos hm, if_pos hn] at h
    obtain ⟨habs, hrest⟩ := toDigits_cancel hr hr' (List.cons.inj h).2
    exact ⟨by omega, hrest⟩
  · rw [if_pos hm, if_neg hn] at h
    exact absurd h.symm (head_toDigits_ne_minus _ _ _)
  · rw [if_neg hm, if_pos hn] at h
    exact absurd h (head_toDigits_ne_minus _ _ _)
  · rw [if_neg hm, if_neg hn] at h
    obtain ⟨habs, hrest⟩ := toDigits_cancel hr hr' h
    exact ⟨by omega, hrest⟩

/-! ### Whole values -/

/-- What the first character of a value's text tells about the value. -/
def headClass (c : Char) : Nat :=
  if c = 'n' then 0
  else if c = 't' then 1
  else if c = 'f' then 2
  else if c = '"' then 3
  else if c = '[' then 4
  else if c = '{' then 5
  else if c.isDigit || c = '-' then 6
  else 7

def valueClass : Json → Nat
  | .null => 0
  | .bool true => 1
  | .bool false => 2
  | .str _ => 3
  | .arr _ => 4
  | .obj _ => 5
  | .num _ => 6

theorem headClass_of_isDigit {c : Char} (hc : c.isDigit = true) : headClass c = 6 := by
  unfold headClass
  rw [if_neg, if_neg, if_neg, if_neg, if_neg, if_neg, if_pos]
  · simp [hc]
  all_goals (rintro rfl; exact absurd hc (by decide))

theorem headClass_renderInt (n : Int) :
    ∃ c cs, renderInt n = c :: cs ∧ headClass c = 6 := by
  unfold renderInt
  split
  · exact ⟨'-', _, rfl, by decide⟩
  · cases hd : Nat.toDigits 10 n.natAbs with
    | nil => exact absurd hd Nat.toDigits_ne_nil
    | cons c digits =>
      have hc := isDigit_toDigits n.natAbs c (by simp [hd])
      exact ⟨c, digits, rfl, headClass_of_isDigit hc⟩

theorem headClass_render (value : Json) :
    ∃ c cs, value.render = c :: cs ∧ headClass c = valueClass value := by
  cases value with
  | null => exact ⟨'n', _, rfl, rfl⟩
  | bool b => cases b <;> exact ⟨_, _, rfl, rfl⟩
  | num n => simpa [render, valueClass] using headClass_renderInt n
  | str s => exact ⟨'"', _, by rw [render, renderString], rfl⟩
  | arr items =>
    cases items with
    | nil => exact ⟨'[', _, by rw [render], rfl⟩
    | cons item rest => exact ⟨'[', _, by rw [render], rfl⟩
  | obj fields =>
    cases fields with
    | nil => exact ⟨'{', _, by rw [render], rfl⟩
    | cons field rest => exact ⟨'{', _, by rw [render], rfl⟩

/-- Texts that begin alike belong to values of one class. -/
theorem valueClass_eq {value value' : Json}
    (h : value.render ++ r = value'.render ++ r') : valueClass value = valueClass value' := by
  obtain ⟨c, cs, hc, hclass⟩ := headClass_render value
  obtain ⟨c', cs', hc', hclass'⟩ := headClass_render value'
  rw [hc, hc', List.cons_append, List.cons_append] at h
  obtain ⟨rfl, -⟩ := List.cons.inj h
  exact hclass.symm.trans hclass'

theorem render_ne_cons {value : Json} {c : Char} (hc : headClass c = 7) :
    value.render ++ r ≠ c :: r' := by
  intro h
  obtain ⟨d, ds, hd, hclass⟩ := headClass_render value
  rw [hd, List.cons_append] at h
  obtain ⟨rfl, -⟩ := List.cons.inj h
  rw [hc] at hclass
  cases value with
  | bool b => cases b <;> cases hclass
  | _ => cases hclass

theorem delimits_cons {c : Char} (hc : c.isDigit = false) (r : List Char) : Delimits (c :: r) := by
  intro d hd
  obtain rfl : c = d := by simpa using hd
  exact hc

theorem delimits_renderItems (items : List Json) (r : List Char) :
    Delimits (renderItems items ++ r) := by
  cases items with
  | nil => exact delimits_cons (by decide) _
  | cons item rest => exact delimits_cons (by decide) _

theorem delimits_renderFields (fields : List (String × Json)) (r : List Char) :
    Delimits (renderFields fields ++ r) := by
  cases fields with
  | nil => exact delimits_cons (by decide) _
  | cons field rest => exact delimits_cons (by decide) _

mutual

/-- **A value's text ends where it ends**, unless a number is continued by a digit. -/
theorem render_cancel (value value' : Json) {r r' : List Char} (hr : Delimits r)
    (hr' : Delimits r') (h : value.render ++ r = value'.render ++ r') :
    value = value' ∧ r = r' := by
  have hclass := valueClass_eq h
  match value, value' with
  | .null, .null => exact ⟨rfl, by simpa [render] using h⟩
  | .bool true, .bool true => exact ⟨rfl, by simpa [render] using h⟩
  | .bool false, .bool false => exact ⟨rfl, by simpa [render] using h⟩
  | .num m, .num n =>
    simp only [render] at h
    obtain ⟨rfl, hrest⟩ := renderInt_cancel hr hr' h
    exact ⟨rfl, hrest⟩
  | .str s, .str t =>
    simp only [render] at h
    obtain ⟨rfl, hrest⟩ := renderString_cancel h
    exact ⟨rfl, hrest⟩
  | .arr [], .arr [] => exact ⟨rfl, by simpa [render] using h⟩
  | .arr [], .arr (item :: rest) =>
    simp only [render, List.cons_append, List.append_assoc, List.cons.injEq, true_and] at h
    exact absurd h.symm (render_ne_cons (by decide))
  | .arr (item :: rest), .arr [] =>
    simp only [render, List.cons_append, List.append_assoc, List.cons.injEq, true_and] at h
    exact absurd h (render_ne_cons (by decide))
  | .arr (item :: rest), .arr (item' :: rest') =>
    simp only [render, List.cons_append, List.append_assoc, List.cons.injEq, true_and] at h
    obtain ⟨rfl, hitems⟩ := render_cancel item item' (delimits_renderItems _ _)
      (delimits_renderItems _ _) h
    obtain ⟨rfl, hrest⟩ := renderItems_cancel rest rest' hitems
    exact ⟨rfl, hrest⟩
  | .obj [], .obj [] => exact ⟨rfl, by simpa [render] using h⟩
  | .obj [], .obj ((key, item) :: rest) =>
    simp [render, renderString] at h
  | .obj ((key, item) :: rest), .obj [] =>
    simp [render, renderString] at h
  | .obj ((key, item) :: rest), .obj ((key', item') :: rest') =>
    simp only [render, List.cons_append, List.append_assoc, List.cons.injEq, true_and] at h
    obtain ⟨rfl, hvalue⟩ := renderString_cancel h
    obtain ⟨rfl, hfields⟩ := render_cancel item item' (delimits_renderFields _ _)
      (delimits_renderFields _ _) (List.cons.inj hvalue).2
    obtain ⟨rfl, hrest⟩ := renderFields_cancel rest rest' hfields
    exact ⟨rfl, hrest⟩

theorem renderItems_cancel (items items' : List Json) {r r' : List Char}
    (h : renderItems items ++ r = renderItems items' ++ r') : items = items' ∧ r = r' := by
  match items, items' with
  | [], [] => exact ⟨rfl, by simpa [renderItems] using h⟩
  | [], item :: rest => simp [renderItems] at h
  | item :: rest, [] => simp [renderItems] at h
  | item :: rest, item' :: rest' =>
    simp only [renderItems, List.cons_append, List.append_assoc, List.cons.injEq, true_and] at h
    obtain ⟨rfl, hitems⟩ := render_cancel item item' (delimits_renderItems _ _)
      (delimits_renderItems _ _) h
    obtain ⟨rfl, hrest⟩ := renderItems_cancel rest rest' hitems
    exact ⟨rfl, hrest⟩

theorem renderFields_cancel (fields fields' : List (String × Json)) {r r' : List Char}
    (h : renderFields fields ++ r = renderFields fields' ++ r') : fields = fields' ∧ r = r' := by
  match fields, fields' with
  | [], [] => exact ⟨rfl, by simpa [renderFields] using h⟩
  | [], (key, item) :: rest => simp [renderFields] at h
  | (key, item) :: rest, [] => simp [renderFields] at h
  | (key, item) :: rest, (key', item') :: rest' =>
    simp only [renderFields, List.cons_append, List.append_assoc, List.cons.injEq,
      true_and] at h
    obtain ⟨rfl, hvalue⟩ := renderString_cancel h
    obtain ⟨rfl, hfields⟩ := render_cancel item item' (delimits_renderFields _ _)
      (delimits_renderFields _ _) (List.cons.inj hvalue).2
    obtain ⟨rfl, hrest⟩ := renderFields_cancel rest rest' hfields
    exact ⟨rfl, hrest⟩

end

/-- Distinct values have distinct texts. -/
theorem print_injective : Function.Injective print := by
  intro value value' h
  have hchars : value.render = value'.render := String.ofList_injective h
  have hnil : Delimits [] := by intro c hc; simp at hc
  exact (render_cancel value value' hnil hnil (by rw [hchars])).1

/-! ### No text has a line break -/

theorem newline_notMem_escapeChar (c : Char) : '\n' ∉ escapeChar c := by
  by_cases hcontrol : c.toNat < 32
  · have hall : ∀ n < 32, '\n' ∉ escapeChar (Char.ofNat n) := by decide
    have := hall c.toNat hcontrol
    rwa [Char.ofNat_toNat] at this
  · have hne : c ≠ '\n' := by
      rintro rfl
      exact hcontrol (by decide)
    unfold escapeChar
    split_ifs <;> simp [hne.symm]

theorem newline_notMem_renderString (s : String) : '\n' ∉ renderString s := by
  have htail : ∀ chars, '\n' ∉ renderStringTail chars := by
    intro chars
    induction chars with
    | nil => simp [renderStringTail]
    | cons c chars ih => simp [renderStringTail, newline_notMem_escapeChar, ih]
  simp [renderString, htail]

theorem newline_notMem_renderInt (n : Int) : '\n' ∉ renderInt n := by
  have hdigits : '\n' ∉ Nat.toDigits 10 n.natAbs := fun h =>
    absurd (isDigit_toDigits n.natAbs _ h) (by decide)
  unfold renderInt
  split <;> simp [hdigits]

mutual

/-- A line break inside a text is escaped. -/
theorem newline_notMem_render (value : Json) : '\n' ∉ value.render := by
  match value with
  | .null => simp [render]
  | .bool true => simp [render]
  | .bool false => simp [render]
  | .num n => simpa [render] using newline_notMem_renderInt n
  | .str s => simpa [render] using newline_notMem_renderString s
  | .arr [] => simp [render]
  | .arr (item :: rest) =>
    simp [render, newline_notMem_render item, newline_notMem_renderItems rest]
  | .obj [] => simp [render]
  | .obj ((key, item) :: rest) =>
    simp [render, newline_notMem_renderString key, newline_notMem_render item,
      newline_notMem_renderFields rest]

theorem newline_notMem_renderItems (items : List Json) : '\n' ∉ renderItems items := by
  match items with
  | [] => simp [renderItems]
  | item :: rest =>
    simp [renderItems, newline_notMem_render item, newline_notMem_renderItems rest]

theorem newline_notMem_renderFields (fields : List (String × Json)) :
    '\n' ∉ renderFields fields := by
  match fields with
  | [] => simp [renderFields]
  | (key, item) :: rest =>
    simp [renderFields, newline_notMem_renderString key, newline_notMem_render item,
      newline_notMem_renderFields rest]

end

/-! ### Objects with optional fields -/

/-- The fields of a table that are there. -/
def fieldsOf (table : List (String × Option Json)) : List (String × Json) :=
  table.filterMap fun entry => entry.2.map (entry.1, ·)

/-- Read a field of an object.  One that is missing has a value of its own, or none; a name that stands
twice is an error. -/
def field {α : Type} (fields : List (String × Json)) (name : String) (read : Json → Option α)
    (missing : Option α) : Option α :=
  match fields.filter (·.1 == name) with
  | [] => missing
  | [entry] => read entry.2
  | _ => none

theorem filter_fieldsOf_of_notMem {table : List (String × Option Json)} {name : String}
    (h : name ∉ table.map Prod.fst) : (fieldsOf table).filter (·.1 == name) = [] := by
  refine List.filter_eq_nil_iff.mpr fun entry hentry => ?_
  obtain ⟨⟨key, value⟩, hmem, hsome⟩ := List.mem_filterMap.mp hentry
  obtain ⟨item, -, rfl⟩ := Option.map_eq_some_iff.mp hsome
  have hkey : key ≠ name := by
    rintro rfl
    exact h (List.mem_map_of_mem hmem)
  simpa using hkey

/-- **Fields are found by their names.** -/
theorem field_fieldsOf {α : Type} {table : List (String × Option Json)}
    (hnames : (table.map Prod.fst).Nodup) {name : String} {value : Option Json}
    (hmem : (name, value) ∈ table) (read : Json → Option α) (missing : Option α) :
    field (fieldsOf table) name read missing = value.elim missing read := by
  have hfilter : (fieldsOf table).filter (·.1 == name) = (value.map (name, ·)).toList := by
    induction table with
    | nil => cases hmem
    | cons entry table ih =>
      obtain ⟨hnotMem, hnames⟩ := List.nodup_cons.mp hnames
      rcases List.mem_cons.mp hmem with rfl | hmem
      · cases value with
        | none =>
          show List.filter _ (fieldsOf table) = []
          exact filter_fieldsOf_of_notMem hnotMem
        | some item =>
          show List.filter _ ((name, item) :: fieldsOf table) = [(name, item)]
          rw [List.filter_cons_of_pos (by simp), filter_fieldsOf_of_notMem hnotMem]
      · have hkey : entry.1 ≠ name := by
          rintro rfl
          exact hnotMem (List.mem_map.mpr ⟨_, hmem, rfl⟩)
        have hrest := ih hnames hmem
        obtain ⟨key, other⟩ := entry
        cases other with
        | none => exact hrest
        | some item =>
          show List.filter _ ((key, item) :: fieldsOf table) = _
          rw [List.filter_cons_of_neg (by simpa using hkey), hrest]
  unfold field
  rw [hfilter]
  cases value <;> rfl

end Json
