import Gabriel.Lib.Text

/-!
# `Gabriel.Lib.JsonText`: the texts of JSON objects

The grammar of a JSON string, and of an object whose values are strings and numbers: `StringBody`
relates what stands between the quotes to the string, and `ObjectText` relates members to the texts
of their object. A string has many texts, as a character can be written as it is, with a short
escape or by its number.

`readObject` is a reader of these objects: it shows that the grammar can be read, and that a decoder
which reads all of its texts exists. The theorems:

* `readBody_of_body`: a string is read up to its closing quote.
* `readScalar_of_text`, `readMember_of_text`: a value and a member, up to what is no digit.
* `readMembers_of_text`: members are read up to the end of the object, by induction over them.
* `readObject_of_text`: every text of an object is read.
-/

set_option autoImplicit false

namespace JsonText

/-- A value that is not made of others. -/
inductive Scalar where
  | number (n : ℕ)
  | string (value : Text)
  deriving DecidableEq

/-! ### The grammar -/

/-- The letters of the short escapes, and what they stand for. -/
def shortForms : List (Char × Char) :=
  [('"', '"'), ('\\', '\\'), ('/', '/'), ('b', Char.ofNat 8), ('f', Char.ofNat 12), ('n', '\n'),
    ('r', '\r'), ('t', '\t')]

/-- The value of a hexadecimal digit. -/
def hexDigit (c : Char) : Option ℕ :=
  if c.isDigit then some (c.toNat - '0'.toNat)
  else if 'a' ≤ c ∧ c ≤ 'f' then some (c.toNat - 'a'.toNat + 10)
  else if 'A' ≤ c ∧ c ≤ 'F' then some (c.toNat - 'A'.toNat + 10)
  else none

/-- The character that four digits name; a half of a pair names none. -/
def numbered (a b c d : Char) : Option Char := do
  let a ← hexDigit a
  let b ← hexDigit b
  let c ← hexDigit c
  let d ← hexDigit d
  let code := ((a * 16 + b) * 16 + c) * 16 + d
  if 0xD800 ≤ code ∧ code < 0xE000 then none else some (Char.ofNat code)

/-- What stands between the quotes of a string. -/
inductive StringBody : Text → Text → Prop where
  | nil : StringBody [] []
  | plain (c : Char) {body value : Text} (hlow : 0x20 ≤ c.toNat) (hquote : c ≠ '"')
      (hslash : c ≠ '\\') (h : StringBody body value) : StringBody (c :: body) (c :: value)
  | short (letter c : Char) {body value : Text} (hform : (letter, c) ∈ shortForms)
      (h : StringBody body value) : StringBody ('\\' :: letter :: body) (c :: value)
  | number (a b c d x : Char) {body value : Text} (hx : numbered a b c d = some x)
      (h : StringBody body value) :
      StringBody ('\\' :: 'u' :: a :: b :: c :: d :: body) (x :: value)

/-- The texts of a value. -/
inductive ScalarText : Scalar → Text → Prop where
  | number (n : ℕ) : ScalarText (.number n) (Nat.toDigits 10 n)
  | string {body value : Text} (h : StringBody body value) :
      ScalarText (.string value) ('"' :: body ++ ['"'])

/-- White space between the parts. -/
def isBlank (c : Char) : Bool := c ∈ [' ', '\t', '\n', '\r']

/-- The texts of a member. -/
inductive MemberText : Text × Scalar → Text → Prop where
  | intro {key keyBody valueText blank blank' : Text} {value : Scalar}
      (hkey : StringBody keyBody key) (hvalue : ScalarText value valueText)
      (hblank : ∀ c ∈ blank, isBlank c = true) (hblank' : ∀ c ∈ blank', isBlank c = true) :
      MemberText (key, value)
        (blank ++ '"' :: keyBody ++ '"' :: ':' :: blank' ++ valueText)

/-- The texts of members up to the end of the object. -/
inductive MembersText : List (Text × Scalar) → Text → Prop where
  | last {member : Text × Scalar} {text : Text} (h : MemberText member text) :
      MembersText [member] (text ++ ['\x7d'])
  | cons {member : Text × Scalar} {members : List (Text × Scalar)} {text rest : Text}
      (h : MemberText member text) (hrest : MembersText members rest) :
      MembersText (member :: members) (text ++ ',' :: rest)

/-- The texts of an object with members. -/
def ObjectText (members : List (Text × Scalar)) (text : Text) : Prop :=
  ∃ rest, text = '\x7b' :: rest ∧ MembersText members rest

/-! ### A reader -/

/-- What a letter stands for in a short escape. -/
def shortForm (letter : Char) : Option Char :=
  (shortForms.find? fun form => form.1 = letter).map (·.2)

/-- Read a string up to its closing quote: the string, and what comes after. -/
def readBody : Text → Option (Text × Text)
  | '"' :: rest => some ([], rest)
  | '\\' :: 'u' :: a :: b :: c :: d :: rest => do
    let x ← numbered a b c d
    let (value, after) ← readBody rest
    some (x :: value, after)
  | '\\' :: letter :: rest => do
    let c ← shortForm letter
    let (value, after) ← readBody rest
    some (c :: value, after)
  | c :: rest =>
    if c.toNat < 0x20 then none
    else do
      let (value, after) ← readBody rest
      some (c :: value, after)
  | [] => none

/-- Read a value from the front of a text. -/
def readScalar : Text → Option (Scalar × Text)
  | '"' :: rest => (readBody rest).map fun (value, after) => (.string value, after)
  | text =>
    let digits := text.takeWhile Char.isDigit
    if digits = [] then none
    else some (.number (Nat.ofDigitChars 10 digits 0), text.dropWhile Char.isDigit)

/-- Read a member from the front of a text. -/
def readMember (text : Text) : Option ((Text × Scalar) × Text) :=
  match text.dropWhile isBlank with
  | '"' :: rest =>
    match readBody rest with
    | some (key, ':' :: after) =>
      (readScalar (after.dropWhile isBlank)).map fun (value, after) => ((key, value), after)
    | _ => none
  | _ => none

/-- Read members up to the end of the object. -/
def readMembers : ℕ → Text → Option (List (Text × Scalar))
  | 0, _ => none
  | fuel + 1, text =>
    match readMember text with
    | some (member, ',' :: rest) => (readMembers fuel rest).map (member :: ·)
    | some (member, ['\x7d']) => some [member]
    | _ => none

/-- Read an object. -/
def readObject : Text → Option (List (Text × Scalar))
  | '\x7b' :: rest => readMembers rest.length rest
  | _ => none

example : readObject "\x7b\"a\": 12, \"b\":\"x\\n\\u0041\"\x7d".toList
    = some [("a".toList, .number 12), ("b".toList, .string "x\nA".toList)] := by decide +kernel

/-! ### The reader reads the texts -/

/-- A short escape stands for what its letter says, and its letter is not the one of a number. -/
theorem shortForm_of_mem {letter c : Char} (h : (letter, c) ∈ shortForms) :
    shortForm letter = some c ∧ letter ≠ 'u' := by
  have hall : ∀ form ∈ shortForms, shortForm form.1 = some form.2 ∧ form.1 ≠ 'u' := by decide
  exact hall _ h

/-- A string is read up to its closing quote. -/
theorem readBody_of_body {body value : Text} (h : StringBody body value) (rest : Text) :
    readBody (body ++ '"' :: rest) = some (value, rest) := by
  induction h with
  | nil => rfl
  | plain c hlow hquote hslash h ih =>
    rw [List.cons_append, readBody, if_neg (not_lt.mpr hlow), ih]
    · rfl
    · exact hquote
    · intro a b c d rest heq
      exact absurd heq hslash
    · intro letter rest heq
      exact absurd heq hslash
  | short letter c hform h ih =>
    obtain ⟨hletter, hne⟩ := shortForm_of_mem hform
    rw [List.cons_append, List.cons_append, readBody, hletter, Option.bind_eq_bind,
      Option.bind_some, ih]
    · rfl
    · intro a b c d rest heq
      exact absurd heq hne
  | number a b c d x hx h ih =>
    rw [List.cons_append, List.cons_append, List.cons_append, List.cons_append, List.cons_append,
      List.cons_append, readBody, hx, Option.bind_eq_bind, Option.bind_some, ih]
    rfl

/-- A value is read up to what is no digit. -/
theorem readScalar_of_text {value : Scalar} {text : Text} (h : ScalarText value text) {c : Char}
    (hc : c.isDigit = false) (rest : Text) :
    readScalar (text ++ c :: rest) = some (value, c :: rest) := by
  cases h with
  | number n =>
    have hdigits : ∀ d ∈ Nat.toDigits 10 n, d.isDigit = true := fun d hd =>
      Nat.isDigit_of_mem_toDigits (by decide) (by decide) hd
    have htake : (Nat.toDigits 10 n ++ c :: rest).takeWhile Char.isDigit = Nat.toDigits 10 n := by
      rw [List.takeWhile_append_of_pos hdigits, List.takeWhile_cons_of_neg (by simp [hc]),
        List.append_nil]
    have hdrop : (Nat.toDigits 10 n ++ c :: rest).dropWhile Char.isDigit = c :: rest := by
      rw [List.dropWhile_append_of_pos hdigits, List.dropWhile_cons_of_neg (by simp [hc])]
    have hne : Nat.toDigits 10 n ≠ [] := Nat.toDigits_ne_nil
    rw [readScalar, htake, hdrop, if_neg hne, Nat.ofDigitChars_ten_toDigits]
    intro t heq
    obtain ⟨d, ds, hds⟩ := List.exists_cons_of_ne_nil hne
    rw [hds, List.cons_append] at heq
    have hd := hdigits d (hds ▸ List.mem_cons_self)
    rw [(List.cons.inj heq).1] at hd
    exact absurd hd (by decide)
  | @string body value hbody =>
    have hwhole : '"' :: body ++ ['"'] ++ c :: rest = '"' :: (body ++ '"' :: c :: rest) := by simp
    rw [hwhole, readScalar, readBody_of_body hbody]
    rfl

/-- Skipping the white space in front of a text that begins with none. -/
theorem dropWhile_blank {blank : Text} (h : ∀ c ∈ blank, isBlank c = true) {c : Char}
    (hc : isBlank c = false) (rest : Text) :
    (blank ++ c :: rest).dropWhile isBlank = c :: rest := by
  rw [List.dropWhile_append_of_pos h, List.dropWhile_cons_of_neg (by simp [hc])]

/-- A value begins with no white space. -/
theorem ScalarText.exists_cons {value : Scalar} {text : Text} (h : ScalarText value text) :
    ∃ c rest, text = c :: rest ∧ isBlank c = false := by
  cases h with
  | number n =>
    obtain ⟨d, ds, hds⟩ := List.exists_cons_of_ne_nil (Nat.toDigits_ne_nil (b := 10) (n := n))
    have hd : d.isDigit = true :=
      Nat.isDigit_of_mem_toDigits (by decide) (by decide) (hds ▸ List.mem_cons_self)
    refine ⟨d, ds, hds, ?_⟩
    refine decide_eq_false fun hmem => ?_
    simp only [List.mem_cons, List.not_mem_nil, or_false] at hmem
    rcases hmem with rfl | rfl | rfl | rfl <;> exact absurd hd (by decide)
  | @string body value hbody => exact ⟨'"', body ++ ['"'], rfl, by decide⟩

/-- A member is read up to what is no digit. -/
theorem readMember_of_text {member : Text × Scalar} {text : Text} (h : MemberText member text)
    {c : Char} (hc : c.isDigit = false) (rest : Text) :
    readMember (text ++ c :: rest) = some (member, c :: rest) := by
  obtain @⟨key, keyBody, valueText, blank, blank', value, hkey, hvalue, hblank, hblank'⟩ := h
  obtain ⟨d, ds, hcons, hd⟩ := hvalue.exists_cons
  have hwhole : blank ++ '"' :: keyBody ++ '"' :: ':' :: blank' ++ valueText ++ c :: rest
      = blank ++ '"' :: (keyBody ++ '"' :: ':' :: (blank' ++ (valueText ++ c :: rest))) := by simp
  have hskip : (blank' ++ (valueText ++ c :: rest)).dropWhile isBlank = valueText ++ c :: rest := by
    rw [hcons, List.cons_append, dropWhile_blank hblank' hd]
  rw [readMember, hwhole, dropWhile_blank hblank (by decide)]
  show (match readBody (keyBody ++ '"' :: ':' :: (blank' ++ (valueText ++ c :: rest))) with
    | some (key, ':' :: after) =>
      (readScalar (after.dropWhile isBlank)).map fun (value, after) => ((key, value), after)
    | _ => none) = some ((key, value), c :: rest)
  rw [readBody_of_body hkey]
  show (readScalar ((blank' ++ (valueText ++ c :: rest)).dropWhile isBlank)).map _ = _
  rw [hskip, readScalar_of_text hvalue hc]
  rfl

/-- Members are read up to the end of the object. -/
theorem readMembers_of_text {members : List (Text × Scalar)} {text : Text}
    (h : MembersText members text) {fuel : ℕ} (hfuel : members.length ≤ fuel) :
    readMembers fuel text = some members := by
  induction h generalizing fuel with
  | last h =>
    obtain ⟨fuel, rfl⟩ : ∃ n, fuel = n + 1 := ⟨fuel - 1, by simp at hfuel; omega⟩
    rw [readMembers, readMember_of_text h (by decide)]
    rfl
  | cons h hrest ih =>
    obtain ⟨fuel, rfl⟩ : ∃ n, fuel = n + 1 := ⟨fuel - 1, by simp at hfuel; omega⟩
    rw [readMembers, readMember_of_text h (by decide)]
    show (readMembers fuel _).map _ = _
    rw [ih (by simp at hfuel; omega)]
    rfl

/-- There are no more members than characters. -/
theorem MembersText.length_le {members : List (Text × Scalar)} {text : Text}
    (h : MembersText members text) : members.length ≤ text.length := by
  induction h with
  | last h => simp
  | cons h hrest ih =>
    rw [List.length_cons, List.length_append, List.length_cons]
    omega

/-- Every text of an object is read. -/
theorem readObject_of_text {members : List (Text × Scalar)} {text : Text}
    (h : ObjectText members text) : readObject text = some members := by
  obtain ⟨rest, rfl, hrest⟩ := h
  exact readMembers_of_text hrest hrest.length_le

end JsonText
