import Gabriel.Lib.Text

/-!
# `Gabriel.Lib.Markup`: text with tags

What a reader of XML or HTML sees in a text that was put together from literals and escaped
values. There are three readings, each with the lemma that inverts the writer.

`unescape` replaces references. An `Escaper` is a writer of characters for a table of references:
it may drop a character, and the others come back.

`Scanner` divides a text into character data and tags, one character at a time, so that the scan
of an appended text continues the scan before it. `segments` are the texts and the attribute values
it finds.

`parse` builds the tree of an XML document, or refuses. A `Forest` is a text, then maybe an
element, and so on: there are no two texts side by side. The theorems:

* `unescape_escape`: what was written comes back, but for the characters that are dropped.
* `scan_append`: texts are scanned one after the other.
* `Reads.data`, `Reads.literal`, `Reads.segments`: a reader that goes on by data and by literals.
* `readTag_write`, `readToken_start`: the tags that were written.
* `parse_write`: a written forest is parsed to the forest, up to what the escaper drops and the
  normalization of white space.
* `readDocument_write`: so is a document with a declaration.
* `forall_mem_write`: a written forest has only characters of a kind exactly when its texts do.
-/

set_option autoImplicit false

namespace Markup

/-! ### Literals

The characters of a literal are found by unification. Evaluating `String.toList` would decode
its bytes. -/

/-- The characters of a string, from the string that they make. -/
theorem toList_eq {s : String} {chars : Text} (h : String.ofList chars = s) : s.toList = chars :=
  h ▸ String.toList_ofList

/-- The same with a text behind the string. -/
theorem toList_append_eq {s : String} {chars t u : Text} (h : String.ofList chars = s)
    (ht : t = u) : s.toList ++ t = chars ++ u := by
  rw [toList_eq h, ht]

/-! ### References -/

/-- The names of references, each with its semicolon, and the characters they stand for. -/
abbrev Refs := List (Text × Char)

/-- Replace references, with the number of characters that belong to the one before. An `&` that
starts none stays. -/
def unescapeFrom (refs : Refs) : Nat → Text → Text
  | _, [] => []
  | skip + 1, _ :: rest => unescapeFrom refs skip rest
  | 0, c :: rest =>
    if c = '&' then
      match refs.find? fun r => r.1.isPrefixOf rest with
      | some r => r.2 :: unescapeFrom refs r.1.length rest
      | none => c :: unescapeFrom refs 0 rest
    else c :: unescapeFrom refs 0 rest

/-- Replace every reference. -/
def unescape (refs : Refs) (t : Text) : Text := unescapeFrom refs 0 t

/-- A text without `&` is read as it is. -/
theorem unescape_of_plain (refs : Refs) {t : Text} (h : '&' ∉ t) : unescape refs t = t := by
  induction t with
  | nil => rfl
  | cons c t ih =>
    have hc : c ≠ '&' := fun heq => h (heq ▸ List.mem_cons_self)
    rw [unescape, unescapeFrom, if_neg hc, ← unescape, ih fun hmem =>
        h (List.mem_cons_of_mem _ hmem)]

/-- Whether every `&` starts a reference. -/
def refsClosed (refs : Refs) : Text → Bool
  | [] => true
  | c :: rest => (c != '&' || refs.any fun r => r.1.isPrefixOf rest) && refsClosed refs rest

/-- The characters that an escaper must not leave alone. -/
def special : Text := ['<', '>', '"', '&']

/-- A writer of characters: each is dropped, or left as it is, or becomes a reference to it. -/
structure Escaper where
  refs : Refs
  escapeChar : Char → Text
  /-- The name of a reference holds no special character. -/
  names : ∀ r ∈ refs, ∀ c ∈ r.1, c ∉ special
  /-- No name is the beginning of another one. -/
  apart : ∀ r ∈ refs, ∀ s ∈ refs, r.1 <+: s.1 → r = s
  lawful : ∀ c, escapeChar c = [] ∨ escapeChar c = [c] ∧ c ∉ special ∨
    ∃ r ∈ refs, r.2 = c ∧ escapeChar c = '&' :: r.1

namespace Escaper

variable (e : Escaper)

/-- Write a text. -/
def escape (t : Text) : Text := t.flatMap e.escapeChar

/-- The characters of a text that are not dropped. -/
def kept (t : Text) : Text := t.filter fun c => e.escapeChar c ≠ []

/-- Nothing is written for the empty text. -/
@[simp] theorem escape_nil : e.escape [] = [] := rfl

/-- Nothing is kept of it. -/
@[simp] theorem kept_nil : e.kept [] = [] := rfl

/-- Texts are escaped one after the other. -/
@[simp] theorem escape_append (s t : Text) : e.escape (s ++ t) = e.escape s ++ e.escape t :=
  List.flatMap_append

/-- And so it is with what is kept of them. -/
@[simp] theorem kept_append (s t : Text) : e.kept (s ++ t) = e.kept s ++ e.kept t :=
  List.filter_append ..

/-- A written character is no delimiter. -/
theorem not_special_of_mem_escapeChar {c d : Char} (h : d ∈ e.escapeChar c) :
    d ∉ special ∨ d = '&' := by
  rcases e.lawful c with hnone | ⟨hsame, hplain⟩ | ⟨r, hr, -, href⟩
  · rw [hnone] at h
    exact absurd h List.not_mem_nil
  · rw [hsame, List.mem_singleton] at h
    exact Or.inl (h ▸ hplain)
  · rw [href] at h
    rcases List.mem_cons.mp h with rfl | h
    · exact Or.inr rfl
    · exact Or.inl (e.names r hr d h)

/-- A written text holds no delimiter. -/
theorem not_mem_escape {t : Text} {d : Char} (hd : d ∈ ['<', '>', '"']) : d ∉ e.escape t := by
  intro h
  obtain ⟨c, -, hc⟩ := List.mem_flatMap.mp h
  rcases e.not_special_of_mem_escapeChar hc with hplain | rfl
  · exact hplain (List.mem_append_left ['&'] hd)
  · exact absurd hd (by decide)

/-- The name of a reference is found in front of anything. -/
theorem find?_refs {r : Text × Char} (hr : r ∈ e.refs) (rest : Text) :
    e.refs.find? (fun s => s.1.isPrefixOf (r.1 ++ rest)) = some r := by
  have hpre : r.1.isPrefixOf (r.1 ++ rest) = true :=
    List.isPrefixOf_iff_prefix.mpr (List.prefix_append _ _)
  cases hfind : e.refs.find? (fun s => s.1.isPrefixOf (r.1 ++ rest)) with
  | none => exact absurd hpre (List.find?_eq_none.mp hfind r hr)
  | some s =>
    -- Of two names in front of one text, one is the beginning of the other.
    have hs : s ∈ e.refs := List.mem_of_find?_eq_some hfind
    have hspre : s.1 <+: r.1 ++ rest :=
      List.isPrefixOf_iff_prefix.mp
          (List.find?_some (p := fun s : Text × Char => s.1.isPrefixOf (r.1 ++ rest)) hfind)
    rcases List.prefix_or_prefix_of_prefix hspre (List.prefix_append r.1 rest) with h | h
    · rw [e.apart s hs r hr h]
    · rw [e.apart r hr s hs h]

/-- What is skipped first is dropped. -/
theorem unescapeFrom_drop (refs : Refs) (s t : Text) :
    unescapeFrom refs s.length (s ++ t) = unescape refs t := by
  induction s with
  | nil => rfl
  | cons c s ih => exact ih

/-- One character after the other comes back. -/
theorem unescape_escapeChar_append (c : Char) (rest : Text) :
    unescape e.refs (e.escapeChar c ++ rest)
      = (if e.escapeChar c ≠ [] then [c] else []) ++ unescape e.refs rest := by
  rcases e.lawful c with hnone | ⟨hsame, hplain⟩ | ⟨r, hr, hchar, href⟩
  · rw [hnone]
    rfl
  · have hamp : c ≠ '&' := by
      rintro rfl
      exact hplain (by decide)
    rw [hsame, List.singleton_append, unescape, unescapeFrom, if_neg hamp]
    rfl
  · rw [href, List.cons_append, unescape, unescapeFrom, if_pos rfl, e.find?_refs hr rest]
    show r.2 :: unescapeFrom e.refs r.1.length (r.1 ++ rest) = _
    rw [unescapeFrom_drop, hchar]
    rfl

/-- What was written comes back, whatever follows. -/
theorem unescape_escape_append (t rest : Text) :
    unescape e.refs (e.escape t ++ rest) = e.kept t ++ unescape e.refs rest := by
  induction t with
  | nil => rfl
  | cons c t ih =>
    rw [escape, List.flatMap_cons, List.append_assoc, unescape_escapeChar_append, ← escape, ih]
    by_cases h : e.escapeChar c = []
    · simp [kept, h]
    · simp [kept, h]

/-- What was written comes back, but for the characters that are dropped. -/
theorem unescape_escape (t : Text) : unescape e.refs (e.escape t) = e.kept t := by
  have h := e.unescape_escape_append t []
  rwa [List.append_nil, show unescape e.refs [] = [] from rfl, List.append_nil] at h

/-- Every `&` of a written text starts a reference. -/
theorem refsClosed_escape_append (t rest : Text) (h : refsClosed e.refs rest = true) :
    refsClosed e.refs (e.escape t ++ rest) = true := by
  -- In front of a text without `&` nothing changes.
  have hplain : ∀ s : Text, '&' ∉ s → ∀ rest, refsClosed e.refs rest = true →
      refsClosed e.refs (s ++ rest) = true := by
    intro s
    induction s with
    | nil =>
      intro _ rest hrest
      exact hrest
    | cons c s ih =>
      intro hs rest hrest
      have hc : c ≠ '&' := fun heq => hs (heq ▸ List.mem_cons_self)
      rw [List.cons_append, refsClosed,
          ih (fun hmem => hs (List.mem_cons_of_mem _ hmem)) rest hrest]
      simp [hc]
  induction t with
  | nil => exact h
  | cons c t ih =>
    rw [escape, List.flatMap_cons, List.append_assoc, ← escape]
    -- A character is left out, kept when it is not special, or written as a reference, whose name
    -- has no `&`.
    rcases e.lawful c with hnone | ⟨hsame, hspecial⟩ | ⟨r, hr, -, href⟩
    · rw [hnone]
      exact ih
    · refine hplain _ ?_ _ ih
      rw [hsame, List.mem_singleton]
      rintro rfl
      exact hspecial (by decide)
    · have hname : '&' ∉ r.1 := fun hmem => e.names r hr '&' hmem (by decide)
      rw [href, List.cons_append, refsClosed, hplain _ hname _ ih, Bool.and_true]
      rw [Bool.or_eq_true]
      refine Or.inr (List.any_eq_true.mpr ⟨r, hr, ?_⟩)
      exact List.isPrefixOf_iff_prefix.mpr (List.prefix_append _ _)

/-- In an escaped text every reference is closed. -/
theorem refsClosed_escape (t : Text) : refsClosed e.refs (e.escape t) = true := by
  have h := e.refsClosed_escape_append t [] rfl
  rwa [List.append_nil] at h

end Escaper

/-! ### Texts and tags -/

/-- Where a scanner is: between tags, in a tag, in an attribute value, or past an error. -/
inductive Mode where
  | data
  | tag
  | value
  | broken
  deriving DecidableEq

/-- A scanner of markup. Values are in double quotes. -/
structure Scanner where
  mode : Mode := .data
  /-- The text since the last tag. -/
  text : Text := []
  /-- The tag so far, without its brackets. -/
  tag : Text := []
  /-- The tags, each with the text in front of it. -/
  done : List (Text × Text) := []
  deriving DecidableEq

/-- Read one character. -/
def Scanner.step (s : Scanner) (c : Char) : Scanner :=
  match s.mode with
  | .data => if c = '<' then { s with mode := .tag } else { s with text := s.text ++ [c] }
  | .tag =>
    if c = '>' then { mode := .data, text := [], tag := [], done := s.done ++ [(s.text, s.tag)] }
    else if c = '<' then { s with mode := .broken }
    else { s with mode := if c = '"' then .value else .tag, tag := s.tag ++ [c] }
  | .value =>
    if c = '<' then { s with mode := .broken }
    else { s with mode := if c = '"' then .tag else .value, tag := s.tag ++ [c] }
  | .broken => s

/-- Read on. -/
def scan (s : Scanner) (t : Text) : Scanner := t.foldl Scanner.step s

/-- Texts are scanned one after the other. -/
theorem scan_append (s : Scanner) (t u : Text) : scan s (t ++ u) = scan (scan s t) u :=
  List.foldl_append

/-- Every second one of some pieces. -/
def oddPieces : List Text → List Text
  | _ :: value :: rest => value :: oddPieces rest
  | _ => []

/-- The attribute values of a tag. -/
def valuesOf (tag : Text) : List Text := oddPieces (tag.splitOn '"')

/-- Every text and every attribute value. -/
def segments (t : Text) : List Text :=
  let s := scan {} t
  s.done.flatMap (fun p => p.1 :: valuesOf p.2) ++ [s.text]

/-- A text without `<` is character data. -/
theorem scan_data {t : Text} (h : '<' ∉ t) (s u : Text) (d : List (Text × Text)) :
    scan ⟨.data, s, u, d⟩ t = ⟨.data, s ++ t, u, d⟩ := by
  induction t generalizing s with
  | nil => rw [List.append_nil]; rfl
  | cons c t ih =>
    have hc : c ≠ '<' := fun heq => h (heq ▸ List.mem_cons_self)
    have hstep : Scanner.step ⟨.data, s, u, d⟩ c = ⟨.data, s ++ [c], u, d⟩ := by
      simp [Scanner.step, hc]
    show scan (Scanner.step ⟨.data, s, u, d⟩ c) t = _
    rw [hstep, ih (fun hmem => h (List.mem_cons_of_mem _ hmem)), List.append_assoc,
      List.singleton_append]

/-- A text without `<` and quotes is part of the value. -/
theorem scan_value {t : Text} (h : '<' ∉ t) (hquote : '"' ∉ t) (s u : Text)
    (d : List (Text × Text)) : scan ⟨.value, s, u, d⟩ t = ⟨.value, s, u ++ t, d⟩ := by
  induction t generalizing u with
  | nil => rw [List.append_nil]; rfl
  | cons c t ih =>
    have hc : c ≠ '<' := fun heq => h (heq ▸ List.mem_cons_self)
    have hq : c ≠ '"' := fun heq => hquote (heq ▸ List.mem_cons_self)
    have hstep : Scanner.step ⟨.value, s, u, d⟩ c = ⟨.value, s, u ++ [c], d⟩ := by
      simp [Scanner.step, hc, hq]
    show scan (Scanner.step ⟨.value, s, u, d⟩ c) t = _
    rw [hstep, ih (fun hmem => h (List.mem_cons_of_mem _ hmem))
      (fun hmem => hquote (List.mem_cons_of_mem _ hmem)), List.append_assoc, List.singleton_append]

/-- A text without brackets and quotes is part of the tag. -/
theorem scan_tag {t : Text} (h : ∀ c ∈ t, c ∉ ['<', '>', '"']) (s u : Text)
    (d : List (Text × Text)) : scan ⟨.tag, s, u, d⟩ t = ⟨.tag, s, u ++ t, d⟩ := by
  induction t generalizing u with
  | nil => rw [List.append_nil]; rfl
  | cons c t ih =>
    have hc := h c List.mem_cons_self
    simp only [List.mem_cons, List.not_mem_nil, or_false, not_or] at hc
    have hstep : Scanner.step ⟨.tag, s, u, d⟩ c = ⟨.tag, s, u ++ [c], d⟩ := by
      simp [Scanner.step, hc]
    show scan (Scanner.step ⟨.tag, s, u, d⟩ c) t = _
    rw [hstep, ih (fun c hmem => h c (List.mem_cons_of_mem _ hmem)), List.append_assoc,
      List.singleton_append]

/-! ### Reading piece by piece -/

/-- The texts and attribute values that a scanner is done with. -/
def shownOf (done : List (Text × Text)) : List Text := done.flatMap fun p => p.1 :: valuesOf p.2

/-- A scanner that read something else before. -/
def Scanner.after (text : Text) (done : List (Text × Text)) (s : Scanner) : Scanner :=
  match s.done with
  | [] => { s with text := text ++ s.text, done := done }
  | p :: rest => { s with done := done ++ (text ++ p.1, p.2) :: rest }

/-- What was scanned before does not change a step. -/
theorem step_after (text : Text) (done : List (Text × Text)) (s : Scanner) (c : Char) :
    (s.after text done).step c = (s.step c).after text done := by
  obtain ⟨mode, t, tag, d⟩ := s
  cases mode with
  | data => by_cases h : c = '<' <;> cases d <;> simp [Scanner.after, Scanner.step, h]
  | tag =>
    by_cases h : c = '>'
    · cases d <;> simp [Scanner.after, Scanner.step, h]
    · by_cases h' : c = '<' <;> cases d <;> simp [Scanner.after, Scanner.step, h, h']
  | value => by_cases h : c = '<' <;> cases d <;> simp [Scanner.after, Scanner.step, h]
  | broken => cases d <;> rfl

/-- What was read before does not change how a text is read. -/
theorem scan_after (text : Text) (done : List (Text × Text)) (s : Scanner) (t : Text) :
    scan (s.after text done) t = (scan s t).after text done := by
  induction t generalizing s with
  | nil => rfl
  | cons c t ih =>
    show scan ((s.after text done).step c) t = (scan (s.step c) t).after text done
    rw [step_after, ih]

/-- A literal that starts in character data, holds a tag, and ends in character data. -/
structure Literal where
  raw : Text
  /-- The text in front of the first tag. -/
  first : Text
  /-- The text behind the last tag. -/
  last : Text
  done : List (Text × Text)
  tag : Text
  scanned : scan {} raw = ⟨.data, last, [], (first, tag) :: done⟩

/-- Whether a literal has these ends. -/
def endsWith (raw first last : Text) : Bool :=
  let s := scan {} raw
  s.mode = .data ∧ s.text = last ∧ s.tag = [] ∧ s.done.head?.map Prod.fst = some first

/-- Where the scan of a literal ends in data, this is its state. -/
theorem scan_of_endsWith {raw first last : Text} (h : endsWith raw first last = true) :
    scan {} raw = ⟨.data, last, [], (first, ((scan {} raw).done.headD default).2)
      :: (scan {} raw).done.tail⟩ := by
  simp only [endsWith, decide_eq_true_eq] at h
  obtain ⟨hmode, htext, htag, hfirst⟩ := h
  cases hdone : (scan {} raw).done with
  | nil =>
    rw [hdone] at hfirst
    exact absurd hfirst.symm (Option.some_ne_none first)
  | cons p rest =>
    rw [hdone] at hfirst
    obtain rfl : p.1 = first := Option.some.inj hfirst
    have hwhole : scan {} raw = ⟨(scan {} raw).mode, (scan {} raw).text, (scan {} raw).tag,
      (scan {} raw).done⟩ := rfl
    rw [hwhole, hmode, htext, htag, hdone]
    rfl

/-- A literal with these ends, from its characters. -/
def Literal.of {raw chars : Text} (hraw : raw = chars) (first last : Text)
    (h : endsWith chars first last = true) : Literal where
  raw := raw
  first := first
  last := last
  done := (scan {} chars).done.tail
  tag := ((scan {} chars).done.headD default).2
  scanned := by
    rw [hraw]
    exact scan_of_endsWith h

/-- Two literals with character data between them. -/
def Literal.between (l m : Literal) (data : Text) (hdata : '<' ∉ data) : Literal where
  raw := l.raw ++ data ++ m.raw
  first := l.first
  last := m.last
  done := l.done ++ (l.last ++ data ++ m.first, m.tag) :: m.done
  tag := l.tag
  scanned := by
    have hstart : (⟨.data, l.last ++ data, [], (l.first, l.tag) :: l.done⟩ : Scanner)
        = Scanner.after (l.last ++ data) ((l.first, l.tag) :: l.done) {} := by
      simp [Scanner.after]
    rw [scan_append, scan_append, l.scanned, scan_data hdata, hstart, scan_after, m.scanned]
    rfl

/-- The texts and values between the ends of a literal. -/
def Literal.inside (l : Literal) : List Text := valuesOf l.tag ++ shownOf l.done

/-- What is inside two literals with data between them. -/
theorem Literal.inside_between (l m : Literal) (data : Text) (hdata : '<' ∉ data) :
    (l.between m data hdata).inside = l.inside ++ (l.last ++ data ++ m.first) :: m.inside := by
  show valuesOf l.tag ++ shownOf (l.done ++ (l.last ++ data ++ m.first, m.tag) :: m.done) = _
  simp [shownOf, Literal.inside]

/-- After `t`, a reader is at `text`, and what it saw before has a property exactly when `A`. -/
def Reads (P : Text → Prop) (t text : Text) (A : Prop) : Prop :=
  ∃ done, scan {} t = ⟨.data, text, [], done⟩ ∧ ((∀ s ∈ shownOf done, P s) ↔ A)

section Reads

variable {P : Text → Prop} {t text : Text} {A : Prop}

/-- Nothing is read of the empty text. -/
theorem reads_nil : Reads P [] [] True := ⟨[], rfl, by simp [shownOf]⟩

/-- Character data. -/
theorem Reads.data (h : Reads P t text A) {raw : Text} (hraw : '<' ∉ raw) :
    Reads P (t ++ raw) (text ++ raw) A := by
  obtain ⟨done, hscan, hshown⟩ := h
  exact ⟨done, by rw [scan_append, hscan, scan_data hraw], hshown⟩

/-- A literal ends the text before it. -/
theorem Reads.literal (h : Reads P t text A) (l : Literal) (hinside : ∀ s ∈ l.inside, P s) :
    Reads P (t ++ l.raw) l.last (A ∧ P (text ++ l.first)) := by
  obtain ⟨done, hscan, hshown⟩ := h
  refine ⟨done ++ (text ++ l.first, l.tag) :: l.done, ?_, ?_⟩
  · have hstart : (⟨.data, text, [], done⟩ : Scanner) = Scanner.after text done {} := by
      simp [Scanner.after]
    rw [scan_append, hscan, hstart, scan_after, l.scanned]
    rfl
  · have hall : (∀ s ∈ shownOf (done ++ (text ++ l.first, l.tag) :: l.done), P s) ↔
        (∀ s ∈ shownOf done, P s) ∧ P (text ++ l.first) ∧ ∀ s ∈ l.inside, P s := by
      rw [shownOf, List.flatMap_append, List.flatMap_cons, List.forall_mem_append,
        List.cons_append, List.forall_mem_cons]
      exact Iff.rfl
    rw [hall, hshown, and_iff_left hinside]

/-- What the reading depends on, said in other words. -/
theorem Reads.congr (h : Reads P t text A) {B : Prop} (hiff : A ↔ B) : Reads P t text B := by
  obtain ⟨done, hscan, hshown⟩ := h
  exact ⟨done, hscan, hshown.trans hiff⟩

/-- What a reader sees of a text. -/
theorem Reads.segments (h : Reads P t text A) : (∀ s ∈ segments t, P s) ↔ A ∧ P text := by
  obtain ⟨done, hscan, hshown⟩ := h
  rw [Markup.segments, hscan, ← hshown, List.forall_mem_append, List.forall_mem_singleton]
  exact Iff.rfl

end Reads

/-! ### Trees -/

/-- The normalization of line ends. -/
def lineEnds : Text → Text
  | '\r' :: '\n' :: rest => '\n' :: lineEnds rest
  | '\r' :: rest => '\n' :: lineEnds rest
  | c :: rest => c :: lineEnds rest
  | [] => []

/-- White space in an attribute value becomes spaces. -/
def blanks (t : Text) : Text := t.map fun c => if c = '\t' ∨ c = '\n' then ' ' else c

/-- A name of letters. -/
def IsName (t : Text) : Prop := t ≠ [] ∧ ∀ c ∈ t, c.isAlpha = true

instance (t : Text) : Decidable (IsName t) :=
  decidable_of_iff (t ≠ [] ∧ t.all Char.isAlpha = true) (and_congr_right' List.all_eq_true)

/-- The name and the attributes of an element. -/
structure Tag where
  name : Text
  attrs : List (Text × Text)
  name_ok : IsName name
  keys_ok : ∀ a ∈ attrs, IsName a.1
  /-- No attribute is there twice. -/
  keys_nodup : (attrs.map Prod.fst).Nodup
  deriving DecidableEq

/-- A tag whose keys are known. -/
def Tag.ofKeys (name : Text) (attrs : List (Text × Text)) (keys : List Text)
    (hkeys : attrs.map Prod.fst = keys)
    (hok : IsName name ∧ (∀ key ∈ keys, IsName key) ∧ keys.Nodup) : Tag where
  name := name
  attrs := attrs
  name_ok := hok.1
  keys_ok := fun _ ha => hok.2.1 _ (hkeys ▸ List.mem_map_of_mem ha)
  keys_nodup := hkeys ▸ hok.2.2

/-- A text, then maybe an element and what follows it. -/
inductive Forest where
  | text (t : Text)
  | empty (t : Text) (tag : Tag) (rest : Forest)
  | element (t : Text) (tag : Tag) (children rest : Forest)
  deriving DecidableEq

/-- The value of an attribute. -/
def Tag.attr (tag : Tag) (key : Text) : Option Text :=
  (tag.attrs.find? fun a => a.1 = key).map Prod.snd

/-- The elements side by side, each with its children. -/
def Forest.elements : Forest → List (Tag × Forest)
  | .text _ => []
  | .empty _ tag rest => (tag, .text []) :: rest.elements
  | .element _ tag children rest => (tag, children) :: rest.elements

/-- The elements of a name. -/
def Forest.named (forest : Forest) (name : Text) : List (Tag × Forest) :=
  forest.elements.filter fun e => e.1.name = name

/-! ### Writing -/

section Write

variable (e : Escaper)

/-- Write the attributes, with a space in front of each. -/
def writeAttrs (attrs : List (Text × Text)) : Text :=
  attrs.flatMap fun a => ' ' :: a.1 ++ "=\"".toList ++ e.escape a.2 ++ ['"']

/-- Write what is between the brackets of a start tag. -/
def Tag.write (tag : Tag) : Text := tag.name ++ writeAttrs e tag.attrs

/-- Write a forest. -/
def Forest.write : Forest → Text
  | .text t => e.escape t
  | .empty t tag rest => e.escape t ++ '<' :: tag.write e ++ "/>".toList ++ rest.write
  | .element t tag children rest =>
    e.escape t ++ '<' :: tag.write e ++ '>' :: children.write
      ++ "</".toList ++ tag.name ++ '>' :: rest.write

end Write

/-! ### Reading -/

/-- Read character data. -/
def readText (refs : Refs) (raw : Text) : Option Text :=
  if refsClosed refs raw ∧ ¬ "]]>".toList <:+: raw then some (lineEnds (unescape refs raw))
  else none

/-- Read an attribute value. -/
def readValue (refs : Refs) (raw : Text) : Option Text :=
  if refsClosed refs raw then some (blanks (lineEnds (unescape refs raw))) else none

/-- Read attributes from the pieces of a tag between its quotes. -/
def readAttrs (refs : Refs) : List Text → Option (List (Text × Text))
  | [] => none
  | [last] => if last = [] then some [] else none
  | key :: value :: rest => do
    let key ←
      if key.head? = some ' ' ∧ key.getLast? = some '=' then some key.tail.dropLast else none
    let value ← readValue refs value
    let attrs ← readAttrs refs rest
    some ((key, value) :: attrs)

/-- The tag of a name and attributes, when they make one. -/
def makeTag (name : Text) (attrs : List (Text × Text)) : Option Tag :=
  if h : IsName name ∧ (∀ a ∈ attrs, IsName a.1) ∧ (attrs.map Prod.fst).Nodup then
    some { name, attrs, name_ok := h.1, keys_ok := h.2.1, keys_nodup := h.2.2 }
  else none

/-- Read a start tag. -/
def readTag (refs : Refs) (body : Text) : Option Tag :=
  (readAttrs refs ((body.dropWhile Char.isAlpha).splitOn '"')).bind
    (makeTag (body.takeWhile Char.isAlpha))

/-- What a tag is. -/
inductive Token where
  | start (tag : Tag)
  | empty (tag : Tag)
  | stop (name : Text)

/-- Read a tag. -/
def readToken (refs : Refs) (body : Text) : Option Token :=
  if body.head? = some '/' then
    if IsName body.tail then some (.stop body.tail) else none
  else if body.getLast? = some '/' then (readTag refs body.dropLast).map .empty
  else (readTag refs body).map .start

/-- Read the last tag that is not read yet, and the text in front of it. The stack holds the end
tags that wait for their start tags, each with what follows it. -/
def readPair (refs : Refs) (pair : Text × Text) (state : Option (List (Text × Forest) × Forest)) :
    Option (List (Text × Forest) × Forest) := do
  let (stack, forest) ← state
  let t ← readText refs pair.1
  match ← readToken refs pair.2 with
  | .empty tag => some (stack, .empty t tag forest)
  | .stop name => some ((name, forest) :: stack, .text t)
  | .start tag =>
    match stack with
    | (name, rest) :: stack =>
      if tag.name = name then some (stack, .element t tag forest rest) else none
    | [] => none

/-- Read markup, from its end to its beginning. -/
def parse (refs : Refs) (t : Text) : Option Forest := do
  let s := scan {} t
  let last ← if s.mode = .data then readText refs s.text else none
  let (stack, forest) ← s.done.foldr (readPair refs) (some ([], .text last))
  if stack = [] then some forest else none

/-! ### What is written is read back -/

section RoundTrip

variable (e : Escaper)

/-- A text as it is read back. -/
def Escaper.clean (t : Text) : Text := lineEnds (e.kept t)

/-- An attribute value as it is read back. -/
def Escaper.cleanValue (t : Text) : Text := blanks (lineEnds (e.kept t))

/-- A tag as it is read back. -/
def Tag.clean (tag : Tag) : Tag :=
  { tag with
    attrs := tag.attrs.map fun a => (a.1, e.cleanValue a.2)
    keys_ok := by
      intro a ha
      obtain ⟨b, hb, rfl⟩ := List.mem_map.mp ha
      exact tag.keys_ok b hb
    keys_nodup := by
      rw [List.map_map]
      exact tag.keys_nodup }

/-- A forest as it is read back. -/
def Forest.clean : Forest → Forest
  | .text t => .text (e.clean t)
  | .empty t tag rest => .empty (e.clean t) (tag.clean e) rest.clean
  | .element t tag children rest =>
    .element (e.clean t) (tag.clean e) children.clean rest.clean

/-- An escaped text is read back, but for what is not kept of it. -/
theorem readText_escape (t : Text) : readText e.refs (e.escape t) = some (e.clean t) := by
  have hbracket : '>' ∉ e.escape t := e.not_mem_escape (by decide)
  have hsection : ¬ "]]>".toList <:+: e.escape t := fun hin => hbracket (hin.subset (by decide))
  rw [readText, if_pos ⟨e.refsClosed_escape t, hsection⟩, e.unescape_escape, Escaper.clean]

/-- So is an escaped value of an attribute. -/
theorem readValue_escape (t : Text) : readValue e.refs (e.escape t) = some (e.cleanValue t) := by
  rw [readValue, if_pos (e.refsClosed_escape t), e.unescape_escape, Escaper.cleanValue]

/-- A letter is no delimiter. -/
theorem not_delimiter_of_isAlpha {c : Char} (h : c.isAlpha = true) :
    c ∉ ['<', '>', '"', '/', ' ', '='] := by
  intro hmem
  have hall : ∀ d ∈ ['<', '>', '"', '/', ' ', '='], d.isAlpha = false :=
    Text.forall_mem_of_all (by decide)
  rw [hall c hmem] at h
  exact Bool.false_ne_true h

/-- The pieces of written attributes. -/
theorem readAttrs_writeAttrs {attrs : List (Text × Text)} (hkeys : ∀ a ∈ attrs, IsName a.1) :
    readAttrs e.refs ((writeAttrs e attrs).splitOn '"')
      = some (attrs.map fun a => (a.1, e.cleanValue a.2)) := by
  induction attrs with
  | nil => rfl
  | cons a attrs ih =>
    have hname := hkeys a List.mem_cons_self
    -- The quotation marks are those around the values: none is in a name, and none in a value that
    -- is escaped.
    have hkey : '"' ∉ ' ' :: a.1 ++ ['='] := by
      intro hmem
      rcases List.mem_append.mp hmem with hmem | hmem
      · rcases List.mem_cons.mp hmem with heq | hmem
        · exact absurd heq (by decide)
        · exact not_delimiter_of_isAlpha (hname.2 _ hmem) (by decide)
      · exact absurd hmem (by decide)
    have hvalue : '"' ∉ e.escape a.2 := e.not_mem_escape (by decide)
    have hwhole : writeAttrs e (a :: attrs)
        = (' ' :: a.1 ++ ['=']) ++ '"' :: (e.escape a.2 ++ '"' :: writeAttrs e attrs) := by
      simp [writeAttrs]
    rw [hwhole, List.splitOn_append_cons_self_of_not_mem hkey,
      List.splitOn_append_cons_self_of_not_mem hvalue, readAttrs,
      ih fun b hb => hkeys b (List.mem_cons_of_mem _ hb), readValue_escape]
    have hends : (' ' :: a.1 ++ ['=']).head? = some ' '
        ∧ (' ' :: a.1 ++ ['=']).getLast? = some '=' :=
      -- What stands before a value is a blank, the name and `=`.
      ⟨rfl, List.getLast?_concat⟩
    rw [if_pos hends]
    show some ((List.dropLast (a.1 ++ ['=']), _) :: _) = _
    rw [List.dropLast_concat]
    rfl

/-- The tag of an element is read back. -/
theorem readTag_write (tag : Tag) : readTag e.refs (tag.write e) = some (tag.clean e) := by
  -- The name ends at the blank of the first attribute, or at the end of the tag.
  have hhead : ∀ c ∈ (writeAttrs e tag.attrs).head?, c.isAlpha = false := by
    intro c hc
    cases hattrs : tag.attrs with
    | nil =>
      rw [hattrs] at hc
      exact absurd hc (by simp [writeAttrs])
    | cons a attrs =>
      rw [hattrs] at hc
      obtain rfl : ' ' = c := by simpa [writeAttrs] using hc
      decide
  have htake : (tag.write e).takeWhile Char.isAlpha = tag.name := by
    rw [Tag.write, List.takeWhile_append_of_pos tag.name_ok.2]
    cases hrest : writeAttrs e tag.attrs with
    | nil => simp
    | cons c rest =>
      rw [List.takeWhile_cons_of_neg, List.append_nil]
      rw [hhead c (by rw [hrest]; rfl)]
      exact Bool.false_ne_true
  have hdrop : (tag.write e).dropWhile Char.isAlpha = writeAttrs e tag.attrs := by
    rw [Tag.write, List.dropWhile_append_of_pos tag.name_ok.2]
    cases hrest : writeAttrs e tag.attrs with
    | nil => rfl
    | cons c rest =>
      rw [List.dropWhile_cons_of_neg]
      rw [hhead c (by rw [hrest]; rfl)]
      exact Bool.false_ne_true
  -- The names are the same and different, so that the tag that is read is well-formed.
  have hok := And.intro tag.name_ok (And.intro (tag.clean e).keys_ok (tag.clean e).keys_nodup)
  unfold readTag
  rw [htake, hdrop, readAttrs_writeAttrs e tag.keys_ok, Option.bind_some]
  exact dif_pos hok

/-- The tag of an element begins with a letter. -/
theorem head?_write (tag : Tag) : (tag.write e).head? ≠ some '/' := by
  intro h
  obtain ⟨hne, hletters⟩ := tag.name_ok
  rw [Tag.write, List.head?_append_of_ne_nil _ hne] at h
  exact not_delimiter_of_isAlpha (hletters '/' (List.mem_of_mem_head? h)) (by decide)

/-- It ends in a letter or in a quote. -/
theorem getLast?_write (tag : Tag) : (tag.write e).getLast? ≠ some '/' := by
  intro h
  rcases List.eq_nil_or_concat' tag.attrs with hnone | ⟨attrs, a, hattrs⟩
  · rw [Tag.write, hnone, show writeAttrs e [] = [] from rfl, List.append_nil] at h
    exact not_delimiter_of_isAlpha (tag.name_ok.2 '/' (List.mem_of_getLast? h)) (by decide)
  · have hwhole : tag.write e
        = (tag.name ++ writeAttrs e attrs ++ ' ' :: a.1 ++ "=\"".toList ++ e.escape a.2)
            ++ ['"'] := by
      simp [Tag.write, hattrs, writeAttrs]
    rw [hwhole, List.getLast?_concat] at h
    exact absurd h (by decide)

/-- A start tag that was written is read back. -/
theorem readToken_start (tag : Tag) :
    readToken e.refs (tag.write e) = some (.start (tag.clean e)) := by
  rw [readToken, if_neg (head?_write e tag), if_neg (getLast?_write e tag), readTag_write]
  rfl

/-- So is the tag of an empty element. -/
theorem readToken_empty (tag : Tag) :
    readToken e.refs (tag.write e ++ ['/']) = some (.empty (tag.clean e)) := by
  have hne : tag.write e ≠ [] := by
    intro hnil
    exact tag.name_ok.1 (List.append_eq_nil_iff.mp hnil).1
  have hhead : (tag.write e ++ ['/']).head? ≠ some '/' := by
    rw [List.head?_append_of_ne_nil _ hne]
    exact head?_write e tag
  rw [readToken, if_neg hhead, if_pos List.getLast?_concat, List.dropLast_concat, readTag_write]
  rfl

/-- So is an end tag. -/
theorem readToken_stop (tag : Tag) :
    readToken e.refs ('/' :: tag.name) = some (.stop tag.name) := by
  have hhead : ('/' :: tag.name).head? = some '/' := rfl
  rw [readToken, if_pos hhead]
  exact if_pos tag.name_ok

/-- The scan of written attributes. -/
theorem scan_writeAttrs {attrs : List (Text × Text)} (hkeys : ∀ a ∈ attrs, IsName a.1)
    (s u : Text) (d : List (Text × Text)) :
    scan ⟨.tag, s, u, d⟩ (writeAttrs e attrs) = ⟨.tag, s, u ++ writeAttrs e attrs, d⟩ := by
  induction attrs generalizing u with
  | nil => rw [show writeAttrs e [] = [] from rfl, List.append_nil]; rfl
  | cons a attrs ih =>
    have hname := hkeys a List.mem_cons_self
    -- The scan stays in the tag up to the quotation mark of the value, and in the value up to the
    -- next one.
    have hkey : ∀ c ∈ ' ' :: a.1 ++ ['='], c ∉ ['<', '>', '"'] := by
      intro c hc hmem
      rcases List.mem_append.mp hc with hc | hc
      · rcases List.mem_cons.mp hc with rfl | hc
        · exact absurd hmem (by decide)
        · exact not_delimiter_of_isAlpha (hname.2 c hc)
            (List.mem_append_left ['/', ' ', '='] hmem)
      · rw [List.mem_singleton.mp hc] at hmem
        exact absurd hmem (by decide)
    have hwhole : writeAttrs e (a :: attrs)
        = (' ' :: a.1 ++ ['=']) ++ (['"'] ++ (e.escape a.2 ++ (['"'] ++ writeAttrs e attrs))) := by
      simp [writeAttrs]
    have hopen : ∀ u, scan ⟨.tag, s, u, d⟩ ['"'] = ⟨.value, s, u ++ ['"'], d⟩ := fun _ => rfl
    have hclose : ∀ u, scan ⟨.value, s, u, d⟩ ['"'] = ⟨.tag, s, u ++ ['"'], d⟩ := fun _ => rfl
    rw [hwhole, scan_append, scan_tag hkey, scan_append, hopen, scan_append,
      scan_value (e.not_mem_escape (by decide)) (e.not_mem_escape (by decide)), scan_append, hclose,
      ih fun b hb => hkeys b (List.mem_cons_of_mem _ hb)]
    simp

/-- The scan of what is between the brackets of a start tag. -/
theorem scan_write (tag : Tag) (s : Text) (d : List (Text × Text)) :
    scan ⟨.tag, s, [], d⟩ (tag.write e) = ⟨.tag, s, tag.write e, d⟩ := by
  have hname : ∀ c ∈ tag.name, c ∉ ['<', '>', '"'] := fun c hc hmem =>
    not_delimiter_of_isAlpha (tag.name_ok.2 c hc) (List.mem_append_left ['/', ' ', '='] hmem)
  rw [Tag.write, scan_append, scan_tag hname, scan_writeAttrs e tag.keys_ok]
  rfl

/-- The text after the last element. -/
def Forest.last : Forest → Text
  | .text t => t
  | .empty _ _ rest => rest.last
  | .element _ _ _ rest => rest.last

/-- The tags of a written forest, each with the text in front of it. -/
def Forest.pairs : Forest → List (Text × Text)
  | .text _ => []
  | .empty t tag rest => (e.escape t, tag.write e ++ ['/']) :: rest.pairs
  | .element t tag children rest =>
    (e.escape t, tag.write e) :: (children.pairs
      ++ (e.escape children.last, '/' :: tag.name) :: rest.pairs)

/-- The scan of a written forest finds its tags. -/
theorem scan_forest (f : Forest) (d : List (Text × Text)) :
    scan ⟨.data, [], [], d⟩ (f.write e) = ⟨.data, e.escape f.last, [], d ++ f.pairs e⟩ := by
  -- One step for each mark of the markup, and one for a text between the tags.
  have hopen : ∀ t d, scan ⟨.data, t, [], d⟩ ['<'] = ⟨.tag, t, [], d⟩ := fun _ _ => rfl
  have hclose : ∀ t g d, scan ⟨.tag, t, g, d⟩ ['>'] = ⟨.data, [], [], d ++ [(t, g)]⟩ :=
    fun _ _ _ => rfl
  have hdata : ∀ t d, scan ⟨.data, [], [], d⟩ (e.escape t) = ⟨.data, e.escape t, [], d⟩ :=
    fun t d => scan_data (e.not_mem_escape (by decide)) [] [] d
  induction f generalizing d with
  | text t => rw [Forest.write, hdata, Forest.pairs, List.append_nil]; rfl
  | empty t tag rest ih =>
    -- A tag without children: its slash belongs to the text of the tag.
    have hwhole : (Forest.empty t tag rest).write e
        = e.escape t ++ (['<'] ++ (tag.write e ++ (['/'] ++ (['>'] ++ rest.write e)))) := by
      simp [Forest.write]
    have hslash : ∀ t g d, scan ⟨.tag, t, g, d⟩ ['/'] = ⟨.tag, t, g ++ ['/'], d⟩ :=
      fun _ _ _ => rfl
    rw [hwhole, scan_append, hdata, scan_append, hopen, scan_append, scan_write, scan_append,
      hslash, scan_append, hclose, ih]
    simp [Forest.last, Forest.pairs]
  | element t tag children rest ihc ihr =>
    have hwhole : (Forest.element t tag children rest).write e
        = e.escape t ++ (['<'] ++ (tag.write e ++ (['>'] ++ (children.write e ++ (['<'] ++
          (('/' :: tag.name) ++ (['>'] ++ rest.write e))))))) := by
      simp [Forest.write]
    -- The closing tag is a tag whose text is a slash and the name.
    have hstop : ∀ c ∈ '/' :: tag.name, c ∉ ['<', '>', '"'] := by
      intro c hc hmem
      rcases List.mem_cons.mp hc with rfl | hc
      · exact absurd hmem (by decide)
      · exact not_delimiter_of_isAlpha (tag.name_ok.2 c hc)
          (List.mem_append_left ['/', ' ', '='] hmem)
    rw [hwhole, scan_append, hdata, scan_append, hopen, scan_append, scan_write, scan_append,
      hclose, scan_append, ihc, scan_append, hopen, scan_append, scan_tag hstop, scan_append,
      hclose, ihr]
    simp [Forest.last, Forest.pairs]

/-- Reading the tags of a forest from their end builds the forest. -/
theorem foldr_readPair (f : Forest) (stack : List (Text × Forest)) :
    (f.pairs e).foldr (readPair e.refs) (some (stack, .text (e.clean f.last)))
      = some (stack, f.clean e) := by
  induction f generalizing stack with
  | text t => rfl
  | empty t tag rest ih =>
    rw [Forest.pairs, List.foldr_cons, Forest.last, ih, readPair]
    simp only [readText_escape, readToken_empty, Option.bind_eq_bind, Option.bind_some]
    rfl
  | element t tag children rest ihc ihr =>
    rw [Forest.pairs, List.foldr_cons, List.foldr_append, List.foldr_cons, Forest.last, ihr]
    have hstop : readPair e.refs (e.escape children.last, '/' :: tag.name)
        (some (stack, rest.clean e))
          = some ((tag.name, rest.clean e) :: stack, .text (e.clean children.last)) := by
      rw [readPair]
      simp only [readText_escape, readToken_stop, Option.bind_eq_bind, Option.bind_some]
    rw [hstop, ihc, readPair]
    simp only [readText_escape, readToken_start, Option.bind_eq_bind, Option.bind_some]
    exact if_pos rfl

/-- A written forest is parsed to the forest. -/
theorem parse_write (f : Forest) : parse e.refs (f.write e) = some (f.clean e) := by
  have hscan : scan {} (f.write e) = ⟨.data, e.escape f.last, [], f.pairs e⟩ := scan_forest e f []
  rw [parse, hscan]
  simp only [if_true, readText_escape, Option.bind_eq_bind, Option.bind_some, foldr_readPair]

/-! ### What a reader sees of a written forest -/

/-- The texts and the attribute values of a forest. -/
def Forest.shown : Forest → List Text
  | .text t => [t]
  | .empty t tag rest => t :: (tag.attrs.map Prod.snd ++ rest.shown)
  | .element t tag children rest =>
    t :: (tag.attrs.map Prod.snd ++ (children.shown ++ rest.shown))

/-- The values between the quotes of written attributes. -/
theorem oddPieces_writeAttrs {attrs : List (Text × Text)} (hkeys : ∀ a ∈ attrs, IsName a.1)
    {front back : Text} (hfront : '"' ∉ front) (hback : '"' ∉ back) :
    oddPieces ((front ++ writeAttrs e attrs ++ back).splitOn '"')
      = attrs.map fun a => e.escape a.2 := by
  induction attrs generalizing front with
  | nil =>
    have hnone : '"' ∉ front ++ writeAttrs e [] ++ back := by
      simp only [show writeAttrs e [] = [] from rfl, List.append_nil, List.mem_append, not_or]
      exact ⟨hfront, hback⟩
    rw [List.splitOn_eq_singleton hnone]
    rfl
  | cons a attrs ih =>
    have hname := hkeys a List.mem_cons_self
    -- The pieces alternate: names with `=`, values, names again, as no name and no value holds a
    -- quotation mark.
    have hkey : '"' ∉ front ++ (' ' :: a.1 ++ ['=']) := by
      simp only [List.mem_append, List.mem_cons, List.not_mem_nil, or_false, not_or]
      exact ⟨hfront, ⟨by decide, fun hmem => not_delimiter_of_isAlpha (hname.2 _ hmem) (by decide)⟩,
        by decide⟩
    have hvalue : '"' ∉ e.escape a.2 := e.not_mem_escape (by decide)
    have hwhole : front ++ writeAttrs e (a :: attrs) ++ back = (front ++ (' ' :: a.1 ++ ['=']))
        ++ '"' :: (e.escape a.2 ++ '"' :: ([] ++ writeAttrs e attrs ++ back)) := by
      simp [writeAttrs]
    rw [hwhole, List.splitOn_append_cons_self_of_not_mem hkey,
      List.splitOn_append_cons_self_of_not_mem hvalue, oddPieces,
      ih (fun b hb => hkeys b (List.mem_cons_of_mem _ hb)) List.not_mem_nil]
    rfl

/-- The values of a written tag, with something at its end that holds no quote. -/
theorem valuesOf_write (tag : Tag) (back : Text) (hback : '"' ∉ back) :
    valuesOf (tag.write e ++ back) = tag.attrs.map fun a => e.escape a.2 := by
  refine oddPieces_writeAttrs e tag.keys_ok ?_ hback
  exact fun hmem => not_delimiter_of_isAlpha (tag.name_ok.2 _ hmem) (by decide)

/-- The segments of the tags of a written forest. -/
theorem flatMap_pairs (f : Forest) :
    (f.pairs e).flatMap (fun p => p.1 :: valuesOf p.2) ++ [e.escape f.last]
      = f.shown.map e.escape := by
  -- By induction on the forest: its text, the values of its tag, its children and what follows.
  induction f with
  | text t => rfl
  | empty t tag rest ih =>
    have hvalues := valuesOf_write e tag ['/'] (by decide)
    rw [Forest.pairs, List.flatMap_cons, Forest.last, List.append_assoc, ih, hvalues]
    simp [Forest.shown]
  | element t tag children rest ihc ihr =>
    have hvalues := valuesOf_write e tag [] List.not_mem_nil
    rw [List.append_nil] at hvalues
    -- A closing tag has no value.
    have hstop : valuesOf ('/' :: tag.name) = [] := by
      have hquote : '"' ∉ '/' :: tag.name := by
        intro hmem
        rcases List.mem_cons.mp hmem with heq | hmem
        · exact absurd heq (by decide)
        · exact not_delimiter_of_isAlpha (tag.name_ok.2 _ hmem) (by decide)
      rw [valuesOf, List.splitOn_eq_singleton hquote]
      rfl
    have hwhole : ((Forest.element t tag children rest).pairs e).flatMap
        (fun p => p.1 :: valuesOf p.2) ++ [e.escape (Forest.element t tag children rest).last]
          = e.escape t :: (valuesOf (tag.write e)
            ++ ((children.pairs e).flatMap (fun p => p.1 :: valuesOf p.2)
              ++ [e.escape children.last] ++ (valuesOf ('/' :: tag.name)
              ++ ((rest.pairs e).flatMap (fun p => p.1 :: valuesOf p.2)
                ++ [e.escape rest.last])))) := by
      simp [Forest.pairs, Forest.last]
    rw [hwhole, hvalues, hstop, ihc, ihr]
    simp [Forest.shown]

/-- The segments of a forest that is written after some tags. -/
theorem segments_append_write {front : Text} {d : List (Text × Text)}
    (hfront : scan {} front = ⟨.data, [], [], d⟩) (f : Forest) :
    segments (front ++ f.write e)
      = d.flatMap (fun p => p.1 :: valuesOf p.2) ++ f.shown.map e.escape := by
  rw [segments, scan_append, hfront, scan_forest]
  show (d ++ f.pairs e).flatMap _ ++ [e.escape f.last] = _
  rw [List.flatMap_append, List.append_assoc, flatMap_pairs]

end RoundTrip

/-! ### XML documents -/

/-- The references that XML predefines. -/
def xmlRefs : Refs :=
  [("amp;".toList, '&'), ("lt;".toList, '<'), ("gt;".toList, '>'), ("quot;".toList, '"'),
    ("apos;".toList, '\'')]

/-- The characters that XML 1.0 allows. -/
def isXmlChar (c : Char) : Bool :=
  c = '\t' ∨ c = '\n' ∨ c = '\r' ∨ (0x20 ≤ c.toNat ∧ c.toNat ≠ 0xFFFE ∧ c.toNat ≠ 0xFFFF)

/-- The declaration of a document in UTF-8. -/
def declaration : Text := "<?xml version=\"1.0\" encoding=\"UTF-8\"?>".toList

/-- White space only. -/
def isBlank (t : Text) : Bool := t.all fun c => c = ' ' ∨ c = '\t' ∨ c = '\n'

/-- The root element of a forest that is a document, with its children. -/
def rootOf : Forest → Option (Tag × Forest)
  | .element before tag children (.text after) =>
    if isBlank before ∧ isBlank after then some (tag, children) else none
  | _ => none

/-- Read a document with a declaration. -/
def readDocument (t : Text) : Option (Tag × Forest) :=
  if declaration <+: t then (parse xmlRefs (t.drop declaration.length)).bind rootOf else none

/-- A document of allowed characters whose elements nest, with one root. -/
def WellFormed (t : Text) : Prop := (∀ c ∈ t, isXmlChar c = true) ∧ (readDocument t).isSome = true

section Document

variable (e : Escaper)

/-- A written document is read back. -/
theorem readDocument_write (hrefs : e.refs = xmlRefs) {before after : Text}
    (hbefore : isBlank (e.clean before) = true) (hafter : isBlank (e.clean after) = true)
    (tag : Tag) (children : Forest) :
    readDocument (declaration ++ (Forest.element before tag children (.text after)).write e)
      = some (tag.clean e, children.clean e) := by
  rw [readDocument, if_pos (List.prefix_append _ _), List.drop_left, ← hrefs, parse_write,
    Option.bind_some]
  exact if_pos ⟨hbefore, hafter⟩

/-- The characters of a text that all have a property. -/
def Escaper.AllOf (p : Char → Prop) (t : Text) : Prop := ∀ c ∈ e.escape t, p c

/-- What holds of letters and marks holds of written attributes exactly when it holds of their
values. -/
theorem forall_mem_writeAttrs {p : Char → Prop} (hletter : ∀ c, c.isAlpha = true → p c)
    (hmarks : ∀ c ∈ "<>/=\" ".toList, p c) {attrs : List (Text × Text)}
    (hkeys : ∀ a ∈ attrs, IsName a.1) :
    (∀ c ∈ writeAttrs e attrs, p c) ↔ ∀ a ∈ attrs, e.AllOf p a.2 := by
  constructor
  · intro h a ha c hc
    refine h c (List.mem_flatMap.mpr ⟨a, ha, ?_⟩)
    exact List.mem_append_left _ (List.mem_append_right _ hc)
  · intro h c hc
    obtain ⟨a, ha, hc⟩ := List.mem_flatMap.mp hc
    simp only [List.mem_append, List.mem_cons, List.cons_append] at hc
    rcases hc with rfl | ((hc | hc) | hc) | hc
    · exact hmarks _ (by decide)
    · exact hletter c ((hkeys a ha).2 c hc)
    · exact hmarks c ((show "=\"".toList ⊆ "<>/=\" ".toList by decide) hc)
    · exact h a ha c hc
    · exact hmarks c ((show ['"'] ⊆ "<>/=\" ".toList by decide) (by simpa using hc))

/-- A written forest has only characters of a kind exactly when its texts and values have, if the
markup has. -/
theorem forall_mem_write {p : Char → Prop} (hletter : ∀ c, c.isAlpha = true → p c)
    (hmarks : ∀ c ∈ "<>/=\" ".toList, p c) (f : Forest) :
    (∀ c ∈ f.write e, p c) ↔ ∀ t ∈ f.shown, e.AllOf p t := by
  -- A tag is its name, its marks and its attributes, and names are letters.
  have htag : ∀ tag : Tag, (∀ c ∈ tag.write e, p c) ↔ ∀ a ∈ tag.attrs, e.AllOf p a.2 := by
    intro tag
    rw [Tag.write, List.forall_mem_append, forall_mem_writeAttrs e hletter hmarks tag.keys_ok]
    exact and_iff_right fun c hc => hletter c (tag.name_ok.2 c hc)
  have hopen : p '<' := hmarks _ (by decide)
  have hclose : p '>' := hmarks _ (by decide)
  have hslash : p '/' := hmarks _ (by decide)
  -- By induction on the forest, each part of the written text against the shown texts of that part.
  induction f with
  | text t => simp [Forest.write, Forest.shown, Escaper.AllOf]
  | empty t tag rest ih =>
    have hwhole : (Forest.empty t tag rest).write e
        = e.escape t ++ (['<'] ++ (tag.write e ++ (['/'] ++ (['>'] ++ rest.write e)))) := by
      simp [Forest.write]
    have hshown : (∀ s ∈ (Forest.empty t tag rest).shown, e.AllOf p s) ↔
        e.AllOf p t ∧ (∀ a ∈ tag.attrs, e.AllOf p a.2) ∧ ∀ s ∈ rest.shown, e.AllOf p s := by
      rw [Forest.shown, List.forall_mem_cons, List.forall_mem_append, List.forall_mem_map]
    rw [hwhole, hshown, ← show (∀ c ∈ rest.write e, p c) ↔ _ from ih, ← htag]
    simp only [List.forall_mem_append, List.forall_mem_singleton, hopen, hclose, hslash, true_and]
    exact Iff.rfl
  | element t tag children rest ihc ihr =>
    have hname : ∀ c ∈ tag.name, p c := fun c hc => hletter c (tag.name_ok.2 c hc)
    have hwhole : (Forest.element t tag children rest).write e
        = e.escape t ++ (['<'] ++ (tag.write e ++ (['>'] ++ (children.write e ++ (['<'] ++
          (['/'] ++ (tag.name ++ (['>'] ++ rest.write e)))))))) := by
      simp [Forest.write]
    have hshown : (∀ s ∈ (Forest.element t tag children rest).shown, e.AllOf p s) ↔
        e.AllOf p t ∧ (∀ a ∈ tag.attrs, e.AllOf p a.2) ∧ (∀ s ∈ children.shown, e.AllOf p s) ∧
          ∀ s ∈ rest.shown, e.AllOf p s := by
      rw [Forest.shown, List.forall_mem_cons, List.forall_mem_append, List.forall_mem_append,
        List.forall_mem_map]
    rw [hwhole, hshown, ← show (∀ c ∈ children.write e, p c) ↔ _ from ihc,
      ← show (∀ c ∈ rest.write e, p c) ↔ _ from ihr, ← htag]
    simp only [List.forall_mem_append, List.forall_mem_singleton, hopen, hclose, hslash, true_and]
    rw [and_iff_right hname]
    exact Iff.rfl

end Document

end Markup
