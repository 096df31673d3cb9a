import Gabriel.Lib.Text

/-!
# `Gabriel.Lib.Shell`: how a POSIX shell cuts a text into words

Token recognition, quoting and quote removal of the POSIX shell, as a machine that reads one
character after the other. What a shell makes of a parameter, a command substitution, a pattern or a
leading tilde depends on more than the text, so the machine stops there: `tokenise` is defined for
texts whose words are what stands in them. `simpleCommand?` is the list of words of a text without
operators and line ends.

Quoted texts and plain words are read as they stand, and words come one after the other (`ReadsAs`).
For the converse, a text that is read as the word it is has no other characters: quoting would have
to give back the quotes that it drops, and what it drops never comes back (`Lag`). The theorems:

* `run_word`, `run_quoted`: a plain word, and a text in single quotes, are read as they stand.
* `readsAs_append`, `readsAs_intercalate`: the words of texts with separators between them.
* `simpleCommand?_of_readsAs`: such a text is a simple command.
* `off_run`, `lag_step`: a word that went wrong stays wrong, by the steps of the machine.
* `ordinary_of_words`, `plainWord_of_words`: a text that is read as the word it is, is a plain word.
-/

set_option autoImplicit false

namespace Shell

open Text

/-- A token, after quote removal. An operator of two characters is two tokens. -/
inductive Token where
  | word (text : Text)
  | operator (c : Char)
  | newline
  deriving DecidableEq

/-- Where in the quoting a character stands. -/
inductive Mode where
  | plain
  /-- After a backslash. -/
  | escape
  | single
  | double
  /-- After a backslash in double quotes. -/
  | doubleEscape
  | comment
  deriving DecidableEq

/-- The mode, the word that is being read and the tokens before it. -/
structure State where
  mode : Mode
  word : Option Text
  tokens : List Token
  deriving DecidableEq

namespace State

/-- Before the first character. -/
def start : State := ⟨.plain, none, []⟩

/-- End the word that is being read. -/
def endWord (s : State) : State :=
  match s.word with
  | none => s
  | some text => { s with word := none, tokens := s.tokens ++ [.word text] }

/-- Add a token. -/
def emit (s : State) (token : Token) : State := { s with tokens := s.tokens ++ [token] }

/-- Add to the word that is being read, or begin one. -/
def push (s : State) (text : Text) (mode : Mode) : State :=
  { s with mode, word := some (s.word.getD [] ++ text) }

end State

/-- What separates words. -/
def blanks : Text := [' ', '\t']

/-- What ends a simple command. -/
def operators : Text := ['|', '&', ';', '<', '>', '(', ')']

/-- Parameters and substitutions, and the characters of patterns. -/
def expansions : Text := ['$', (Char.ofNat 96), '*', '?', '[']

/-- The characters that a backslash keeps its meaning before, in double quotes. -/
def doubleEscapable : Text := ['$', (Char.ofNat 96), '"', '\\']

/-- Read one character. -/
def step (s : State) (c : Char) : Option State :=
  match s.mode with
  | .plain =>
    if c = '\\' then some { s with mode := .escape }
    else if c = '\'' then some (s.push [] .single)
    else if c = '"' then some (s.push [] .double)
    else if c ∈ blanks then some s.endWord
    else if c = '\n' then some (s.endWord.emit .newline)
    else if c ∈ operators then some (s.endWord.emit (.operator c))
    else if c ∈ expansions then none
    else if c = '~' ∧ s.word = none then none
    else if c = '#' ∧ s.word = none then some { s with mode := .comment }
    else some (s.push [c] .plain)
  -- A backslash and a line end are no part of the text.
  | .escape => if c = '\n' then some { s with mode := .plain } else some (s.push [c] .plain)
  | .single => if c = '\'' then some { s with mode := .plain } else some (s.push [c] .single)
  | .double =>
    if c = '"' then some { s with mode := .plain }
    else if c = '\\' then some { s with mode := .doubleEscape }
    else if c = '$' ∨ c = Char.ofNat 96 then none
    else some (s.push [c] .double)
  | .doubleEscape =>
    if c = '\n' then some { s with mode := .double }
    else if c ∈ doubleEscapable then some (s.push [c] .double)
    else some (s.push ['\\', c] .double)
  | .comment =>
    if c = '\n' then some ({ s with mode := .plain }.emit .newline) else some s

/-- Read a text. -/
def run (s : State) (t : Text) : Option State := t.foldlM step s

/-- The tokens at the end of the text; none when a quotation is open. -/
def finish (s : State) : Option (List Token) :=
  if s.mode = .plain ∨ s.mode = .comment then some s.endWord.tokens else none

/-- The tokens of a text. -/
def tokenise (t : Text) : Option (List Token) := (run .start t).bind finish

/-- The text of a word. -/
def Token.text? : Token → Option Text
  | .word text => some text
  | _ => none

/-- The words of a text that is one simple command. -/
def simpleCommand? (t : Text) : Option (List Text) := (tokenise t).bind fun l => l.mapM Token.text?

/-- Reading nothing leaves the state. -/
@[simp] theorem run_nil (s : State) : run s [] = some s := rfl

/-- Reading a character and then the rest. -/
theorem run_cons (s : State) (c : Char) (t : Text) :
    run s (c :: t) = (step s c).bind fun s' => run s' t := rfl

/-- Reading a text and then another one. -/
theorem run_append (s : State) (t u : Text) : run s (t ++ u) = (run s t).bind fun s' => run s' u :=
  List.foldlM_append

/-- Words alone are a simple command. -/
theorem mapM_text?_words (words : List Text) :
    (words.map Token.word).mapM Token.text? = some words := by
  induction words with
  | nil => rfl
  | cons word words ih =>
    rw [List.map_cons, List.mapM_cons, ih]
    rfl

/-- The tokens of a simple command are its words. -/
theorem simpleCommand?_eq_some_iff {t : Text} {words : List Text} :
    simpleCommand? t = some words ↔ tokenise t = some (words.map Token.word) := by
  -- The words of the tokens exist when all tokens are words, by induction on the tokens.
  constructor
  · intro h
    obtain ⟨tokens, htokens, hwords⟩ := Option.bind_eq_some_iff.mp h
    rw [htokens, Option.some.injEq]
    clear h htokens
    induction tokens generalizing words with
    | nil =>
      obtain rfl : [] = words := Option.some.inj hwords
      rfl
    | cons token tokens ih =>
      rw [List.mapM_cons] at hwords
      obtain ⟨text, htext, hrest⟩ := Option.bind_eq_some_iff.mp hwords
      obtain ⟨texts, htexts, hcons⟩ := Option.bind_eq_some_iff.mp hrest
      obtain rfl : text :: texts = words := Option.some.inj hcons
      cases token with
      | word _ =>
        obtain rfl := Option.some.inj htext
        rw [ih htexts]
        rfl
      | operator _ => exact nomatch htext
      | newline => exact nomatch htext
  · intro h
    rw [simpleCommand?, h]
    exact mapM_text?_words words

/-! ### Words -/

/-- A character that means nothing to the shell inside a word. -/
def Ordinary (c : Char) : Prop :=
  c ∉ ['\\', '\'', '"'] ∧ c ∉ blanks ∧ c ≠ '\n' ∧ c ∉ operators ∧ c ∉ expansions

instance (c : Char) : Decidable (Ordinary c) := inferInstanceAs (Decidable (_ ∧ _ ∧ _ ∧ _ ∧ _))

/-- A text that is a word as it stands. -/
def PlainWord (t : Text) : Prop :=
  t ≠ [] ∧ (∀ c ∈ t, Ordinary c) ∧ t.head? ≠ some '~' ∧ t.head? ≠ some '#'

instance (t : Text) : Decidable (PlainWord t) :=
  letI : Decidable (∀ c ∈ t, Ordinary c) := List.decidableBAll _ t
  inferInstanceAs (Decidable (_ ∧ _ ∧ _ ∧ _))

/-- A text in single quotes. A quote in the text stands outside of them, behind a backslash. -/
def quoted (t : Text) : Text :=
  '\'' :: t.flatMap (fun c => if c = '\'' then ['\'', '\\', '\'', '\''] else [c]) ++ ['\'']

/-- An ordinary character is added to the word. -/
theorem step_ordinary {s : State} {c : Char} (hmode : s.mode = .plain) (hc : Ordinary c)
    (hfirst : s.word = none → c ≠ '~' ∧ c ≠ '#') : step s c = some (s.push [c] .plain) := by
  obtain ⟨hquote, hblank, hline, hoperator, hexpansion⟩ := hc
  simp only [List.mem_cons, List.not_mem_nil, or_false, not_or] at hquote
  have htilde : ¬ (c = '~' ∧ s.word = none) := fun h => (hfirst h.2).1 h.1
  have hhash : ¬ (c = '#' ∧ s.word = none) := fun h => (hfirst h.2).2 h.1
  rw [step, hmode]
  dsimp only
  rw [if_neg hquote.1, if_neg hquote.2.1, if_neg hquote.2.2, if_neg hblank, if_neg hline,
    if_neg hoperator, if_neg hexpansion, if_neg htilde, if_neg hhash]

/-- Ordinary characters are added to the word. -/
theorem run_ordinary {text : Text} (t : Text) (ht : ∀ c ∈ t, Ordinary c) (tokens : List Token) :
    run ⟨.plain, some text, tokens⟩ t = some ⟨.plain, some (text ++ t), tokens⟩ := by
  induction t generalizing text with
  | nil => rw [List.append_nil, run_nil]
  | cons c t ih =>
    have hstep : step ⟨.plain, some text, tokens⟩ c = some ⟨.plain, some (text ++ [c]), tokens⟩ :=
      step_ordinary rfl (ht c List.mem_cons_self) nofun
    rw [run_cons, hstep, Option.bind_some, ih fun d hd => ht d (List.mem_cons_of_mem _ hd)]
    rw [List.append_assoc]
    rfl

/-- A plain word is read as it stands. -/
theorem run_word {t : Text} (ht : PlainWord t) (tokens : List Token) :
    run ⟨.plain, none, tokens⟩ t = some ⟨.plain, some t, tokens⟩ := by
  obtain ⟨hne, hall, htilde, hhash⟩ := ht
  cases t with
  | nil => exact absurd rfl hne
  | cons c t =>
    have hfirst : c ≠ '~' ∧ c ≠ '#' :=
      ⟨fun h => htilde (congrArg some h), fun h => hhash (congrArg some h)⟩
    have hstep : step ⟨.plain, none, tokens⟩ c = some ⟨.plain, some [c], tokens⟩ :=
      step_ordinary rfl (hall c List.mem_cons_self) fun _ => hfirst
    rw [run_cons, hstep, Option.bind_some,
      run_ordinary t fun d hd => hall d (List.mem_cons_of_mem _ hd)]
    rfl

/-- What is in single quotes is read as it stands. -/
theorem run_quoted (t : Text) (word : Option Text) (tokens : List Token) :
    run ⟨.plain, word, tokens⟩ (quoted t) = some ⟨.plain, some (word.getD [] ++ t), tokens⟩ := by
  -- Inside the quotes each character is taken as it stands, a quote by leaving them for it.
  have hinside : ∀ text : Text,
      run ⟨.single, some text, tokens⟩
          (t.flatMap fun c => if c = '\'' then ['\'', '\\', '\'', '\''] else [c])
        = some ⟨.single, some (text ++ t), tokens⟩ := by
    induction t with
    | nil =>
      intro text
      rw [List.append_nil]
      rfl
    | cons c t ih =>
      intro text
      rw [List.flatMap_cons, run_append]
      by_cases hc : c = '\''
      · -- The quotation ends, the quote is escaped, and the next one begins.
        have hquote : run ⟨.single, some text, tokens⟩ ['\'', '\\', '\'', '\'']
            = some ⟨.single, some (text ++ ['\'']), tokens⟩ := by
          show some (State.push (State.push _ _ _) _ _) = _
          simp [State.push]
        rw [if_pos hc, hquote, Option.bind_some, ih, hc, List.append_assoc]
        rfl
      · have hchar : run ⟨.single, some text, tokens⟩ [c]
            = some ⟨.single, some (text ++ [c]), tokens⟩ := by
          rw [run_cons, step]
          dsimp only
          rw [if_neg hc]
          rfl
        rw [if_neg hc, hchar, Option.bind_some, ih, List.append_assoc]
        rfl
  -- The opening quote begins a word when there is none.
  have hopen : step ⟨.plain, word, tokens⟩ '\''
      = some ⟨.single, some (word.getD []), tokens⟩ := by
    show some (State.push _ _ _) = _
    simp [State.push]
  rw [quoted, List.cons_append, run_cons, hopen, Option.bind_some, run_append, hinside,
    Option.bind_some]
  rfl

/-! ### Words one after the other -/

/-- A text is read as some words, of which the last one is not ended yet. -/
def ReadsAs (t : Text) (words : List Text) : Prop :=
  ∃ first last, words = first ++ [last] ∧ ∀ tokens,
    run ⟨.plain, none, tokens⟩ t = some ⟨.plain, some last, tokens ++ first.map .word⟩

/-- A text that ends a word. -/
def Separates (t : Text) : Prop :=
  ∀ word tokens, run ⟨.plain, some word, tokens⟩ t = some ⟨.plain, none, tokens ++ [.word word]⟩

/-- A plain word reads as itself. -/
theorem readsAs_word {t : Text} (h : PlainWord t) : ReadsAs t [t] := by
  refine ⟨[], t, rfl, ?_⟩
  intro tokens
  rw [run_word h, List.map_nil, List.append_nil]

/-- A quoted text reads as the text. -/
theorem readsAs_quoted (t : Text) : ReadsAs (quoted t) [t] := by
  refine ⟨[], t, rfl, ?_⟩
  intro tokens
  rw [run_quoted, List.map_nil, List.append_nil]
  rfl

/-- A blank separates, and so do a blank, a continued line and more blanks. -/
theorem separates_blank : Separates [' '] := fun _ _ => rfl

/-- A continued line separates two words. -/
theorem separates_continued : Separates [' ', '\\', '\n', ' ', ' '] := fun _ _ => rfl

/-- The words of two texts with a separator between them. -/
theorem readsAs_append {joiner t u : Text} {ts us : List Text} (hjoiner : Separates joiner)
    (ht : ReadsAs t ts) (hu : ReadsAs u us) : ReadsAs (t ++ joiner ++ u) (ts ++ us) := by
  obtain ⟨first, last, rfl, hfirst⟩ := ht
  obtain ⟨first', last', rfl, hlast⟩ := hu
  refine ⟨first ++ last :: first', last', by simp, ?_⟩
  intro tokens
  rw [run_append, run_append, hfirst, Option.bind_some, hjoiner, Option.bind_some, hlast]
  simp

/-- The words of texts with a separator between each two. -/
theorem readsAs_intercalate {joiner : Text} (hjoiner : Separates joiner) {parts : List Text}
    {words : List (List Text)} (h : List.Forall₂ ReadsAs parts words) (hne : parts ≠ []) :
    ReadsAs (List.intercalate joiner parts) words.flatten := by
  induction h with
  | nil => exact absurd rfl hne
  | @cons part ws parts words hpart hrest ih =>
    by_cases hnil : parts = []
    · subst hnil
      obtain rfl := List.forall₂_nil_left_iff.mp hrest
      rw [List.intercalate_singleton, List.flatten_cons, List.flatten_nil, List.append_nil]
      exact hpart
    · rw [List.intercalate_cons_of_ne_nil hnil, List.flatten_cons]
      exact readsAs_append hjoiner hpart (ih hnil)

/-- Such a text is a simple command. -/
theorem simpleCommand?_of_readsAs {t : Text} {words : List Text} (h : ReadsAs t words) :
    simpleCommand? t = some words := by
  obtain ⟨first, last, rfl, hrun⟩ := h
  have hstart : run .start t = some ⟨.plain, some last, first.map .word⟩ := hrun []
  rw [simpleCommand?_eq_some_iff, tokenise, hstart, List.map_append]
  rfl

/-! ### A word that is read as it stands -/

/-- What a character does outside of quotes. -/
inductive PlainStep (s : State) (c : Char) : State → Prop
  | escape (hc : c = '\\') : PlainStep s c { s with mode := .escape }
  | single (hc : c = '\'') : PlainStep s c (s.push [] .single)
  | double (hc : c = '"') : PlainStep s c (s.push [] .double)
  | blank (hc : c ∈ blanks) : PlainStep s c s.endWord
  | newline : PlainStep s c (s.endWord.emit .newline)
  | operator : PlainStep s c (s.endWord.emit (.operator c))
  | comment (hword : s.word = none) : PlainStep s c { s with mode := .comment }
  | ordinary (hc : Ordinary c) (hfirst : s.word = none → c ≠ '~' ∧ c ≠ '#') :
      PlainStep s c (s.push [c] .plain)

/-- Outside of quotes a step is one of these. -/
theorem plainStep_of_step {s s' : State} {c : Char} (hmode : s.mode = .plain)
    (h : step s c = some s') : PlainStep s c s' := by
  rw [step, hmode] at h
  dsimp only at h
  -- In the order of the conditions of `step`: the first that holds decides, and the rest is
  -- ordinary.
  by_cases h1 : c = '\\'
  · rw [if_pos h1] at h
    exact Option.some.inj h ▸ .escape h1
  rw [if_neg h1] at h
  by_cases h2 : c = '\''
  · rw [if_pos h2] at h
    exact Option.some.inj h ▸ .single h2
  rw [if_neg h2] at h
  by_cases h3 : c = '"'
  · rw [if_pos h3] at h
    exact Option.some.inj h ▸ .double h3
  rw [if_neg h3] at h
  by_cases h4 : c ∈ blanks
  · rw [if_pos h4] at h
    exact Option.some.inj h ▸ .blank h4
  rw [if_neg h4] at h
  by_cases h5 : c = '\n'
  · rw [if_pos h5] at h
    exact Option.some.inj h ▸ .newline
  rw [if_neg h5] at h
  by_cases h6 : c ∈ operators
  · rw [if_pos h6] at h
    exact Option.some.inj h ▸ .operator
  rw [if_neg h6] at h
  by_cases h7 : c ∈ expansions
  · rw [if_pos h7] at h
    exact nomatch h
  rw [if_neg h7] at h
  -- A `~` or a `#` is special at the start of a word only.
  by_cases h8 : c = '~' ∧ s.word = none
  · rw [if_pos h8] at h
    exact nomatch h
  rw [if_neg h8] at h
  by_cases h9 : c = '#' ∧ s.word = none
  · rw [if_pos h9] at h
    exact Option.some.inj h ▸ .comment h9.2
  rw [if_neg h9] at h
  have hc : Ordinary c := by
    refine ⟨?_, h4, h5, h6, h7⟩
    simp only [List.mem_cons, List.not_mem_nil, or_false, not_or]
    exact ⟨h1, h2, h3⟩
  exact Option.some.inj h ▸ .ordinary hc fun hword =>
    ⟨fun hc => h8 ⟨hc, hword⟩, fun hc => h9 ⟨hc, hword⟩⟩

/-- What a character can do to the state. -/
inductive Change (s : State) : State → Prop
  | push (text : Text) (mode : Mode) (hs : s.mode ≠ .comment) (hmode : mode ≠ .comment) :
      Change s (s.push text mode)
  | enter (mode : Mode) (hs : s.mode ≠ .comment) (hmode : mode = .comment → s.word = none) :
      Change s { s with mode }
  | endWord (hs : s.mode ≠ .comment) : Change s s.endWord
  | emit (token : Token) (hs : s.mode ≠ .comment) : Change s (s.endWord.emit token)
  | skip (hs : s.mode = .comment) : Change s s
  | endComment (hs : s.mode = .comment) : Change s ({ s with mode := .plain }.emit .newline)

/-- Every step is one of these. -/
theorem change_step {s s' : State} {c : Char} (h : step s c = some s') : Change s s' := by
  -- One case for each mode; behind the mode each step enters, pushes or ends something.
  cases hmode : s.mode with
  | plain =>
    have hs : s.mode ≠ .comment := fun hs => nomatch hmode.symm.trans hs
    cases plainStep_of_step hmode h with
    | escape _ => exact .enter .escape hs nofun
    | single _ => exact .push [] .single hs nofun
    | double _ => exact .push [] .double hs nofun
    | blank _ => exact .endWord hs
    | newline => exact .emit .newline hs
    | operator => exact .emit (.operator c) hs
    | comment hword => exact .enter .comment hs fun _ => hword
    | ordinary _ _ => exact .push [c] .plain hs nofun
  | escape =>
    have hs : s.mode ≠ .comment := fun hs => nomatch hmode.symm.trans hs
    rw [step, hmode] at h
    dsimp only at h
    split_ifs at h
    all_goals obtain rfl := Option.some.inj h
    · exact .enter .plain hs nofun
    · exact .push [c] .plain hs nofun
  | single =>
    have hs : s.mode ≠ .comment := fun hs => nomatch hmode.symm.trans hs
    rw [step, hmode] at h
    dsimp only at h
    split_ifs at h
    all_goals obtain rfl := Option.some.inj h
    · exact .enter .plain hs nofun
    · exact .push [c] .single hs nofun
  | double =>
    have hs : s.mode ≠ .comment := fun hs => nomatch hmode.symm.trans hs
    rw [step, hmode] at h
    dsimp only at h
    split_ifs at h
    all_goals obtain rfl := Option.some.inj h
    · exact .enter .plain hs nofun
    · exact .enter .doubleEscape hs nofun
    · exact .push [c] .double hs nofun
  | doubleEscape =>
    have hs : s.mode ≠ .comment := fun hs => nomatch hmode.symm.trans hs
    rw [step, hmode] at h
    dsimp only at h
    split_ifs at h
    all_goals obtain rfl := Option.some.inj h
    · exact .enter .double hs nofun
    · exact .push [c] .double hs nofun
    · exact .push ['\\', c] .double hs nofun
  | comment =>
    rw [step, hmode] at h
    dsimp only at h
    split_ifs at h
    all_goals obtain rfl := Option.some.inj h
    · exact .endComment hmode
    · exact .skip hmode

section Off

variable {u : Text} {tokens : List Token} {s s' : State}

/-- The next token after some can no longer be a certain word. -/
inductive Off (u : Text) (tokens : List Token) (s : State) : Prop
  /-- There is another token. -/
  | token (token : Token) (rest : List Token) (h : s.tokens = tokens ++ token :: rest)
      (hne : token ≠ .word u)
  /-- There is no token on this line. -/
  | comment (h : s.tokens = tokens) (hmode : s.mode = .comment) (hword : s.word = none)
  /-- Another word has begun. -/
  | word (text : Text) (h : s.tokens = tokens) (hmode : s.mode ≠ .comment)
      (hword : s.word = some text) (hne : ¬ text <+: u)

/-- The end of another word. -/
theorem off_endWord {text : Text} (h : s.tokens = tokens) (hword : s.word = some text)
    (hne : text ≠ u) : ∃ token, token ≠ Token.word u ∧ s.endWord.tokens = tokens ++ [token] := by
  refine ⟨.word text, fun heq => hne (Token.word.inj heq), ?_⟩
  rw [State.endWord, hword, ← h]

/-- The tokens of a state stay. -/
theorem tokens_step {c : Char} (h : step s c = some s') : ∃ l, s'.tokens = s.tokens ++ l := by
  have hend : ∃ l, s.endWord.tokens = s.tokens ++ l := by
    unfold State.endWord
    split
    · exact ⟨[], (List.append_nil _).symm⟩
    · exact ⟨_, rfl⟩
  cases change_step h with
  | push text mode _ _ => exact ⟨[], (List.append_nil _).symm⟩
  | enter mode _ _ => exact ⟨[], (List.append_nil _).symm⟩
  | endWord _ => exact hend
  | emit token _ =>
    obtain ⟨l, hl⟩ := hend
    exact ⟨l ++ [token], by rw [State.emit, hl, List.append_assoc]⟩
  | skip _ => exact ⟨[], (List.append_nil _).symm⟩
  | endComment _ => exact ⟨[.newline], rfl⟩

/-- A token that is no word stays, so the text is not a simple command. -/
theorem simpleCommand?_of_token {t : Text} {token : Token} (hrun : run .start t = some s)
    (htoken : token ∈ s.tokens) (hword : token.text? = none) (rest : Text) :
    simpleCommand? (t ++ rest) = none := by
  -- No step takes a token away.
  have hstays : ∀ (rest : Text) (s s' : State), token ∈ s.tokens → run s rest = some s' →
      token ∈ s'.tokens := by
    intro rest
    induction rest with
    | nil =>
      intro s s' hs hrest
      obtain rfl := Option.some.inj hrest
      exact hs
    | cons c rest ih =>
      intro s s' hs hrest
      rw [run_cons] at hrest
      obtain ⟨s'', hstep, hrest⟩ := Option.bind_eq_some_iff.mp hrest
      obtain ⟨l, hl⟩ := tokens_step hstep
      refine ih s'' s' ?_ hrest
      rw [hl]
      exact List.mem_append_left _ hs
  -- All tokens of a simple command are words, and the token is none.
  cases hcommand : simpleCommand? (t ++ rest) with
  | none => rfl
  | some words =>
    rw [simpleCommand?_eq_some_iff, tokenise, run_append, hrun, Option.bind_some] at hcommand
    obtain ⟨s', hrest, hfinish⟩ := Option.bind_eq_some_iff.mp hcommand
    have hmem := hstays rest s s' htoken hrest
    unfold finish at hfinish
    split_ifs at hfinish
    have hend : token ∈ s'.endWord.tokens := by
      unfold State.endWord
      split
      · exact hmem
      · exact List.mem_append_left _ hmem
    rw [Option.some.inj hfinish] at hend
    obtain ⟨word, -, rfl⟩ := List.mem_map.mp hend
    exact nomatch hword

/-- No character brings the word back. -/
theorem off_step {c : Char} (hs : Off u tokens s) (h : step s c = some s') : Off u tokens s' := by
  -- A token that is not the word stays; a comment ends with a newline; another word stays another
  -- word.
  cases hs with
  | token token rest htokens hne =>
    obtain ⟨l, hl⟩ := tokens_step h
    exact .token token (rest ++ l) (by rw [hl, htokens, List.append_assoc, List.cons_append]) hne
  | comment htokens hmode hword =>
    rw [step, hmode] at h
    dsimp only at h
    split_ifs at h
    all_goals obtain rfl := Option.some.inj h
    · exact .token .newline [] (by rw [← htokens]; rfl) nofun
    · exact .comment htokens hmode hword
  | word text htokens hmode hword hne =>
    -- What has been read is no prefix of the word, so that it is not the word itself.
    have htext : text ≠ u := fun heq => hne (heq ▸ List.prefix_rfl)
    obtain ⟨other, hother, hend⟩ := off_endWord htokens hword htext
    cases change_step h with
    | push more mode _ hcomment =>
      refine .word (text ++ more) htokens hcomment (by rw [State.push, hword]; rfl) ?_
      exact fun hpre => hne ((List.prefix_append _ _).trans hpre)
    | enter mode _ hcomment =>
      refine .word text htokens ?_ hword hne
      intro heq
      rw [hcomment heq] at hword
      exact nomatch hword
    | endWord _ => exact .token other [] hend hother
    | emit token _ =>
      exact .token other [token] (by rw [State.emit, hend, List.append_assoc]; rfl) hother
    | skip hcomment => exact absurd hcomment hmode
    | endComment hcomment => exact absurd hcomment hmode

/-- Nor does a text. -/
theorem off_run {t : Text} (hs : Off u tokens s) (h : run s t = some s') : Off u tokens s' := by
  induction t generalizing s with
  | nil =>
    obtain rfl := Option.some.inj h
    exact hs
  | cons c t ih =>
    rw [run_cons] at h
    obtain ⟨s'', hstep, hrun⟩ := Option.bind_eq_some_iff.mp h
    exact ih (off_step hs hstep) hrun

/-- At the end of the text the word is not there. -/
theorem off_finish {rest : List Token} (hs : Off u tokens s) :
    finish s ≠ some (tokens ++ .word u :: rest) := by
  intro h
  unfold finish at h
  split_ifs at h
  have hend := Option.some.inj h
  -- The first token behind the old ones is not the word: it is another one, there is none, or it is
  -- another text.
  cases hs with
  | token token rest' htokens hne =>
    unfold State.endWord at hend
    split at hend
    · rw [htokens] at hend
      exact hne (List.cons.inj (List.append_cancel_left hend)).1
    · dsimp only at hend
      rw [htokens, List.append_assoc] at hend
      exact hne (List.cons.inj (List.append_cancel_left hend)).1
  | comment htokens hmode hword =>
    rw [State.endWord, hword] at hend
    dsimp only at hend
    rw [htokens] at hend
    exact absurd (List.self_eq_append_right.mp hend) nofun
  | word text htokens hmode hword hne =>
    rw [State.endWord, hword] at hend
    dsimp only at hend
    rw [htokens] at hend
    have htext := (List.cons.inj (List.append_cancel_left hend)).1
    exact hne (Token.word.inj htext ▸ List.prefix_rfl)

end Off

section Lag

variable {u read : Text} {tokens : List Token} {s s' : State} {c : Char}

/-- The characters that quoting drops. -/
def dropped : Text := ['\\', '\'', '"', '\n']

/-- A part of `u` was read and less was kept of it: what has to come next is a character that was
dropped. -/
structure Lag (u read : Text) (tokens : List Token) (s : State) (text : Text) : Prop where
  word : s.word = some text
  tokens : s.tokens = tokens
  mode : s.mode ≠ .comment
  start : text <+: u
  /-- A backslash in double quotes is not kept yet, besides the quote. -/
  behind : text.length + (if s.mode = .doubleEscape then 2 else 1) ≤ read.length
  owed : ∀ d ∈ read.drop text.length, d ∈ dropped

/-- A part that was read, with one more character. -/
theorem owed_append {text : Text} (hbehind : text.length < read.length)
    (howed : ∀ d ∈ read.drop text.length, d ∈ dropped) (hc : c ∈ dropped) :
    ∀ d ∈ (read ++ [c]).drop text.length, d ∈ dropped := by
  intro d hd
  rw [List.drop_append_of_le_length (le_of_lt hbehind)] at hd
  rcases List.mem_append.mp hd with hd | hd
  · exact howed d hd
  · rw [List.mem_singleton.mp hd]
    exact hc

/-- What is kept next is owed. -/
theorem mem_owed {text more : Text} {d : Char} (hread : read <+: u) (hpre : text ++ more <+: u)
    (hbehind : (text ++ more).length ≤ read.length)
    (howed : ∀ d ∈ read.drop text.length, d ∈ dropped) (hd : d ∈ more) : d ∈ dropped := by
  have hshort : text ++ more <+: read := List.prefix_of_prefix_length_le hpre hread hbehind
  obtain ⟨rest, hrest⟩ := hshort
  refine howed d ?_
  rw [← hrest, List.append_assoc, List.drop_left]
  exact List.mem_append_left _ hd

/-- A character that is dropped makes the lag longer. -/
theorem lag_drop {text : Text} (h : Lag u read tokens s text) (hc : c ∈ dropped) {mode : Mode}
    (hmode : mode ≠ .comment) :
    Lag u (read ++ [c]) tokens { s with mode } text := by
  have hbehind : text.length + 1 ≤ read.length := by
    have hle := h.behind
    split_ifs at hle <;> omega
  refine ⟨h.word, h.tokens, hmode, h.start, ?_, owed_append hbehind h.owed hc⟩
  rw [List.length_append, List.length_singleton]
  split_ifs <;> omega

/-- A character that is kept, alone or behind a backslash, is the wrong one or was owed. -/
theorem lag_push {text more : Text} (h : Lag u read tokens s text) (hread : read <+: u)
    (hc : c ∈ more) (hlength : text.length + more.length ≤ read.length)
    {mode : Mode} (hmode : mode ≠ .comment) (hescape : mode ≠ .doubleEscape) :
    Off u tokens (s.push more mode) ∨
      c ∈ dropped ∧ Lag u (read ++ [c]) tokens (s.push more mode) (text ++ more) := by
  have hword : (s.push more mode).word = some (text ++ more) := by
    rw [State.push, h.word]
    rfl
  -- The text goes on as the word does, and then the character was owed; or it does not.
  by_cases hpre : text ++ more <+: u
  · have hlen : (text ++ more).length ≤ read.length := by
      rw [List.length_append]
      exact hlength
    have hdropped : ∀ d ∈ more, d ∈ dropped := fun d hd => mem_owed hread hpre hlen h.owed hd
    refine Or.inr ⟨hdropped c hc, hword, h.tokens, hmode, hpre, ?_, ?_⟩
    · rw [if_neg (show (s.push more mode).mode ≠ .doubleEscape from hescape), List.length_append,
        List.length_append, List.length_singleton]
      omega
    -- What is owed afterwards is the rest of what was owed, and the character that was just
    -- dropped.
    · intro d hd
      rw [List.drop_append_of_le_length hlen] at hd
      rcases List.mem_append.mp hd with hd | hd
      · refine h.owed d ?_
        rw [List.length_append, ← List.drop_drop] at hd
        exact List.mem_of_mem_drop hd
      · rw [List.mem_singleton.mp hd]
        exact hdropped c hc
  · exact Or.inl (.word _ h.tokens hmode hword hpre)

/-- The end of a word that lags is the end of another word. -/
theorem lag_endWord {text : Text} (h : Lag u read tokens s text) (hread : read <+: u) :
    ∃ token, token ≠ Token.word u ∧ s.endWord.tokens = tokens ++ [token] := by
  refine off_endWord h.tokens h.word ?_
  rintro rfl
  have hle := hread.length_le
  have hbehind := h.behind
  split_ifs at hbehind <;> omega

/-- The lag never ends: every character leads to another word, or is one that is dropped. -/
theorem lag_step {text : Text} (h : Lag u read tokens s text) (hread : read <+: u)
    (hstep : step s c = some s') :
    Off u tokens s' ∨ c ∈ dropped ∧ ∃ text', Lag u (read ++ [c]) tokens s' text' := by
  have hbehind := h.behind
  obtain ⟨other, hother, hend⟩ := lag_endWord h hread
  have hsome : s.word ≠ none := by
    rw [h.word]
    nofun
  have hkeep : ∀ {more : Text} {mode : Mode}, c ∈ more → text.length + more.length ≤ read.length →
      mode ≠ .comment → mode ≠ .doubleEscape → Off u tokens (s.push more mode) ∨
        c ∈ dropped ∧ ∃ text', Lag u (read ++ [c]) tokens (s.push more mode) text' := by
    intro more mode hc hlength hmode hescape
    exact (lag_push h hread hc hlength hmode hescape).imp_right fun ⟨hd, hl⟩ => ⟨hd, _, hl⟩
  have hdrop : ∀ {mode : Mode}, c ∈ dropped → mode ≠ .comment → Off u tokens { s with mode } ∨
      c ∈ dropped ∧ ∃ text', Lag u (read ++ [c]) tokens { s with mode } text' :=
    fun hc hmode => Or.inr ⟨hc, text, lag_drop h hc hmode⟩
  have hopen : ∀ {mode : Mode}, s.push [] mode = { s with mode } := by
    intro mode
    rw [State.push, h.word, Option.getD_some, List.append_nil, ← h.word]
  cases hmode : s.mode with
  | plain =>
    -- Outside of quotes: a quote or a backslash is dropped, the end of the word comes too early.
    rw [hmode, if_neg nofun] at hbehind
    cases plainStep_of_step hmode hstep with
    | escape hc => exact hdrop (by rw [hc]; decide) nofun
    | single hc =>
      rw [hopen]
      exact hdrop (by rw [hc]; decide) nofun
    | double hc =>
      rw [hopen]
      exact hdrop (by rw [hc]; decide) nofun
    | blank _ => exact Or.inl (.token other [] hend hother)
    | newline =>
      exact Or.inl (.token other [.newline]
          (by rw [State.emit, hend, List.append_assoc]; rfl) hother)
    | operator =>
      exact Or.inl (.token other [.operator c]
        (by rw [State.emit, hend, List.append_assoc]; rfl) hother)
    | comment hword => exact absurd hword hsome
    | ordinary _ _ => exact hkeep (List.mem_singleton.mpr rfl) hbehind nofun nofun
  | escape =>
    rw [hmode, if_neg nofun] at hbehind
    rw [step, hmode] at hstep
    dsimp only at hstep
    split_ifs at hstep with h1
    all_goals obtain rfl := Option.some.inj hstep
    · exact hdrop (by rw [h1]; decide) nofun
    · exact hkeep (List.mem_singleton.mpr rfl) hbehind nofun nofun
  | single =>
    rw [hmode, if_neg nofun] at hbehind
    rw [step, hmode] at hstep
    dsimp only at hstep
    split_ifs at hstep with h1
    all_goals obtain rfl := Option.some.inj hstep
    · exact hdrop (by rw [h1]; decide) nofun
    · exact hkeep (List.mem_singleton.mpr rfl) hbehind nofun nofun
  | double =>
    rw [hmode, if_neg nofun] at hbehind
    rw [step, hmode] at hstep
    dsimp only at hstep
    split_ifs at hstep with h1 h2
    all_goals obtain rfl := Option.some.inj hstep
    · exact hdrop (by rw [h1]; decide) nofun
    · exact hdrop (by rw [h2]; decide) nofun
    · exact hkeep (List.mem_singleton.mpr rfl) hbehind nofun nofun
  | doubleEscape =>
    -- Two characters may be kept here, for the two that were not kept before.
    rw [hmode, if_pos rfl] at hbehind
    rw [step, hmode] at hstep
    dsimp only at hstep
    split_ifs at hstep with h1
    all_goals obtain rfl := Option.some.inj hstep
    · exact hdrop (by rw [h1]; decide) nofun
    · exact hkeep (List.mem_singleton.mpr rfl) (Nat.le_of_succ_le hbehind) nofun nofun
    · exact hkeep (by simp) hbehind nofun nofun
  | comment => exact absurd hmode h.mode

/-- What lags at a blank is another word. -/
theorem off_of_lag {text rest t : Text} (h : Lag u read tokens s text) (hu : u = read ++ rest)
    (hrun : run s (rest ++ ' ' :: t) = some s') : Off u tokens s' := by
  induction rest generalizing read s text with
  | nil =>
    rw [List.append_nil] at hu
    rw [List.nil_append, run_cons] at hrun
    obtain ⟨s'', hstep, hrest⟩ := Option.bind_eq_some_iff.mp hrun
    rcases lag_step h (hu ▸ List.prefix_rfl) hstep with hoff | ⟨hblank, -⟩
    · exact off_run hoff hrest
    · exact absurd hblank (by decide)
  | cons d rest ih =>
    rw [List.cons_append, run_cons] at hrun
    obtain ⟨s'', hstep, hrest⟩ := Option.bind_eq_some_iff.mp hrun
    rcases lag_step h ⟨d :: rest, hu.symm⟩ hstep with hoff | ⟨-, text', hlag⟩
    · exact off_run hoff hrest
    · exact ih hlag (by rw [hu, List.append_assoc]; rfl) hrest

end Lag

section Plain

variable {u read t : Text} {tokens : List Token} {s' : State} {c : Char}

/-- A word that goes on with a character that is not ordinary is another word. -/
theorem off_of_special {rest : Text} (hu : u = read ++ c :: rest) (hc : ¬ Ordinary c)
    (hrun : run ⟨.plain, some read, tokens⟩ (c :: rest ++ ' ' :: t) = some s') :
    Off u tokens s' := by
  rw [List.cons_append, run_cons] at hrun
  obtain ⟨s, hstep, hrest⟩ := Option.bind_eq_some_iff.mp hrun
  have hne : read ≠ u := by
    intro heq
    rw [heq] at hu
    exact absurd (List.self_eq_append_right.mp hu) nofun
  obtain ⟨other, hother, hend⟩ := @off_endWord u tokens ⟨.plain, some read, tokens⟩ read rfl rfl hne
  -- The shell has dropped a character of the word that must come next.
  have hlag : ∀ mode : Mode, mode ≠ .comment → mode ≠ .doubleEscape → c ∈ dropped →
      Lag u (read ++ [c]) tokens ⟨mode, some read, tokens⟩ read := by
    intro mode hmode hescape hd
    refine ⟨rfl, rfl, hmode, ⟨c :: rest, hu.symm⟩, ?_, ?_⟩
    · rw [if_neg hescape, List.length_append, List.length_singleton]
    · intro d hdrop
      rw [List.drop_left, List.mem_singleton] at hdrop
      rw [hdrop]
      exact hd
  have hu' : u = (read ++ [c]) ++ rest := by
    rw [hu, List.append_assoc]
    rfl
  have hpush : ∀ mode : Mode, State.push ⟨.plain, some read, tokens⟩ [] mode
      = ⟨mode, some read, tokens⟩ := by
    intro mode
    simp [State.push]
  -- The character that is not ordinary quotes, and is dropped, or it ends the word.
  cases plainStep_of_step rfl hstep with
  | escape h1 => exact off_of_lag (hlag .escape nofun nofun (by rw [h1]; decide)) hu' hrest
  | single h2 =>
    rw [hpush] at hrest
    exact off_of_lag (hlag .single nofun nofun (by rw [h2]; decide)) hu' hrest
  | double h3 =>
    rw [hpush] at hrest
    exact off_of_lag (hlag .double nofun nofun (by rw [h3]; decide)) hu' hrest
  | blank _ => exact off_run (.token other [] hend hother) hrest
  | newline =>
    refine off_run (.token other [.newline] ?_ hother) hrest
    rw [State.emit, hend, List.append_assoc]
    rfl
  | operator =>
    refine off_run (.token other [.operator c] ?_ hother) hrest
    rw [State.emit, hend, List.append_assoc]
    rfl
  | comment hword => exact absurd hword nofun
  | ordinary hordinary _ => exact absurd hordinary hc

/-- A word that is read as it stands, from some point on. -/
theorem ordinary_of_words {rest : Text} {more : List Token} (hu : u = read ++ rest)
    (hrun : run ⟨.plain, some read, tokens⟩ (rest ++ ' ' :: t) = some s')
    (hfinish : finish s' = some (tokens ++ .word u :: more)) : ∀ c ∈ rest, Ordinary c := by
  induction rest generalizing read with
  | nil => exact fun c hc => absurd hc List.not_mem_nil
  | cons c rest ih =>
    by_cases hc : Ordinary c
    · have hstep : step ⟨.plain, some read, tokens⟩ c = some ⟨.plain, some (read ++ [c]), tokens⟩ :=
        step_ordinary rfl hc nofun
      rw [List.cons_append, run_cons, hstep, Option.bind_some] at hrun
      have hrest := ih (by rw [hu, List.append_assoc]; rfl) hrun
      intro d hd
      rcases List.mem_cons.mp hd with rfl | hd
      · exact hc
      · exact hrest d hd
    · exact absurd hfinish (off_finish (off_of_special hu hc hrun))

/-- A text that a shell begins to read by skipping a blank or a continued line. -/
def StartsBlank (u : Text) : Prop :=
  u.head? = some ' ' ∨ u.head? = some '\t' ∨ ['\\', '\n'] <+: u

instance (u : Text) : Decidable (StartsBlank u) := inferInstanceAs (Decidable (_ ∨ _ ∨ _))

/-- A quotation at the start of a word lags. -/
theorem lag_open (mode : Mode) (hmode : mode ≠ .comment) (hescape : mode ≠ .doubleEscape)
    {quote : Char} (hc : c = quote) (hquote : quote ∈ dropped) {rest : Text} :
    Lag (c :: rest) [c] tokens (State.push ⟨.plain, none, tokens⟩ [] mode) [] := by
  refine ⟨rfl, rfl, hmode, List.nil_prefix, ?_, ?_⟩
  · rw [if_neg (show (State.push ⟨.plain, none, tokens⟩ [] mode).mode ≠ .doubleEscape from hescape)]
    exact le_refl 1
  · intro d hd
    rw [List.mem_singleton.mp hd, hc]
    exact hquote

/-- A text that is read as the word it is, up to a blank, is a plain word. A text that starts with a
blank is left out: the quotes in it may come to stand as they are by what follows. -/
theorem plainWord_of_words {more : List Token} (hne : u ≠ []) (hstart : ¬ StartsBlank u)
    (hrun : run ⟨.plain, none, tokens⟩ (u ++ ' ' :: t) = some s')
    (hfinish : finish s' = some (tokens ++ .word u :: more)) : PlainWord u := by
  have hoff : ¬ Off u tokens s' := fun hoff => off_finish hoff hfinish
  unfold StartsBlank at hstart
  rw [not_or, not_or] at hstart
  obtain ⟨hspace, htab, hcontinued⟩ := hstart
  cases u with
  | nil => exact absurd rfl hne
  | cons c u =>
    rw [List.cons_append, run_cons] at hrun
    obtain ⟨s, hstep, hrest⟩ := Option.bind_eq_some_iff.mp hrun
    cases plainStep_of_step rfl hstep with
    | escape h1 =>
      -- A backslash: the character behind it is kept, and is another one or a backslash again.
      subst h1
      cases u with
      | nil =>
        rw [List.nil_append, run_cons] at hrest
        obtain ⟨s, hblank, hrest⟩ := Option.bind_eq_some_iff.mp hrest
        obtain rfl := Option.some.inj hblank
        have hword : Off ['\\'] tokens ⟨.plain, some [' '], tokens⟩ :=
          .word [' '] rfl nofun rfl (by decide)
        exact absurd (off_run hword hrest) hoff
      | cons d u =>
        rw [List.cons_append, run_cons] at hrest
        obtain ⟨s, hd, hrest⟩ := Option.bind_eq_some_iff.mp hrest
        have hline : d ≠ '\n' := fun h => hcontinued ⟨u, by rw [h]; rfl⟩
        rw [step] at hd
        dsimp only at hd
        rw [if_neg hline] at hd
        obtain rfl := Option.some.inj hd
        by_cases hback : d = '\\'
        · have hlag : Lag ('\\' :: d :: u) ['\\', d] tokens ⟨.plain, some [d], tokens⟩ [d] := by
            rw [hback]
            refine ⟨rfl, rfl, nofun, ⟨'\\' :: u, rfl⟩, ?_, ?_⟩
            · rw [if_neg nofun]
              exact le_refl 2
            · intro x hx
              rw [List.mem_singleton.mp hx]
              decide
          exact absurd (off_of_lag hlag rfl hrest) hoff
        · have hno : ¬ [d] <+: '\\' :: d :: u :=
            fun hpre => hback (List.cons_prefix_cons.mp hpre).1
          have hword : Off ('\\' :: d :: u) tokens ⟨.plain, some [d], tokens⟩ :=
            .word [d] rfl nofun rfl hno
          exact absurd (off_run hword hrest) hoff
    | single h2 =>
      exact absurd (off_of_lag (lag_open .single nofun nofun h2 (by decide)) rfl hrest) hoff
    | double h3 =>
      exact absurd (off_of_lag (lag_open .double nofun nofun h3 (by decide)) rfl hrest) hoff
    | blank h4 =>
      rcases List.mem_cons.mp h4 with rfl | h4
      · exact absurd rfl hspace
      · exact absurd (congrArg some (List.mem_singleton.mp h4)) htab
    | newline => exact absurd (off_run (.token .newline [] rfl nofun) hrest) hoff
    | operator => exact absurd (off_run (.token (.operator c) [] rfl nofun) hrest) hoff
    | comment _ => exact absurd (off_run (.comment rfl rfl rfl) hrest) hoff
    | ordinary hc hfirst =>
      obtain ⟨htilde, hhash⟩ := hfirst rfl
      have hall : ∀ d ∈ u, Ordinary d := ordinary_of_words rfl hrest hfinish
      refine ⟨nofun, ?_, fun h => htilde (Option.some.inj h), fun h => hhash (Option.some.inj h)⟩
      intro d hd
      rcases List.mem_cons.mp hd with rfl | hd
      · exact hc
      · exact hall d hd

end Plain

end Shell
