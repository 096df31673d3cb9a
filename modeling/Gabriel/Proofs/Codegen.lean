import Gabriel.Cli.Output
import Gabriel.Lib.Curl
import Gabriel.Lib.Http
import Gabriel.Lib.Shell

/-!
# `Gabriel.Proofs.Codegen`: the curl command in a shell

`to_curl` quotes the URL, the headers and the body, so a shell reads each of them as one word, and
it ends each word with a blank. The method is not quoted. It is read as one word when it has no
character that means something to a shell, and otherwise it is cut, dropped or joined with what
follows.

A command is a list of parts with a joiner between them, on one line or on several, and each part is
read as its words (`ReadsAs`), so the words of the command are those of its parts. The theorems:

* `quote_eq`: a quoted value is one word.
* `toCurl_eq_parts`: a command is its parts with the joiner between them.
* `readsAs_restParts`: the words of the parts behind the method.
* `toCurl_of_method`, `run_curlHead`, `curlTail_eq`: the text around a method.
* `simpleCommand_toCurl`: the command is one simple command with the arguments that it is meant to
  have, when its method is a plain word or is not written.
-/

set_option autoImplicit false

namespace Gabriel.Cli

open Gabriel.Core Gabriel.Engine Text Shell

/-- The headers that the command lists. -/
def listedHeaders (request : SentRequest) : List (Text × Text) :=
  request.headers.filter fun header => asciiLower header.1 ∉ curlManaged

/-- A header as the command shows it. -/
def shownHeader (redactor : Redactor) (showSecrets : Bool) (header : Text × Text) : Text :=
  header.1 ++ ": ".toList ++ headerForDisplay header.1 header.2 redactor showSecrets

/-- The arguments behind the method. -/
def curlRest (request : SentRequest) (redactor : Redactor) (showSecrets : Bool) : List Text :=
  [redactor.apply request.url]
    ++ (listedHeaders request).flatMap (fun header =>
      ["-H".toList, shownHeader redactor showSecrets header])
    ++ request.body.elim [] fun body =>
      if body = [] then [] else ["--data-raw".toList, redactor.apply body]

/-- The argument list that the command is meant to have. -/
def curlArgs (upper : Text → Text) (request : SentRequest) (redactor : Redactor)
    (showSecrets : Bool) : List Text :=
  ["curl".toList]
    ++ (if eqIgnoreAsciiCase request.method "GET".toList then [] else
      ["-X".toList, upper request.method])
    ++ curlRest request redactor showSecrets

/-! ### The parts of the command -/

/-- A quoted value is one word. -/
theorem quote_eq (value : Text) : quote value = quoted value := by
  have hdance : "'\\''".toList = ['\'', '\\', '\'', '\''] := rfl
  rw [quote, replace_singleton, quoted, hdance]

example : quote "it's".toList = "'it'\\''s'".toList := by decide +kernel

/-- An option and a quoted value. -/
theorem readsAs_option {option : Text} (hoption : PlainWord option) (value : Text) :
    ReadsAs (option ++ [' '] ++ quote value) [option, value] := by
  rw [quote_eq]
  exact readsAs_append separates_blank (readsAs_word hoption) (readsAs_quoted value)

/-- The text between two parts. -/
def joiner (multiline : Bool) : Text := if multiline then " \\\n  ".toList else [' ']

/-- The joiner separates two words, on one line or on several. -/
theorem separates_joiner (multiline : Bool) : Separates (joiner multiline) := by
  cases multiline with
  | false => exact separates_blank
  | true => exact separates_continued

/-- The parts behind the method. -/
def restParts (request : SentRequest) (redactor : Redactor) (showSecrets : Bool) : List Text :=
  [quote (redactor.apply request.url)]
    ++ (listedHeaders request).map (fun header =>
      "-H ".toList ++ quote (shownHeader redactor showSecrets header))
    ++ request.body.elim [] fun body =>
      if body = [] then [] else ["--data-raw ".toList ++ quote (redactor.apply body)]

/-- A command is its parts with the joiner between them. -/
theorem toCurl_eq_parts (upper : Text → Text) (request : SentRequest) (redactor : Redactor)
    (multiline showSecrets : Bool) :
    toCurl upper request redactor multiline showSecrets
      = List.intercalate (joiner multiline) (["curl".toList]
        ++ (if eqIgnoreAsciiCase request.method "GET".toList then [] else
          ["-X ".toList ++ upper request.method])
        ++ restParts request redactor showSecrets) := by
  rw [toCurl, restParts, ← List.append_assoc, ← List.append_assoc]
  rfl

/-- The words of the parts behind the method. -/
theorem readsAs_restParts (request : SentRequest) (redactor : Redactor) (showSecrets : Bool) :
    ∃ words : List (List Text), words.flatten = curlRest request redactor showSecrets ∧
      List.Forall₂ ReadsAs (restParts request redactor showSecrets) words := by
  have hheader : PlainWord "-H".toList := by decide +kernel
  have hdata : PlainWord "--data-raw".toList := by decide +kernel
  -- One list of words for each part: the URL, the headers and the body.
  refine ⟨[[redactor.apply request.url]]
    ++ (listedHeaders request).map (fun header =>
      ["-H".toList, shownHeader redactor showSecrets header])
    ++ request.body.elim [] (fun body =>
      if body = [] then [] else [["--data-raw".toList, redactor.apply body]]), ?_, ?_⟩
  -- Flattened, they are the arguments behind the method.
  · rw [curlRest, List.flatten_append, List.flatten_append, List.flatMap_def]
    congr 1
    cases request.body with
    | none => rfl
    | some body =>
      show List.flatten (if body = [] then [] else _) = if body = [] then [] else _
      split <;> rfl
  -- Each part is read as its words.
  · refine List.rel_append (List.rel_append ?_ ?_) ?_
    · refine .cons ?_ .nil
      rw [quote_eq]
      exact readsAs_quoted _
    · rw [List.forall₂_map_left_iff, List.forall₂_map_right_iff]
      refine List.forall₂_same.mpr fun header _ => ?_
      exact readsAs_option hheader _
    · cases request.body with
      | none => exact .nil
      | some body =>
        show List.Forall₂ _ (if body = [] then [] else _) (if body = [] then [] else _)
        split
        · exact .nil
        · exact .cons (readsAs_option hdata _) .nil

/-- A command without a method, or with one that is a plain word, is read as it is meant. -/
theorem simpleCommand?_of_plainWord {upper : Text → Text} {request : SentRequest}
    (h : eqIgnoreAsciiCase request.method "GET".toList = true ∨ PlainWord (upper request.method))
    (redactor : Redactor) (multiline showSecrets : Bool) :
    simpleCommand? (toCurl upper request redactor multiline showSecrets)
      = some (curlArgs upper request redactor showSecrets) := by
  have hcurl : PlainWord "curl".toList := by decide +kernel
  have hmethod : PlainWord "-X".toList := by decide +kernel
  obtain ⟨words, hwords, hrest⟩ := readsAs_restParts request redactor showSecrets
  rw [toCurl_eq_parts]
  refine simpleCommand?_of_readsAs ?_
  have hargs : curlArgs upper request redactor showSecrets
      = ([["curl".toList]] ++ (if eqIgnoreAsciiCase request.method "GET".toList then [] else
          [["-X".toList, upper request.method]]) ++ words).flatten := by
    rw [curlArgs, List.flatten_append, List.flatten_append, hwords]
    split <;> rfl
  rw [hargs]
  refine readsAs_intercalate (separates_joiner multiline) ?_ nofun
  refine List.rel_append (List.rel_append (.cons (readsAs_word hcurl) .nil) ?_) hrest
  by_cases hget : eqIgnoreAsciiCase request.method "GET".toList = true
  · rw [if_pos hget, if_pos hget]
    exact .nil
  · rw [if_neg hget, if_neg hget]
    have hword : PlainWord (upper request.method) := h.resolve_left hget
    exact .cons (readsAs_append separates_blank (readsAs_word hmethod) (readsAs_word hword)) .nil

/-! ### The method -/

/-- The text up to the method. -/
def curlHead (multiline : Bool) : Text := "curl".toList ++ joiner multiline ++ "-X ".toList

/-- The text behind the method. -/
def curlTail (request : SentRequest) (redactor : Redactor) (multiline showSecrets : Bool) : Text :=
  joiner multiline ++ List.intercalate (joiner multiline) (restParts request redactor showSecrets)

/-- A command with a method: its head, the method, and the rest. -/
theorem toCurl_of_method {upper : Text → Text} {request : SentRequest}
    (hget : eqIgnoreAsciiCase request.method "GET".toList = false) (redactor : Redactor)
    (multiline showSecrets : Bool) :
    toCurl upper request redactor multiline showSecrets = curlHead multiline
      ++ (upper request.method ++ curlTail request redactor multiline showSecrets) := by
  have hne : restParts request redactor showSecrets ≠ [] := nofun
  rw [toCurl_eq_parts, if_neg (by rw [hget]; exact nofun), List.append_assoc, List.singleton_append,
    List.singleton_append, List.intercalate_cons_cons,
    List.intercalate_cons_of_ne_nil hne, curlHead, curlTail]
  simp only [List.append_assoc]

/-- What the shell has read behind the head. -/
theorem run_curlHead (multiline : Bool) :
    run .start (curlHead multiline)
      = some ⟨.plain, none, [.word "curl".toList, .word "-X".toList]⟩ := by
  cases multiline <;> decide +kernel

/-- What follows the method starts with a blank. -/
theorem curlTail_eq (request : SentRequest) (redactor : Redactor) (multiline showSecrets : Bool) :
    ∃ t, curlTail request redactor multiline showSecrets = ' ' :: t := by
  cases multiline <;> exact ⟨_, rfl⟩

/-- A command without a method behind `-X` has one word less. -/
theorem not_simpleCommand?_of_empty {upper : Text → Text} {request : SentRequest}
    (hget : eqIgnoreAsciiCase request.method "GET".toList = false)
    (hempty : upper request.method = []) (redactor : Redactor) (multiline showSecrets : Bool) :
    simpleCommand? (toCurl upper request redactor multiline showSecrets)
      = some (["curl".toList, "-X".toList] ++ curlRest request redactor showSecrets) := by
  obtain ⟨words, hwords, hrest⟩ := readsAs_restParts request redactor showSecrets
  obtain ⟨first, last, hflat, hrun⟩ :=
    readsAs_intercalate (separates_joiner multiline) hrest nofun
  have hskip : ∀ tokens : List Token, run ⟨.plain, none, tokens⟩ (joiner multiline)
      = some ⟨.plain, none, tokens⟩ := by
    intro tokens
    cases multiline <;> rfl
  rw [simpleCommand?_eq_some_iff, tokenise, toCurl_of_method hget, hempty,
      List.nil_append, run_append,
    run_curlHead, Option.bind_some, curlTail, run_append, hskip, Option.bind_some, hrun, ← hwords,
    hflat, List.map_append, List.map_append]
  rfl

/-- **The curl command is one simple command with the arguments it is meant to have, when its method
is a plain word or `GET`.** There is no other case, but for a method that starts with a blank: that
is not read as it stands by itself either, and the rest of the command decides what becomes of it.
-/
theorem simpleCommand_toCurl (upper : Text → Text) (request : SentRequest) (redactor : Redactor)
    (multiline showSecrets : Bool) :
    (eqIgnoreAsciiCase request.method "GET".toList = true ∨ PlainWord (upper request.method) →
      simpleCommand? (toCurl upper request redactor multiline showSecrets)
        = some (curlArgs upper request redactor showSecrets)) ∧
    (simpleCommand? (toCurl upper request redactor multiline showSecrets)
        = some (curlArgs upper request redactor showSecrets) →
      eqIgnoreAsciiCase request.method "GET".toList = true ∨ PlainWord (upper request.method) ∨
        StartsBlank (upper request.method)) := by
  refine ⟨fun h => simpleCommand?_of_plainWord h redactor multiline showSecrets, ?_⟩
  intro h
  by_cases hget : eqIgnoreAsciiCase request.method "GET".toList = true
  · exact Or.inl hget
  -- The method is not `GET`, so it is written without quotes behind `-X`.
  · refine Or.inr (or_iff_not_imp_right.mpr fun hblank => ?_)
    rw [Bool.not_eq_true] at hget
    have hargs : curlArgs upper request redactor showSecrets
        = ["curl".toList, "-X".toList, upper request.method]
          ++ curlRest request redactor showSecrets := by
      rw [curlArgs, if_neg (by rw [hget]; exact nofun)]
      rfl
    -- An empty method would leave one word fewer.
    have hne : upper request.method ≠ [] := by
      intro hempty
      rw [not_simpleCommand?_of_empty hget hempty, hargs, Option.some.injEq] at h
      have hlength := congrArg List.length h
      simp only [List.length_append, List.length_cons, List.length_nil] at hlength
      omega
    -- Reading goes on behind the method, and the words it ends with start with the method.
    obtain ⟨t, ht⟩ := curlTail_eq request redactor multiline showSecrets
    rw [simpleCommand?_eq_some_iff, tokenise, toCurl_of_method hget, run_append, run_curlHead,
      Option.bind_some, ht] at h
    obtain ⟨s, hrun, hfinish⟩ := Option.bind_eq_some_iff.mp h
    rw [hargs] at hfinish
    exact plainWord_of_words hne hblank hrun hfinish

-- A request with a quote, a dollar sign and a line break in its body.
example :
    simpleCommand? (toCurl asciiUpper ⟨"post".toList, "https://api.test/n".toList,
        [("Host".toList, "api.test".toList), ("X-Id".toList, ['7'])], some "it's $5\nnow".toList⟩
        .empty true false)
      = some ["curl".toList, "-X".toList, "POST".toList, "https://api.test/n".toList,
        "-H".toList, "X-Id: 7".toList, "--data-raw".toList, "it's $5\nnow".toList] := by
  decide +kernel

/-- A method with an operator in it makes two commands. -/
theorem not_simpleCommand_toCurl :
    ¬ ∀ (upper : Text → Text) (request : SentRequest) (redactor : Redactor)
      (multiline showSecrets : Bool),
      simpleCommand? (toCurl upper request redactor multiline showSecrets)
        = some (curlArgs upper request redactor showSecrets) := by
  intro h
  have hcut := h asciiUpper ⟨"GET; id".toList, "https://api.test/n".toList, [], none⟩
      .empty true false
  exact absurd hcut (by decide +kernel)

example : simpleCommand? "curl -X 'GET; id' https://api.test/n".toList
    = some ["curl".toList, "-X".toList, "GET; id".toList, "https://api.test/n".toList] := by
  decide +kernel

end Gabriel.Cli
