import Gabriel.Proofs.Codegen

/-!
# `Gabriel.Proofs.CurlRequest`: the request that the curl command sends

The command as a shell reads it, and its arguments as curl does: `sentBy` is the request that comes
out. `SameRequest` compares it with the request that was prepared, but for `Host` and
`Content-Length`, which curl writes itself.

For a method that is read as it stands, it fails in one case. The generator leaves `-X` out for
`GET`, and curl takes data without a method for a `POST`, so a `GET` with a body is sent as a
`POST`. A method that is no plain word makes no simple command, so nothing is sent. The theorems:

* `parseArgs_curlRest`: the arguments behind the method, as curl reads them.
* `perform_curlArgs`: the request of the arguments that the command is meant to have.
* `perform_url`: a request whose URL is an option is not sent.
* `sentBy_of_special`: a method that is a token without a quote, and no plain word, sends nothing.
* `sameRequest_iff`: the command sends the prepared request exactly when `SendsSame`.
-/

set_option autoImplicit false

namespace Gabriel.Cli

open Gabriel.Core Gabriel.Engine Text Shell

/-- A header as it stands in a request. -/
def headerText (header : Text × Text) : Text := header.1 ++ ": ".toList ++ header.2

/-- What a command sends, when a shell reads it as one command and curl as one request. -/
def sentBy (command : Text) : Option Curl.Request := (simpleCommand? command).bind Curl.perform

/-- A request is sent as it was prepared. `Host` and `Content-Length` are left to curl. -/
structure SameRequest (upper : Text → Text) (request : SentRequest)
    (sent : Curl.Request) : Prop where
  method : sent.method = upper request.method
  url : sent.url = request.url
  headers : sent.headers = (listedHeaders request).map headerText
  body : sent.body = request.body.getD []

/-- The command with the credentials shown. -/
def shownCommand (upper : Text → Text) (request : SentRequest) (secrets : List Text)
    (multiline : Bool) : Text :=
  toCurl upper request (Redactor.forCommand secrets true) multiline true

/-! ### Arguments -/

/-- A URL among the arguments. -/
theorem parseArgs_url {o : Curl.Options} {url : Text} (hurl : Curl.isOption url = false)
    (rest : List Text) :
    Curl.parseArgs o (url :: rest) = Curl.parseArgs { o with urls := o.urls ++ [url] } rest := by
  have hadd : Curl.addUrl o url = some { o with urls := o.urls ++ [url] } := by
    rw [Curl.addUrl, hurl]
    rfl
  have hother : ∀ option : Text, Curl.isOption option = true → url ≠ option := by
    rintro option hoption rfl
    rw [hurl] at hoption
    exact nomatch hoption
  cases rest with
  | nil => exact hadd
  | cons value rest =>
    rw [Curl.parseArgs, if_neg (hother _ (by decide)), if_neg (hother _ (by decide)),
      if_neg (hother _ (by decide)), hadd]
    rfl

/-- Headers among the arguments. -/
theorem parseArgs_headers (o : Curl.Options) (lines : List Text) (rest : List Text) :
    Curl.parseArgs o (lines.flatMap (fun line => ["-H".toList, line]) ++ rest)
      = Curl.parseArgs { o with headers := o.headers ++ lines } rest := by
  induction lines generalizing o with
  | nil => rw [List.flatMap_nil, List.nil_append, List.append_nil]
  | cons line lines ih =>
    rw [List.flatMap_cons, List.append_assoc]
    show Curl.parseArgs o ("-H".toList :: line :: (lines.flatMap _ ++ rest)) = _
    rw [Curl.parseArgs, if_neg (by decide), if_pos rfl, ih, List.append_assoc]
    rfl

/-- No URL of a command line is an option. -/
theorem parseArgs_urls {o o' : Curl.Options} {args : List Text}
    (h : Curl.parseArgs o args = some o') (ho : ∀ url ∈ o.urls, Curl.isOption url = false) :
    ∀ url ∈ o'.urls, Curl.isOption url = false := by
  -- An argument is a URL only when it is no option.
  have hadd : ∀ {o o' : Curl.Options} {arg : Text}, Curl.addUrl o arg = some o' →
      (∀ url ∈ o.urls, Curl.isOption url = false) →
      ∀ url ∈ o'.urls, Curl.isOption url = false := by
    intro o o' arg h ho url hurl
    unfold Curl.addUrl at h
    split_ifs at h with harg
    obtain rfl := Option.some.inj h
    rcases List.mem_append.mp hurl with hurl | hurl
    · exact ho url hurl
    · rw [List.mem_singleton.mp hurl]
      exact Bool.eq_false_iff.mpr harg
  -- In the order in which curl reads its arguments: the end, a last one, `-X`, `-H`, `--data-raw`,
  -- a URL.
  induction o, args using Curl.parseArgs.induct with
  | case1 o =>
    obtain rfl := Option.some.inj h
    exact ho
  | case2 o arg => exact hadd h ho
  | case3 o value rest ih =>
    rw [Curl.parseArgs, if_pos rfl] at h
    exact ih h ho
  | case4 o value rest hx ih =>
    rw [Curl.parseArgs, if_neg hx, if_pos rfl] at h
    exact ih h ho
  | case5 o value rest hx hh ih =>
    rw [Curl.parseArgs, if_neg hx, if_neg hh, if_pos rfl] at h
    exact ih h ho
  | case6 o arg value rest hx hh hd ih =>
    rw [Curl.parseArgs, if_neg hx, if_neg hh, if_neg hd] at h
    obtain ⟨o'', hurl, hrest⟩ := Option.bind_eq_some_iff.mp h
    exact ih o'' hrest (hadd hurl ho)

/-- The data of the command: the body, when there is one. -/
def shownData (request : SentRequest) : Option Text := request.body.filter fun body => body ≠ []

/-- The arguments behind the method, as curl reads them. -/
theorem parseArgs_curlRest {request : SentRequest} (hurl : Curl.isOption request.url = false)
    (secrets : List Text) (method : Option Text) :
    Curl.parseArgs ⟨method, [], none, []⟩ (curlRest request (Redactor.forCommand secrets true) true)
      = some ⟨method, (listedHeaders request).map headerText, shownData request,
          [request.url]⟩ := by
  have hheaders : (listedHeaders request).flatMap (fun header =>
        ["-H".toList, shownHeader (Redactor.forCommand secrets true) true header])
      = ((listedHeaders request).map headerText).flatMap fun line => ["-H".toList, line] := by
    rw [List.flatMap_map]
    rfl
  rw [curlRest, hheaders, List.append_assoc, List.singleton_append]
  show Curl.parseArgs _ (request.url :: _) = _
  rw [parseArgs_url hurl, parseArgs_headers, shownData]
  cases request.body with
  | none => rfl
  | some body =>
    show Curl.parseArgs _ (if body = [] then [] else ["--data-raw".toList, body]) = _
    by_cases hbody : body = []
    · rw [if_pos hbody, hbody]
      rfl
    · rw [if_neg hbody, Option.filter_some, if_pos (decide_eq_true hbody)]
      rfl

/-- The request of the arguments that the command is meant to have. -/
theorem perform_curlArgs {upper : Text → Text} {request : SentRequest}
    (hurl : Curl.isOption request.url = false) (secrets : List Text) :
    ∃ added, Curl.perform (curlArgs upper request (Redactor.forCommand secrets true) true) = some
      { method := if eqIgnoreAsciiCase request.method "GET".toList then
          (if (shownData request).isSome then "POST".toList else "GET".toList)
          else upper request.method
        url := request.url, headers := (listedHeaders request).map headerText, added
        body := (shownData request).getD [] } := by
  by_cases hget : eqIgnoreAsciiCase request.method "GET".toList = true
  · rw [curlArgs, if_pos hget, if_pos hget, List.append_nil, List.singleton_append, Curl.perform,
      if_pos rfl, parseArgs_curlRest hurl]
    exact ⟨_, rfl⟩
  · rw [curlArgs, if_neg hget, if_neg hget]
    show ∃ added, Curl.perform
        ("curl".toList :: "-X".toList :: upper request.method :: curlRest _ _ _)
      = _
    have hmethod : ∀ rest : List Text,
        Curl.parseArgs {} ("-X".toList :: upper request.method :: rest)
        = Curl.parseArgs ⟨some (upper request.method), [], none, []⟩ rest := by
      intro rest
      rw [Curl.parseArgs, if_pos rfl]
    rw [Curl.perform, if_pos rfl, hmethod, parseArgs_curlRest hurl]
    exact ⟨_, rfl⟩

/-- A request whose URL is an option is not sent. -/
theorem perform_url {args : List Text} {sent : Curl.Request} (h : Curl.perform args = some sent) :
    Curl.isOption sent.url = false := by
  cases args with
  | nil => exact nomatch h
  | cons program args =>
    rw [Curl.perform] at h
    split_ifs at h
    obtain ⟨o, hparse, hrequest⟩ := Option.bind_eq_some_iff.mp h
    have hurls := parseArgs_urls hparse fun url hurl => absurd hurl List.not_mem_nil
    unfold Curl.Options.request at hrequest
    split at hrequest
    · rename_i url hurl
      obtain rfl := Option.some.inj hrequest
      exact hurls url (by rw [hurl]; exact List.mem_singleton.mpr rfl)
    · exact nomatch hrequest

/-! ### A method that is not read as it stands -/

/-- What a token holds that is not an ordinary character. -/
theorem special_of_token {c : Char} (htoken : Http.isTokenChar c = true) (hquote : c ≠ '\'')
    (hc : ¬ Ordinary c) : c ∈ operators ∨ c ∈ expansions := by
  by_contra hno
  rw [not_or] at hno
  refine hc ⟨?_, ?_, ?_, hno.1, hno.2⟩
  · simp only [List.mem_cons, List.not_mem_nil, or_false, not_or]
    refine ⟨?_, hquote, ?_⟩
    all_goals
      rintro rfl
      exact absurd htoken (by decide)
  · intro hblank
    rcases List.mem_cons.mp hblank with rfl | hblank
    · exact absurd htoken (by decide)
    · obtain rfl := List.mem_singleton.mp hblank
      exact absurd htoken (by decide)
  · rintro rfl
    exact absurd htoken (by decide)

/-- A text in which an operator or an expansion stands is not a simple command. -/
theorem simpleCommand?_of_special {start : Text} {word : Option Text}
    {tokens : List Token} {c : Char}
    (hrun : run .start start = some ⟨.plain, word, tokens⟩) (hc : c ∈ operators ∨ c ∈ expansions)
    (rest : Text) : simpleCommand? (start ++ c :: rest) = none := by
  -- None of these characters is a quote, a blank or a newline.
  have hother : c ≠ '\\' ∧ c ≠ '\'' ∧ c ≠ '"' ∧ c ∉ blanks ∧ c ≠ '\n' := by
    rcases hc with hc | hc
    · simp only [operators, List.mem_cons, List.not_mem_nil, or_false] at hc
      rcases hc with rfl | rfl | rfl | rfl | rfl | rfl | rfl <;> decide
    · simp only [expansions, List.mem_cons, List.not_mem_nil, or_false] at hc
      rcases hc with rfl | rfl | rfl | rfl | rfl <;> decide
  obtain ⟨h1, h2, h3, h4, h5⟩ := hother
  -- An operator becomes a token that no simple command has; at an expansion the shell stops.
  by_cases hoperator : c ∈ operators
  · have hstep : run .start (start ++ [c])
        = some ((State.endWord ⟨.plain, word, tokens⟩).emit (.operator c)) := by
      rw [run_append, hrun, Option.bind_some, run_cons, step]
      dsimp only
      rw [if_neg h1, if_neg h2, if_neg h3, if_neg h4, if_neg h5, if_pos hoperator]
      rfl
    have hnone := simpleCommand?_of_token hstep
      (List.mem_append_right _ (List.mem_singleton.mpr rfl)) rfl rest
    rwa [List.append_assoc, List.singleton_append] at hnone
  · have hstep : step ⟨.plain, word, tokens⟩ c = none := by
      rw [step]
      dsimp only
      rw [if_neg h1, if_neg h2, if_neg h3, if_neg h4, if_neg h5, if_neg hoperator,
        if_pos (hc.resolve_left hoperator)]
    rw [simpleCommand?, tokenise, run_append, hrun, Option.bind_some, run_cons, hstep]
    rfl

/-- The rest of a token is read as it stands, or the text is not a simple command. -/
theorem ordinary_or_none {u start read : Text} {tokens : List Token}
    (hu : ∀ c ∈ u, Http.isTokenChar c = true ∧ c ≠ '\'')
    (hrun : run .start start = some ⟨.plain, some read, tokens⟩) :
    (∀ c ∈ u, Ordinary c) ∨ ∀ rest, simpleCommand? (start ++ (u ++ rest)) = none := by
  induction u generalizing start read with
  | nil => exact Or.inl fun c hc => absurd hc List.not_mem_nil
  | cons c u ih =>
    by_cases hc : Ordinary c
    · have hread : step ⟨.plain, some read, tokens⟩ c = some ⟨.plain, some (read ++ [c]), tokens⟩ :=
        step_ordinary rfl hc nofun
      have hstep : run .start (start ++ [c]) = some ⟨.plain, some (read ++ [c]), tokens⟩ := by
        rw [run_append, hrun, Option.bind_some, run_cons, hread]
        rfl
      rcases ih (fun d hd => hu d (List.mem_cons_of_mem _ hd)) hstep with hall | hnone
      · refine Or.inl fun d hd => ?_
        rcases List.mem_cons.mp hd with rfl | hd
        · exact hc
        · exact hall d hd
      · refine Or.inr fun rest => ?_
        have hrest := hnone rest
        rwa [List.append_assoc, List.singleton_append, ← List.cons_append] at hrest
    · obtain ⟨htoken, hquote⟩ := hu c List.mem_cons_self
      exact Or.inr fun rest => simpleCommand?_of_special hrun (special_of_token htoken hquote hc) _

/-- Behind a comment there is nothing on the line, and what is on another line is another
command. -/
theorem simpleCommand?_of_comment {start : Text} {words : List Text}
    (hrun : run .start start = some ⟨.comment, none, words.map .word⟩) (rest : Text) :
    simpleCommand? (start ++ rest) = none ∨ simpleCommand? (start ++ rest) = some words := by
  induction rest generalizing start with
  | nil =>
    rw [List.append_nil]
    refine Or.inr ?_
    rw [simpleCommand?_eq_some_iff, tokenise, hrun]
    rfl
  | cons c rest ih =>
    have hcons : start ++ c :: rest = (start ++ [c]) ++ rest := by
      rw [List.append_assoc, List.singleton_append]
    rw [hcons]
    -- The newline becomes a token, and every other character belongs to the comment.
    by_cases hline : c = '\n'
    · have hstep : run .start (start ++ [c])
          = some ((⟨.plain, none, words.map .word⟩ : State).emit .newline) := by
        rw [run_append, hrun, Option.bind_some, run_cons, step]
        dsimp only
        rw [if_pos hline]
        rfl
      exact Or.inl (simpleCommand?_of_token hstep
        (List.mem_append_right _ (List.mem_singleton.mpr rfl)) rfl rest)
    · refine ih ?_
      rw [run_append, hrun, Option.bind_some, run_cons, step]
      dsimp only
      rw [if_neg hline]
      rfl

/-- A method that is a token without a quote and no plain word: nothing is sent. -/
theorem sentBy_of_special {upper : Text → Text} {request : SentRequest}
    (hget : eqIgnoreAsciiCase request.method "GET".toList = false)
    (htoken : Http.IsToken (upper request.method)) (hquote : '\'' ∉ upper request.method)
    (hplain : ¬ PlainWord (upper request.method)) (redactor : Redactor)
    (multiline showSecrets : Bool) :
    sentBy (toCurl upper request redactor multiline showSecrets) = none := by
  have hhead := run_curlHead multiline
  rw [toCurl_of_method hget]
  generalize curlTail request redactor multiline showSecrets = t
  obtain ⟨hne, hchars⟩ := htoken
  cases hu : upper request.method with
  | nil => exact absurd hu hne
  | cons c u =>
    rw [hu] at hquote hplain hchars
    -- Behind the first character there are more of a token, without a quote.
    have hrest : ∀ d ∈ u, Http.isTokenChar d = true ∧ d ≠ '\'' := fun d hd =>
      ⟨hchars d (List.mem_cons_of_mem _ hd), fun h => hquote (h ▸ List.mem_cons_of_mem _ hd)⟩
    have hfirst : Http.isTokenChar c = true := hchars c List.mem_cons_self
    have hcquote : c ≠ '\'' := fun h => hquote (h ▸ List.mem_cons_self)
    rw [List.cons_append]
    -- Outside of the ordinary characters the shell stops; `~` and `#` matter at the start of a word
    -- only.
    by_cases hc : Ordinary c
    · by_cases htilde : c = '~'
      · have hstep : run .start (curlHead multiline ++ c :: (u ++ t)) = none := by
          rw [run_append, hhead, Option.bind_some, run_cons, htilde]
          rfl
        rw [sentBy, simpleCommand?, tokenise, hstep]
        rfl
      -- Behind a `#` only the words `curl -X` are left, which curl refuses.
      · by_cases hhash : c = '#'
        · have hcomment : run .start (curlHead multiline ++ [c])
              = some ⟨.comment, none, ["curl".toList, "-X".toList].map .word⟩ := by
            rw [run_append, hhead, Option.bind_some, hhash]
            rfl
          have hcons : curlHead multiline ++ c :: (u ++ t)
              = (curlHead multiline ++ [c]) ++ (u ++ t) := by
            rw [List.append_assoc, List.singleton_append]
          rw [hcons, sentBy]
          rcases simpleCommand?_of_comment hcomment (u ++ t) with hnone | hwords
          · rw [hnone]
            rfl
          · rw [hwords]
            decide +kernel
        · have hstep : run .start (curlHead multiline ++ [c])
              = some ⟨.plain, some [c], [.word "curl".toList, .word "-X".toList]⟩ := by
            rw [run_append, hhead, Option.bind_some, run_cons,
              step_ordinary rfl hc fun _ => ⟨htilde, hhash⟩]
            rfl
          -- The word begins, and then some character of it is not ordinary.
          rcases ordinary_or_none hrest hstep with hall | hnone
          · refine absurd ⟨List.cons_ne_nil c u, ?_, fun h => htilde (Option.some.inj h),
              fun h => hhash (Option.some.inj h)⟩ hplain
            intro d hd
            rcases List.mem_cons.mp hd with rfl | hd
            · exact hc
            · exact hall d hd
          · have hcommand := hnone t
            rw [List.append_assoc, List.singleton_append] at hcommand
            rw [sentBy, hcommand]
            rfl
    · rw [sentBy, simpleCommand?_of_special hhead (special_of_token hfirst hcquote hc)]
      rfl

/-! ### The request -/

/-- The condition under which the command sends the request: a `GET` has no body, another method is
read as it stands, and the URL is no option. -/
def SendsSame (upper : Text → Text) (request : SentRequest) : Prop :=
  Curl.isOption request.url = false ∧
    if eqIgnoreAsciiCase request.method "GET".toList then request.body.getD [] = []
    else PlainWord (upper request.method)

instance (upper : Text → Text) (request : SentRequest) : Decidable (SendsSame upper request) :=
  inferInstanceAs (Decidable (_ ∧ _))

/-- The data is the body. -/
theorem shownData_eq (request : SentRequest) :
    (shownData request).getD [] = request.body.getD [] ∧
      ((shownData request).isSome ↔ request.body.getD [] ≠ []) := by
  rw [shownData]
  cases request.body with
  | none => exact ⟨rfl, by simp⟩
  | some body =>
    by_cases hbody : body = []
    · rw [hbody]
      exact ⟨rfl, by simp⟩
    · rw [Option.filter_some, if_pos (decide_eq_true hbody)]
      exact ⟨rfl, by simp [hbody]⟩

/-- The upper case of a `GET`. -/
theorem asciiUpper_get {method : Text} (hget : eqIgnoreAsciiCase method "GET".toList = true) :
    asciiUpper method = "GET".toList := by
  have hlower : ∀ t : Text, asciiUpper (asciiLower t) = asciiUpper t := by
    intro t
    rw [asciiUpper, asciiLower, List.map_map]
    exact List.map_congr_left fun c _ => Char.toUpper_toLower_eq_toUpper c
  rw [← hlower, eqIgnoreAsciiCase_iff.mp hget]
  decide

/-- A character that no letter is changed into. -/
theorem toUpper_of_not_isAlpha {c : Char} (h : c.toUpper.isAlpha = false) : c.toUpper = c := by
  rw [Char.isAlpha_toUpper_eq_isAlpha] at h
  refine Char.toUpper_eq_of_not_isLower fun hlower => ?_
  rw [Char.isAlpha, hlower, Bool.or_true] at h
  exact nomatch h

/-- The upper case of a token is a token. -/
theorem isToken_asciiUpper {method : Text} (h : Http.IsToken method) :
    Http.IsToken (asciiUpper method) := by
  obtain ⟨hne, hchars⟩ := h
  refine ⟨fun hnil => hne (List.map_eq_nil_iff.mp hnil), ?_⟩
  intro c hc
  obtain ⟨d, hd, rfl⟩ := List.mem_map.mp hc
  cases halpha : d.toUpper.isAlpha with
  | true => simp [Http.isTokenChar, Char.isAlphanum, halpha]
  | false =>
    rw [toUpper_of_not_isAlpha halpha]
    exact hchars d hd

/-- The upper case has the quotes of the method. -/
theorem quote_mem_asciiUpper {method : Text} (h : '\'' ∈ asciiUpper method) : '\'' ∈ method := by
  obtain ⟨d, hd, hquote⟩ := List.mem_map.mp h
  have halpha : d.toUpper.isAlpha = false := by
    rw [hquote]
    decide
  rw [← hquote, toUpper_of_not_isAlpha halpha]
  exact hd

/-- **The command sends the request that was prepared, unless it is a `GET` with a body.** The
method is a token, and the upper case of a token is the one of ASCII. A token that a shell does not
read as it stands is not sent either, where no quote is in it. -/
theorem sameRequest_iff {upper : Text → Text}
    (hupper : ∀ t, Http.IsToken t → upper t = asciiUpper t) {request : SentRequest}
    (htoken : Http.IsToken request.method) (secrets : List Text) (multiline : Bool) :
    (SendsSame upper request →
      ∃ sent, sentBy (shownCommand upper request secrets multiline) = some sent ∧
        SameRequest upper request sent) ∧
    ((∃ sent, sentBy (shownCommand upper request secrets multiline) = some sent ∧
        SameRequest upper request sent) →
      SendsSame upper request ∨ '\'' ∈ request.method) := by
  obtain ⟨hbody, hdata⟩ := shownData_eq request
  constructor
  · rintro ⟨hurl, hmethod⟩
    obtain ⟨added, hperform⟩ := @perform_curlArgs upper request hurl secrets
    have hread : eqIgnoreAsciiCase request.method "GET".toList = true ∨
        PlainWord (upper request.method) := by
      -- A method that is written is a plain word, and a `GET` is not written.
      by_cases hget : eqIgnoreAsciiCase request.method "GET".toList = true
      · exact Or.inl hget
      · rw [if_neg hget] at hmethod
        exact Or.inr hmethod
    have hsent : sentBy (shownCommand upper request secrets multiline)
        = Curl.perform (curlArgs upper request (Redactor.forCommand secrets true) true) := by
      rw [sentBy, shownCommand, simpleCommand?_of_plainWord hread]
      rfl
    refine ⟨_, hsent.trans hperform, ?_, rfl, rfl, hbody⟩
    dsimp only
    by_cases hget : eqIgnoreAsciiCase request.method "GET".toList = true
    · rw [if_pos hget] at hmethod
      rw [if_pos hget, if_neg (fun h => hdata.mp h hmethod), hupper _ htoken, asciiUpper_get hget]
    · rw [if_neg hget]
  · rintro ⟨sent, hsent, hsame⟩
    -- Without a quote in the method the shell reads only what stands in front of it.
    refine or_iff_not_imp_right.mpr fun hquote => ?_
    obtain ⟨words, hwords, hperform⟩ := Option.bind_eq_some_iff.mp hsent
    have hurl : Curl.isOption request.url = false := by
      rw [← hsame.url]
      exact perform_url hperform
    refine ⟨hurl, ?_⟩
    by_cases hget : eqIgnoreAsciiCase request.method "GET".toList = true
    · -- Data without a method is a `POST`.
      rw [if_pos hget]
      by_contra hnonempty
      obtain ⟨added, hargs⟩ := @perform_curlArgs upper request hurl secrets
      rw [shownCommand, simpleCommand?_of_plainWord (Or.inl hget), Option.some.injEq] at hwords
      rw [← hwords, hargs, Option.some.injEq] at hperform
      have hmethod := hsame.method
      rw [← hperform, if_pos hget, if_pos (hdata.mpr hnonempty), hupper _ htoken,
        asciiUpper_get hget] at hmethod
      have hother : "POST".toList ≠ "GET".toList := by decide
      exact hother hmethod
    · rw [if_neg hget]
      -- A method that is no plain word is not sent at all.
      by_contra hplain
      have hupperToken : Http.IsToken (upper request.method) := by
        rw [hupper _ htoken]
        exact isToken_asciiUpper htoken
      have hno : '\'' ∉ upper request.method := by
        rw [hupper _ htoken]
        exact fun h => hquote (quote_mem_asciiUpper h)
      have hnone := sentBy_of_special (Bool.not_eq_true _ ▸ hget) hupperToken hno hplain
        (Redactor.forCommand secrets true) multiline true
      rw [shownCommand, hnone] at hsent
      exact nomatch hsent

/-- A `DELETE` with two headers and no body. -/
theorem sameRequest_iff_delete :
    ∃ sent, sentBy (shownCommand asciiUpper ⟨"delete".toList, "https://api.test/n".toList,
        [("Host".toList, "api.test".toList), ("X-Id".toList, ['7'])], none⟩ [] true) = some sent ∧
      SameRequest asciiUpper ⟨"delete".toList, "https://api.test/n".toList,
        [("Host".toList, "api.test".toList), ("X-Id".toList, ['7'])], none⟩ sent := by
  have htoken : Http.IsToken "delete".toList := by decide +kernel
  exact (@sameRequest_iff asciiUpper (fun _ _ => rfl) ⟨"delete".toList, "https://api.test/n".toList,
    [("Host".toList, "api.test".toList), ("X-Id".toList, ['7'])], none⟩ htoken [] true).1
    (by decide +kernel)

/-- A search with a body is sent as a `POST`. -/
theorem not_sameRequest_get :
    ¬ ∀ (upper : Text → Text), (∀ t, Http.IsToken t → upper t = asciiUpper t) →
      ∀ request : SentRequest, Http.IsToken request.method →
        ∀ (secrets : List Text) (multiline : Bool),
        ∃ sent, sentBy (shownCommand upper request secrets multiline) = some sent ∧
          SameRequest upper request sent := by
  intro h
  obtain ⟨sent, hsent, hsame⟩ := h asciiUpper (fun _ _ => rfl) ⟨"GET".toList,
    "https://api.test/search".toList, [], some "q=1".toList⟩ (by decide +kernel) [] true
  have hpost : (sentBy (shownCommand asciiUpper ⟨"GET".toList, "https://api.test/search".toList, [],
      some "q=1".toList⟩ [] true)).map (·.method) = some "POST".toList := by decide +kernel
  rw [hsent, Option.map_some, Option.some.injEq, hsame.method] at hpost
  exact absurd hpost (by decide)

end Gabriel.Cli
