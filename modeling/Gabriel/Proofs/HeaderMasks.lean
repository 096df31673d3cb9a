import Gabriel.Cli.Support
import Gabriel.Proofs.OutputSecrets

/-!
# `Gabriel.Proofs.HeaderMasks`: does the output depend on a credential header?

Five surfaces print headers. `--dry-run` and `curl` mask a credential header by its name, so their
output never depends on its value. `run --verbose` masks known values only, and `capture show`
masks four names, keeps the first characters of their values, and shows the headers of a response
as they are.

For the last two surfaces the output is independent only when there is no credential header to
print: each of them prints the empty value and the value `x` differently under every name. So from
a list with a credential another one is made that is printed differently (`otherPairs`), and two
blocks of one length between fixed lines are compared line by line (`blocks_eq_iff`). The theorems:

* `printDryRun_eq`, `toCurl_eq`: the two surfaces that mask by name.
* `headerLine_sensitive`, `requestLine_sensitive`, `responseLine_sensitive`: the others show the
  difference between no value and `x`.
* `writeRun_masks_iff`: `run` is independent exactly when it is not verbose, or prints no
  credential.
* `printCapture_masks_iff`: `capture show` is exactly when it prints none.
* `masksCredentials_iff`: the surfaces together.
-/

set_option autoImplicit false

namespace Gabriel.Cli

open Gabriel.Core Gabriel.Engine Text

/-- Two lists of headers that differ only in the values of credential headers. -/
def DifferInCredentials (l l' : List (Text × Text)) : Prop :=
  List.Forall₂ (fun e e' => e.1 = e'.1 ∧ (isCredentialHeader e.1 = false → e.2 = e'.2)) l l'

/-- The outcome of a run with other headers, sent and received. -/
def FinishedRun.withHeaders (outcome : FinishedRun) (sent : List (Text × Text))
    (received : FieldMap) : FinishedRun :=
  { outcome with
    sent := { outcome.sent with headers := sent }
    response := { outcome.response with headers := received } }

/-- A capture with other headers, sent and received. -/
def withCapturedHeaders (capture : Capture) (sent received : FieldMap) : Capture :=
  { capture with
    request := { capture.request with headers := sent }
    response := capture.response.map fun response => { response with headers := received } }

/-- None of the headers is a credential. -/
def NoCredential (l : List (Text × Text)) : Prop := ∀ e ∈ l, isCredentialHeader e.1 = false

/-! ### Lists of lines -/

section Lines

/-- Lists that differ in credentials are printed the same by a surface whose lines do not depend
on credentials. -/
theorem map_eq_of_differInCredentials {l l' : List (Text × Text)} (h : DifferInCredentials l l')
    {f : Text × Text → Text}
    (hf : ∀ name value value', isCredentialHeader name = true →
      f (name, value) = f (name, value')) :
    l.map f = l'.map f := by
  induction h with
  | nil => rfl
  | @cons e e' l l' he _ ih =>
    rw [List.map_cons, List.map_cons, ih]
    congr 1
    obtain ⟨name, value⟩ := e
    obtain ⟨name', value'⟩ := e'
    obtain ⟨rfl, hvalue⟩ := he
    cases hcred : isCredentialHeader name with
    | true => exact hf name value value' hcred
    | false => rw [show value = value' from hvalue hcred]

/-- A list without credentials does not differ in them from another one. -/
theorem DifferInCredentials.eq_of_noCredential {l l' : List (Text × Text)}
    (h : DifferInCredentials l l') (hno : NoCredential l) : l = l' := by
  induction h with
  | nil => rfl
  | @cons e e' l l' he _ ih =>
    have hvalue := he.2 (hno e List.mem_cons_self)
    rw [ih fun d hd => hno d (List.mem_cons_of_mem e hd), Prod.ext he.1 hvalue]

/-- Another value for a credential header: the empty one, or `x` where that prints the same. -/
def otherValue (line : Text × Text → Text) (name value : Text) : Text :=
  if isCredentialHeader name = false then value
  else if line (name, value) = line (name, []) then ['x'] else []

/-- The list with other values for its credential headers. -/
def otherPairs (line : Text × Text → Text) (l : List (Text × Text)) : List (Text × Text) :=
  l.map fun e => (e.1, otherValue line e.1 e.2)

/-- The map with other values for its credential headers. -/
def otherFields (line : Text × Text → Text) (map : FieldMap) : FieldMap :=
  ⟨⟨map.fields.entries.map fun e => (e.1, match e.2 with
      | .one value => .one (otherValue line e.1 value)
      | .many values => .many (values.map (otherValue line e.1))), by
    rw [List.pairwise_map]
    exact map.fields.sorted⟩⟩

/-- Its pairs are those of the list. -/
theorem iterPairs_otherFields (line : Text × Text → Text) (map : FieldMap) :
    (otherFields line map).iterPairs = otherPairs line map.iterPairs := by
  unfold otherFields otherPairs FieldMap.iterPairs
  rw [List.flatMap_map, List.map_flatMap]
  refine List.flatMap_congr fun e _ => ?_
  obtain ⟨name, value | values⟩ := e
  · rfl
  · simp [FieldMap.entryPairs, FieldValue.toList]

/-- The other list differs in credentials only. -/
theorem differ_otherPairs (line : Text × Text → Text) (l : List (Text × Text)) :
    DifferInCredentials l (otherPairs line l) := by
  induction l with
  | nil => exact .nil
  | cons e l ih =>
    refine .cons ⟨rfl, fun hcred => ?_⟩ ih
    show e.2 = otherValue line e.1 e.2
    rw [otherValue, if_pos hcred]

/-- It is printed differently, when there is a credential in the list. -/
theorem noCredential_of_map_eq {line : Text × Text → Text}
    (hline : ∀ name, line (name, []) ≠ line (name, ['x'])) {l : List (Text × Text)}
    (h : l.map line = (otherPairs line l).map line) : NoCredential l := by
  intro e he
  by_contra hcred
  have hsame : line e = line (e.1, otherValue line e.1 e.2) := by
    unfold otherPairs at h
    rw [List.map_map] at h
    exact List.map_inj_left.mp h e he
  rw [otherValue, if_neg hcred] at hsame
  split at hsame
  · rename_i hempty
    exact hline e.1 (hempty.symm.trans hsame)
  · rename_i hempty
    exact hempty hsame

/-- Two blocks between fixed lines are the same when the whole is. -/
theorem blocks_eq_iff (a b c x x' y y' : List Text)
    (hlength : x.length = x'.length) :
    a ++ x ++ b ++ y ++ c = a ++ x' ++ b ++ y' ++ c ↔ x = x' ∧ y = y' := by
  constructor
  · intro h
    have htail := List.append_cancel_right h
    simp only [List.append_assoc] at htail
    obtain ⟨hx, hrest⟩ := List.append_inj (List.append_cancel_left htail) hlength
    exact ⟨hx, List.append_cancel_left hrest⟩
  · rintro ⟨rfl, rfl⟩
    rfl

/-- Lists that differ in credentials have one length. -/
theorem DifferInCredentials.length {l l' : List (Text × Text)} (h : DifferInCredentials l l') :
    l.length = l'.length := List.Forall₂.length_eq h

end Lines

/-! ### Caret notation -/

section Escape

variable {style : Style}

/-- A character that needs no escaping stays. -/
theorem escapeChar_of_plain {c : Char} (h : needsEscaping c = false) : escapeChar c = [c] := by
  simp only [needsEscaping, Bool.or_eq_false_iff, Bool.and_eq_false_iff, decide_eq_false_iff_not,
    bne_eq_false_iff_eq, beq_eq_false_iff_ne] at h
  unfold escapeChar
  by_cases hbreak : c = '\n' ∨ c = '\t'
  · rw [if_pos hbreak]
  · rw [if_neg hbreak, if_neg (by tauto), if_neg (by tauto)]

/-- The test for control characters only saves work. -/
theorem escapeControls_eq_flatMap (text : Text) :
    escapeControls text = text.flatMap escapeChar := by
  unfold escapeControls
  split
  · rfl
  · rename_i hplain
    have hsame : text.flatMap escapeChar = text.flatMap fun c => [c] := by
      refine List.flatMap_congr fun c hc => ?_
      refine escapeChar_of_plain ?_
      simpa using fun h => hplain (List.any_eq_true.mpr ⟨c, hc, h⟩)
    rw [hsame, List.flatMap_singleton']

/-- Texts are made safe part by part. -/
theorem Style.safe_append (s t : Text) : style.safe (s ++ t) = style.safe s ++ style.safe t := by
  unfold Style.safe
  split
  · rw [escapeControls_eq_flatMap, escapeControls_eq_flatMap, escapeControls_eq_flatMap,
      List.flatMap_append]
  · rfl

/-- The empty text is printed as it is. -/
theorem Style.safe_nil : style.safe [] = [] := by
  unfold Style.safe
  split <;> rfl

/-- And so is the letter `x`. -/
theorem Style.safe_x : style.safe ['x'] = ['x'] := by
  unfold Style.safe
  split
  · decide
  · rfl

end Escape

/-! ### The surfaces -/

section Surfaces

variable {style : Style} {redactor : Redactor} {l l' : List (Text × Text)}

/-- A credential is not shown by a surface that masks it by its name. -/
theorem headerForDisplay_of_credential {name : Text} (h : isCredentialHeader name = true)
    (value : Text) : headerForDisplay name value redactor false = mask := by
  unfold headerForDisplay
  rw [if_neg (by simp), if_pos h]

/-- `--dry-run`. -/
theorem printDryRun_eq (h : DifferInCredentials l l') (request : SentRequest) (effect : Effect) :
    printDryRun { request with headers := l } effect style redactor false
      = printDryRun { request with headers := l' } effect style redactor false := by
  unfold printDryRun
  dsimp only
  rw [map_eq_of_differInCredentials h]
  intro name value value' hcred
  rw [headerForDisplay_of_credential hcred, headerForDisplay_of_credential hcred]

/-- The headers that `curl` does not set itself. -/
theorem DifferInCredentials.filter (h : DifferInCredentials l l') (p : Text → Bool) :
    DifferInCredentials (l.filter fun e => p e.1) (l'.filter fun e => p e.1) := by
  unfold DifferInCredentials at h ⊢
  induction h with
  | nil => exact .nil
  | @cons e e' l l' he _ ih =>
    rw [List.filter_cons, List.filter_cons, ← he.1]
    by_cases hp : p e.1 = true
    · rw [if_pos hp, if_pos hp]
      exact .cons he ih
    · rw [if_neg hp, if_neg hp]
      exact ih

/-- `curl`. -/
theorem toCurl_eq (h : DifferInCredentials l l') (upper : Text → Text) (request : SentRequest)
    (multiline : Bool) :
    toCurl upper { request with headers := l } redactor multiline false
      = toCurl upper { request with headers := l' } redactor multiline false := by
  unfold toCurl
  dsimp only
  rw [map_eq_of_differInCredentials (h.filter fun name => asciiLower name ∉ curlManaged)]
  intro name value value' hcred
  rw [headerForDisplay_of_credential hcred, headerForDisplay_of_credential hcred]

/-- `run --verbose` shows a short value under every name. -/
theorem headerLine_sensitive (name : Text) :
    headerLine style redactor (name, []) ≠ headerLine style redactor (name, ['x']) := by
  have hnil : redactor.apply [] = [] := Redactor.apply_of_short (by decide)
  have hx : redactor.apply ['x'] = ['x'] := Redactor.apply_of_short (by decide)
  unfold headerLine
  simp [hnil, hx, style.safe_x, style.safe_nil]

/-- `capture show` shows a value of a request, or its first characters. -/
theorem requestLine_sensitive (name : Text) :
    captureHeaderLine style (fun header => redactCredential header.1 header.2) (name, [])
      ≠ captureHeaderLine style (fun header => redactCredential header.1 header.2)
        (name, ['x']) := by
  unfold captureHeaderLine redactCredential
  dsimp only
  split
  · intro h
    have hsame : style.safe "… ••••".toList = style.safe (['x'] ++ "… ••••".toList) := by
      simpa using h
    rw [style.safe_append, style.safe_x] at hsame
    simp at hsame
  · simp [style.safe_x, style.safe_nil]

/-- It shows the values of a response. -/
theorem responseLine_sensitive (name : Text) :
    captureHeaderLine style (·.2) (name, []) ≠ captureHeaderLine style (·.2) (name, ['x']) := by
  unfold captureHeaderLine
  simp [style.safe_x, style.safe_nil]

/-- `run` with other headers. -/
theorem writeRun_withHeaders_eq_iff (hlength : l.length = l'.length) (m m' : FieldMap)
    (tools : PrintTools) (outcome : FinishedRun) (verbose : Bool) (limit : Nat) :
    writeRun tools (outcome.withHeaders l m) style redactor verbose limit
        = writeRun tools (outcome.withHeaders l' m') style redactor verbose limit ↔
      (verbose = true → l.map (headerLine style redactor) = l'.map (headerLine style redactor) ∧
        m.iterPairs.map (headerLine style redactor)
          = m'.iterPairs.map (headerLine style redactor)) := by
  -- Without `--verbose` no header is printed.
  cases verbose with
  | false => exact iff_of_true rfl (by simp)
  | true =>
    simp only [forall_const]
    -- Both blocks have the same length, so the lines agree exactly when the headers do.
    have hlines := blocks_eq_iff
      [style.bold outcome.sent.method ++ ' ' :: style.safe (redactor.apply outcome.sent.url)]
      (outcome.sent.body.elim [] (fun body =>
        [style.dim "  body:".toList, indent (style.safe (redactor.apply body)) 4])
        ++ [[]] ++ [statusLine tools style outcome])
      ((if trim (renderBody tools outcome.response limit) = [] then [] else
          [[], style.safe (redactor.apply (renderBody tools outcome.response limit))])
        ++ section_ (outcome.captured.map (capturedLine style redactor))
        ++ section_ (outcome.assertions.map (assertionLine style)))
      (l.map (headerLine style redactor)) (l'.map (headerLine style redactor))
      (m.iterPairs.map (headerLine style redactor))
      (m'.iterPairs.map (headerLine style redactor)) (by simpa using hlength)
    simp only [List.append_assoc] at hlines
    unfold writeRun sentLines
    simp only [if_true, List.append_assoc]
    exact hlines

/-- The response of a capture with other headers. -/
theorem responseLines_eq_iff (m m' : FieldMap) (tools : PrintTools)
    (response : Option CapturedResponse) :
    (response.map fun r => { r with headers := m }).elim [] (responseLines tools style)
        = (response.map fun r => { r with headers := m' }).elim [] (responseLines tools style) ↔
      (response.isSome = true → m.iterPairs.map (captureHeaderLine style (·.2))
        = m'.iterPairs.map (captureHeaderLine style (·.2))) := by
  cases response with
  | none => exact iff_of_true rfl (by simp)
  | some r =>
    simp only [Option.isSome_some, forall_const]
    show responseLines tools style { r with headers := m }
      = responseLines tools style { r with headers := m' } ↔ _
    unfold responseLines
    dsimp only
    rw [List.append_left_inj, List.append_right_inj]

/-- `capture show` with other headers. -/
theorem printCapture_withHeaders_eq_iff {k k' : FieldMap}
    (hlength : k.iterPairs.length = k'.iterPairs.length) (m m' : FieldMap) (tools : PrintTools)
    (capture : Capture) :
    printCapture tools style (withCapturedHeaders capture k m)
        = printCapture tools style (withCapturedHeaders capture k' m') ↔
      k.iterPairs.map (captureHeaderLine style fun header => redactCredential header.1 header.2)
          = k'.iterPairs.map
            (captureHeaderLine style fun header => redactCredential header.1 header.2) ∧
        (capture.response.isSome = true → m.iterPairs.map (captureHeaderLine style (·.2))
          = m'.iterPairs.map (captureHeaderLine style (·.2))) := by
  rw [← responseLines_eq_iff m m' tools]
  -- The request headers stand in front of the body, the response headers behind it.
  have hlines := blocks_eq_iff
    ([style.bold (style.safe capture.request.method) ++ ' ' ::
        style.safe capture.request.url,
      style.dim "at".toList ++ ' ' :: formatIso8601 capture.atMs]
      ++ (capture.page.map fun page => style.dim "from".toList ++ ' ' :: style.safe page).toList
      ++ (capture.session.map fun session =>
        style.dim "session".toList ++ ' ' :: style.safe session).toList
      ++ [[], style.bold "request".toList])
    (previewLines tools style capture.request.body) []
    (k.iterPairs.map
      (captureHeaderLine style fun header => redactCredential header.1 header.2))
    (k'.iterPairs.map
      (captureHeaderLine style fun header => redactCredential header.1 header.2))
    ((capture.response.map fun r => { r with headers := m }).elim [] (responseLines tools style))
    ((capture.response.map fun r => { r with headers := m' }).elim [] (responseLines tools style))
    (by simpa using hlength)
  rw [List.append_nil, List.append_nil] at hlines
  exact hlines

/-- The output of `run` does not depend on credentials exactly when it is not verbose, or prints
none. -/
theorem writeRun_masks_iff (style : Style) (redactor : Redactor) (tools : PrintTools)
    (outcome : FinishedRun) (verbose : Bool) (limit : Nat) (l : List (Text × Text)) (m : FieldMap) :
    (∀ l' m', DifferInCredentials l l' → DifferInCredentials m.iterPairs m'.iterPairs →
        writeRun tools (outcome.withHeaders l m) style redactor verbose limit
          = writeRun tools (outcome.withHeaders l' m') style redactor verbose limit) ↔
      (verbose = true → NoCredential l ∧ NoCredential m.iterPairs) := by
  constructor
  · intro h hverbose
    have hdiffer := differ_otherPairs (headerLine style redactor) l
    have hother := h _ (otherFields (headerLine style redactor) m) hdiffer
      (by rw [iterPairs_otherFields]; exact differ_otherPairs _ _)
    obtain ⟨hsent, hreceived⟩ :=
      (writeRun_withHeaders_eq_iff hdiffer.length _ _ tools outcome verbose limit).mp
          hother hverbose
    rw [iterPairs_otherFields] at hreceived
    exact ⟨noCredential_of_map_eq headerLine_sensitive hsent,
      noCredential_of_map_eq headerLine_sensitive hreceived⟩
  · intro hno l' m' hl hm
    refine (writeRun_withHeaders_eq_iff hl.length m m' tools outcome verbose limit).mpr ?_
    intro hverbose
    obtain ⟨hsent, hreceived⟩ := hno hverbose
    exact ⟨congrArg _ (hl.eq_of_noCredential hsent), congrArg _ (hm.eq_of_noCredential hreceived)⟩

/-- The output of `capture show` does not depend on credentials exactly when it prints none. -/
theorem printCapture_masks_iff (style : Style) (tools : PrintTools) (capture : Capture)
    (k m : FieldMap) :
    (∀ k' m' : FieldMap, DifferInCredentials k.iterPairs k'.iterPairs →
        DifferInCredentials m.iterPairs m'.iterPairs →
        printCapture tools style (withCapturedHeaders capture k m)
          = printCapture tools style (withCapturedHeaders capture k' m')) ↔
      NoCredential k.iterPairs ∧
        (capture.response.isSome = true → NoCredential m.iterPairs) := by
  constructor
  -- Compared with fields that are printed differently, the outputs only agree without them.
  · intro h
    have hdiffer : DifferInCredentials k.iterPairs (otherFields
        (captureHeaderLine style fun header => redactCredential header.1 header.2)
            k).iterPairs := by
      rw [iterPairs_otherFields]
      exact differ_otherPairs _ _
    have hother := h _ (otherFields (captureHeaderLine style (·.2)) m) hdiffer
      (by rw [iterPairs_otherFields]; exact differ_otherPairs _ _)
    -- Equal outputs have equal lines for both lists of headers.
    obtain ⟨hrequest, hresponse⟩ :=
      (printCapture_withHeaders_eq_iff hdiffer.length _ _ tools capture).mp hother
    rw [iterPairs_otherFields] at hrequest hresponse
    exact ⟨noCredential_of_map_eq requestLine_sensitive hrequest, fun hsome =>
      noCredential_of_map_eq responseLine_sensitive (hresponse hsome)⟩
  -- Without a credential, headers that differ in credentials only are the same.
  · rintro ⟨hrequest, hresponse⟩ k' m' hk hm
    refine (printCapture_withHeaders_eq_iff hk.length m m' tools capture).mpr ⟨?_, ?_⟩
    · exact congrArg _ (hk.eq_of_noCredential hrequest)
    · exact fun hsome => congrArg _ (hm.eq_of_noCredential (hresponse hsome))

/-- For every list of headers: what `--dry-run` and `curl` print does not depend on the values of
its credential headers. For `run` that holds exactly when it is not verbose, or there is no
credential header in the lists it prints, and for `capture show` exactly when there is none. -/
theorem masksCredentials_iff (style : Style) (redactor : Redactor) (l : List (Text × Text))
    (k m : FieldMap) (tools : PrintTools) (upper : Text → Text) (request : SentRequest)
    (effect : Effect) (multiline : Bool) (outcome : FinishedRun) (verbose : Bool) (limit : Nat)
    (capture : Capture) :
    (∀ l', DifferInCredentials l l' →
        printDryRun { request with headers := l } effect style redactor false
          = printDryRun { request with headers := l' } effect style redactor false) ∧
      (∀ l', DifferInCredentials l l' →
        toCurl upper { request with headers := l } redactor multiline false
          = toCurl upper { request with headers := l' } redactor multiline false) ∧
      ((∀ l' m', DifferInCredentials l l' → DifferInCredentials m.iterPairs m'.iterPairs →
          writeRun tools (outcome.withHeaders l m) style redactor verbose limit
            = writeRun tools (outcome.withHeaders l' m') style redactor verbose limit) ↔
        (verbose = true → NoCredential l ∧ NoCredential m.iterPairs)) ∧
      ((∀ k' m' : FieldMap, DifferInCredentials k.iterPairs k'.iterPairs →
          DifferInCredentials m.iterPairs m'.iterPairs →
          printCapture tools style (withCapturedHeaders capture k m)
            = printCapture tools style (withCapturedHeaders capture k' m')) ↔
        NoCredential k.iterPairs ∧
          (capture.response.isSome = true → NoCredential m.iterPairs)) :=
  ⟨fun _ h => printDryRun_eq h request effect, fun _ h => toCurl_eq h upper request multiline,
    writeRun_masks_iff style redactor tools outcome verbose limit l m,
    printCapture_masks_iff style tools capture k m⟩

end Surfaces

/-! ### Session cookies -/

/-- A request with a session cookie. -/
def cookieHeaders (value : Text) : List (Text × Text) :=
  [("Accept".toList, "*/*".toList), ("Cookie".toList, value)]

/-- Two such requests differ in a credential only. -/
theorem differ_cookies (value value' : Text) :
    DifferInCredentials (cookieHeaders value) (cookieHeaders value') :=
  have hcookie : isCredentialHeader "Cookie".toList = true := by decide +kernel
  .cons ⟨rfl, fun _ => rfl⟩
    (.cons ⟨rfl, fun h => absurd (hcookie.symm.trans h) Bool.true_eq_false.mp⟩ .nil)

/-- `run --verbose` prints a session cookie, which no redactor knows. -/
theorem not_masksCredentials_cookie :
    DifferInCredentials (cookieHeaders "session_id=abc123".toList)
        (cookieHeaders "session_id=xyz789".toList) ∧
      writeRun plainTools ((echoRun canary statusHolds).withHeaders
          (cookieHeaders "session_id=abc123".toList) .empty) pipe .empty true 10000
        ≠ writeRun plainTools ((echoRun canary statusHolds).withHeaders
          (cookieHeaders "session_id=xyz789".toList) .empty) pipe .empty true 10000 :=
  ⟨differ_cookies _ _, by decide +kernel⟩

end Gabriel.Cli
