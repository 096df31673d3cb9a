import Gabriel.Engine.Callback
import Gabriel.Lib.Fallible
import Gabriel.Proofs.PercentDecode

/-!
# `Gabriel.Proofs.Callback`: which request decides a login

`waitForCode` listens on a loopback port, where any page that is open in the browser can send it
requests. `OnlyMatching` is what it owes the login: a code or a refusal comes from a request that
carries the expected state, and the requests that are no answer of the provider do not end the
wait.

The wait ends at the first request that it does not pass over. `Astray` is a request that may not be
that one and is: a refusal without the state, which is believed because `error` is looked at
before `state`, or a request that `urldecode` panics on. The theorems:

* `constantTimeEq_iff`: the comparison of the states tells whether they are the same.
* `parseQuery_eq`, `parseQuery_eq_none`: the parameters of a request, and the requests that panic.
* `waitForCode_passedOver`: the wait skips the requests that it passes over.
* `onlyMatching_cons_iff`: one request that is not passed over.
* `onlyMatching_iff`: for every sequence of connections, a login is decided by the callback that
  matches exactly when no request goes astray first.
-/

set_option autoImplicit false

namespace Gabriel.Engine

open Gabriel.Core Text

/-! ### The comparison of the states -/

/-- Collecting the differences of two texts of bytes gives zero exactly when they are the same. -/
theorem foldl_or_xor_eq_zero {a b : List UInt8} (h : a.length = b.length) (acc : UInt8) :
    (a.zip b).foldl (fun acc e => acc ||| (e.1 ^^^ e.2)) acc = 0 ↔ acc = 0 ∧ a = b := by
  induction a generalizing b acc with
  | nil =>
    rw [List.length_nil] at h
    rw [List.eq_nil_of_length_eq_zero h.symm]
    exact (and_iff_left rfl).symm
  | cons x a ih =>
    cases b with
    | nil => exact absurd h (Nat.succ_ne_zero _)
    | cons y b =>
      rw [List.zip_cons_cons, List.foldl_cons, ih (Nat.succ.inj h), UInt8.or_eq_zero_iff,
        UInt8.xor_eq_zero_iff, List.cons_eq_cons, and_assoc]

/-- The comparison tells whether the texts are the same. -/
theorem constantTimeEq_iff {a b : Text} : constantTimeEq a b = true ↔ a = b := by
  unfold constantTimeEq
  dsimp only
  by_cases hlength : (Utf8.encode a).length = (Utf8.encode b).length
  · rw [if_neg (not_not.mpr hlength), beq_iff_eq, foldl_or_xor_eq_zero hlength,
      and_iff_right rfl]
    exact Utf8.encode_injective.eq_iff
  · rw [if_pos hlength]
    constructor
    · exact fun h => absurd h Bool.false_ne_true
    · intro h
      exact absurd (by rw [h]) hlength

/-! ### The parameters of a request -/

/-- Whether a component can be decoded: no escape in it is cut inside a character. -/
def Decodes (component : Text) : Prop := everyEscape onBoundary (Utf8.encode component) = true

/-- Whether a request can be read: every component of its query can be decoded. -/
def ReadableRequest (read : List UInt8) : Prop :=
  ∀ query ∈ requestQuery read, ∀ pair ∈ rawParams query, Decodes pair.1 ∧ Decodes pair.2

/-- The value that a request carries for a parameter: that of the last pair of the name. -/
def param (read : List UInt8) (name : String) : Option Text :=
  (requestQuery read).bind fun query =>
    (SortedMap.ofList ((rawParams query).filterMap decodeParam)).get? name.toList

/-- A pair is decoded when both components are. -/
theorem isSome_decodeParam (pair : Text × Text) :
    (decodeParam pair).isSome = true ↔ Decodes pair.1 ∧ Decodes pair.2 := by
  unfold Decodes
  rw [← isSome_percentDecode, ← isSome_percentDecode]
  unfold decodeParam urldecode
  cases percentDecode pair.1 with
  | none => simp
  | some key =>
    cases percentDecode pair.2 with
    | none => simp
    | some value => simp

/-- The parameters of a query that can be decoded. -/
theorem parseQuery_eq {query : Text}
    (h : ∀ pair ∈ rawParams query, Decodes pair.1 ∧ Decodes pair.2) :
    parseQuery query = some (SortedMap.ofList ((rawParams query).filterMap decodeParam)) := by
  unfold parseQuery
  rw [Fallible.mapM_eq_filterMap fun pair hpair => (isSome_decodeParam pair).mpr (h pair hpair)]
  rfl

/-- The other queries panic. -/
theorem parseQuery_eq_none {query : Text}
    (h : ¬ ∀ pair ∈ rawParams query, Decodes pair.1 ∧ Decodes pair.2) :
    parseQuery query = none := by
  have hall : ¬ ((rawParams query).all fun pair => (decodeParam pair).isSome) = true := by
    intro hall
    exact h fun pair hpair => (isSome_decodeParam pair).mp (List.all_eq_true.mp hall pair hpair)
  unfold parseQuery
  rw [Option.map_eq_none_iff, ← Option.not_isSome_iff_eq_none, Fallible.isSome_mapM]
  exact hall

/-! ### One answer -/

/-- The wait passes over a request without a query, and over one with the right state that brings
neither a code nor a refusal. -/
def PassedOver (expectedState : Text) (read : List UInt8) : Prop :=
  requestQuery read = none ∨
    ReadableRequest read ∧ param read "error" = none ∧ param read "state" = some expectedState ∧
      param read "code" = none

section Answer

variable {expectedState query : Text} {read : List UInt8}

/-- The parameters that the answer looks at are those that the request carries. -/
theorem params_eq (hquery : requestQuery read = some query) (hread : ReadableRequest read) :
    ∃ params, parseQuery query = some params ∧
      ∀ name : String, params.get? name.toList = param read name := by
  refine ⟨_, parseQuery_eq (hread query hquery), fun name => ?_⟩
  unfold param
  rw [hquery]
  rfl

/-- A request without a query is not the callback. -/
theorem answerCallback_noQuery (h : requestQuery read = none) :
    answerCallback expectedState read = .wait ⟨404, "Not the callback.".toList⟩ := by
  unfold answerCallback
  rw [h]

/-- A request that cannot be read panics. -/
theorem answerCallback_panicked (hread : ¬ ReadableRequest read) :
    answerCallback expectedState read = .panicked := by
  cases hquery : requestQuery read with
  | none => exact absurd (fun query hmem => nomatch hquery.symm.trans hmem) hread
  | some query =>
    have hnone : parseQuery query = none := by
      refine parseQuery_eq_none fun hall => hread fun query' hmem => ?_
      rw [Option.mem_def, hquery] at hmem
      rwa [← Option.some.inj hmem]
    unfold answerCallback
    rw [hquery]
    dsimp only
    rw [hnone]

/-- A refusal ends the wait, whatever the state. -/
theorem answerCallback_error {error : Text} (hquery : requestQuery read = some query)
    (hread : ReadableRequest read) (herror : param read "error" = some error) :
    answerCallback expectedState read
      = .done ⟨400, "Authorization failed. You can close this tab.".toList⟩
          (.error (refusal error ((param read "error_description").getD error))) := by
  obtain ⟨params, hparams, hget⟩ := params_eq hquery hread
  unfold answerCallback
  rw [hquery]
  dsimp only
  rw [hparams]
  dsimp only
  rw [hget, herror]
  dsimp only
  rw [hget]

/-- Without a refusal, a request with another state ends the wait. -/
theorem answerCallback_mismatch (hquery : requestQuery read = some query)
    (hread : ReadableRequest read)
    (herror : param read "error" = none) (hstate : param read "state" ≠ some expectedState) :
    answerCallback expectedState read
      = .done ⟨400, "Unexpected state. Nothing was accepted.".toList⟩
          (.error (.auth
            "the callback's state did not match — the response was discarded".toList)) := by
  obtain ⟨params, hparams, hget⟩ := params_eq hquery hread
  unfold answerCallback
  rw [hquery]
  dsimp only
  rw [hparams]
  dsimp only
  rw [hget, herror]
  dsimp only
  rw [hget, if_neg]
  intro hany
  cases hcarried : param read "state" with
  | none =>
    rw [hcarried] at hany
    exact absurd hany Bool.false_ne_true
  | some state =>
    rw [hcarried, Option.any_some, constantTimeEq_iff] at hany
    exact hstate (by rw [hcarried, hany])

/-- The right state with a code ends the wait with the code; without one the wait goes on. -/
theorem answerCallback_match (hquery : requestQuery read = some query)
    (hread : ReadableRequest read)
    (herror : param read "error" = none) (hstate : param read "state" = some expectedState) :
    (param read "code" = none →
      answerCallback expectedState read = .wait ⟨400, "No code in the callback.".toList⟩) ∧
    ∀ code, param read "code" = some code →
      answerCallback expectedState read
        = .done ⟨200,
            "Signed in. You can close this tab and go back to the terminal.".toList⟩
            (.ok code) := by
  -- The parameters that are read are those of the query.
  obtain ⟨params, hparams, hget⟩ := params_eq hquery hread
  have hmatch : (params.get? "state".toList).any (fun state => constantTimeEq state expectedState)
      = true := by
    rw [hget, hstate]
    exact constantTimeEq_iff.mpr rfl
  -- Both times the state matches and there is no error, so the code decides.
  refine ⟨fun hcode => ?_, fun code hcode => ?_⟩
  all_goals
    unfold answerCallback
    rw [hquery]
    dsimp only
    rw [hparams]
    dsimp only
    rw [hget, herror]
    dsimp only
    rw [if_pos hmatch, hget, hcode]

/-- The wait goes on after a request that it passes over. -/
theorem answerCallback_passedOver (h : PassedOver expectedState read) :
    ∃ reply, answerCallback expectedState read = .wait reply := by
  rcases h with hnone | ⟨hread, herror, hstate, hcode⟩
  · exact ⟨_, answerCallback_noQuery hnone⟩
  · cases hquery : requestQuery read with
    | none => exact ⟨_, answerCallback_noQuery hquery⟩
    | some query => exact ⟨_, (answerCallback_match hquery hread herror hstate).1 hcode⟩

end Answer

/-! ### The wait -/

/-- Only a request of the provider decides the login: what the wait returns comes from a request
with the expected state, and it does not end at a request that brings neither a code nor a
refusal. -/
structure OnlyMatching (expectedState : Text) (finish : WaitEnd) : Prop where
  accepted : ∀ code, finish.result = some (.ok code) →
    ∃ read, finish.answering = some read ∧ param read "state" = some expectedState ∧
      param read "code" = some code
  refused : ∀ error description, finish.result = some (.error (refusal error description)) →
    ∃ read, finish.answering = some read ∧ param read "state" = some expectedState
  ended : ∀ read, finish.answering = some read → requestQuery read ≠ none ∧
    ¬ (param read "error" = none ∧ param read "state" = some expectedState ∧
      param read "code" = none)

/-- A request that the wait should not end at, and does: a refusal without the expected state, or a
request that panics and brings the expected state alone. -/
def Astray (expectedState : Text) (read : List UInt8) : Prop :=
  ReadableRequest read ∧ param read "error" ≠ none ∧ param read "state" ≠ some expectedState ∨
    ¬ ReadableRequest read ∧ param read "error" = none ∧ param read "state" = some expectedState ∧
      param read "code" = none

/-- The wait skips what it passes over. -/
theorem waitForCode_passedOver {expectedState : Text} {before : List (List UInt8)}
    (h : ∀ read ∈ before, PassedOver expectedState read)
    (rest : List (Except Text (List UInt8))) :
    waitForCode expectedState (before.map .ok ++ rest) = waitForCode expectedState rest := by
  induction before with
  | nil => rfl
  | cons read before ih =>
    obtain ⟨reply, hanswer⟩ := answerCallback_passedOver (h read List.mem_cons_self)
    rw [List.map_cons, List.cons_append, waitForCode, hanswer]
    exact ih fun other hother => h other (List.mem_cons_of_mem read hother)

/-- The refusal of the provider is no other error of the wait. -/
theorem refusal_ne (error description : Text) :
    refusal error description ≠ .auth "timed out waiting for the browser to come back".toList ∧
    (∀ message, refusal error description
      ≠ .auth ("accepting the callback failed: ".toList ++ message)) ∧
    refusal error description
      ≠ .auth "the callback's state did not match — the response was discarded".toList := by
  have hfront : ∀ text, refusal error description = .auth text →
      text.take 5 = "the p".toList := by
    intro text h
    rw [← EngineError.auth.inj h]
    rfl
  refine ⟨fun h => ?_, fun message h => ?_, fun h => ?_⟩
  · exact absurd (hfront _ h) (by decide)
  · have hhead : some 'a' = some 't' := congrArg List.head? (hfront _ h)
    exact absurd hhead (by decide)
  · exact absurd (hfront _ h) (by decide)

section End

variable {expectedState query : Text} {read : List UInt8}

/-- A wait that ends in a panic ends well unless the request brings the expected state alone. -/
theorem onlyMatching_panic_iff (hquery : requestQuery read = some query) :
    OnlyMatching expectedState ⟨none, some read⟩ ↔
      ¬ (param read "error" = none ∧ param read "state" = some expectedState ∧
        param read "code" = none) := by
  constructor
  · exact fun h => (h.ended read rfl).2
  · intro h
    refine ⟨fun code hcode => (nomatch hcode),
      fun error description hrefused => (nomatch hrefused), ?_⟩
    intro other hother
    rw [← Option.some.inj hother, hquery]
    exact ⟨Option.some_ne_none query, h⟩

/-- A wait that ends with a refusal ends well exactly when the request has the expected state. -/
theorem onlyMatching_refusal_iff {error : Text} (description : Text)
    (hquery : requestQuery read = some query) (herror : param read "error" = some error) :
    OnlyMatching expectedState ⟨some (.error (refusal error description)), some read⟩ ↔
      param read "state" = some expectedState := by
  constructor
  · intro h
    obtain ⟨other, hother, hstate⟩ := h.refused error description rfl
    rwa [Option.some.inj hother]
  · intro hstate
    refine ⟨fun code hcode => (nomatch hcode), fun _ _ _ => ⟨read, rfl, hstate⟩, ?_⟩
    intro other hother
    rw [← Option.some.inj hother, hquery, herror]
    exact ⟨Option.some_ne_none query, fun hnone => nomatch hnone.1⟩

/-- A wait that ends with the mismatch error ends well. -/
theorem onlyMatching_mismatch (hquery : requestQuery read = some query)
    (hstate : param read "state" ≠ some expectedState) :
    OnlyMatching expectedState ⟨some (.error (.auth
      "the callback's state did not match — the response was discarded".toList)), some read⟩ where
  accepted := fun code hcode => nomatch hcode
  refused := fun error description hrefused =>
    absurd (Except.error.inj (Option.some.inj hrefused)).symm (refusal_ne error description).2.2
  ended := by
    intro other hother
    rw [← Option.some.inj hother, hquery]
    exact ⟨Option.some_ne_none query, fun hparams => hstate hparams.2.1⟩

/-- A wait that ends with the code of a request with the expected state ends well. -/
theorem onlyMatching_code {code : Text} (hquery : requestQuery read = some query)
    (hstate : param read "state" = some expectedState) (hcode : param read "code" = some code) :
    OnlyMatching expectedState ⟨some (.ok code), some read⟩ where
  accepted := fun other hother => by
    rw [← Except.ok.inj (Option.some.inj hother)]
    exact ⟨read, rfl, hstate, hcode⟩
  refused := fun error description hrefused => nomatch hrefused
  ended := by
    intro other hother
    rw [← Option.some.inj hother, hquery, hcode]
    exact ⟨Option.some_ne_none query, fun hparams => nomatch hparams.2.2⟩

/-- The wait ends well at a request that it does not pass over, unless that one goes astray. -/
theorem onlyMatching_cons_iff (hpassed : ¬ PassedOver expectedState read)
    (after : List (Except Text (List UInt8))) :
    OnlyMatching expectedState (waitForCode expectedState (.ok read :: after)) ↔
      ¬ Astray expectedState read := by
  cases hquery : requestQuery read with
  | none => exact absurd (Or.inl hquery) hpassed
  | some query =>
    rw [waitForCode]
    -- A request that cannot be read makes the program panic.
    by_cases hread : ReadableRequest read
    -- An error is looked at before the state, so it ends the wait for any state.
    · cases herror : param read "error" with
      | some error =>
        rw [answerCallback_error hquery hread herror]
        dsimp only
        rw [onlyMatching_refusal_iff _ hquery herror]
        unfold Astray
        rw [herror]
        simp [hread]
      | none =>
        -- With the right state there is a code, or the request would be passed over.
        by_cases hstate : param read "state" = some expectedState
        · cases hcode : param read "code" with
          | none => exact absurd (Or.inr ⟨hread, herror, hstate, hcode⟩) hpassed
          | some code =>
            rw [(answerCallback_match hquery hread herror hstate).2 code hcode]
            refine iff_of_true (onlyMatching_code hquery hstate hcode) ?_
            rintro (⟨-, hsome, -⟩ | ⟨hno, -⟩)
            · exact hsome herror
            · exact hno hread
        -- A wrong state is refused, as the claim says.
        · rw [answerCallback_mismatch hquery hread herror hstate]
          refine iff_of_true (onlyMatching_mismatch hquery hstate) ?_
          rintro (⟨-, hsome, -⟩ | ⟨hno, -⟩)
          · exact hsome herror
          · exact hno hread
    · rw [answerCallback_panicked hread]
      dsimp only
      rw [onlyMatching_panic_iff hquery, Astray]
      simp [hread]

end End

/-- A request that goes astray is not passed over. -/
theorem not_passedOver_of_astray {expectedState : Text} {read : List UInt8}
    (h : Astray expectedState read) : ¬ PassedOver expectedState read := by
  rintro (hnone | ⟨hread, herror, -, -⟩)
  · -- Without a query there is no parameter, and nothing to decode.
    have hparam : ∀ name, param read name = none := by
      intro name
      rw [param, hnone]
      rfl
    rcases h with ⟨-, hsome, -⟩ | ⟨-, -, hstate, -⟩
    · exact hsome (hparam _)
    · rw [hparam] at hstate
      exact nomatch hstate
  · rcases h with ⟨-, hsome, -⟩ | ⟨hno, -⟩
    · exact hsome herror
    · exact hno hread

/-- **A login is decided by the callback that matches, unless a request goes astray first.** For
every expected state and every sequence of connections before the deadline: what the wait returns
comes from a request with the expected state, and no other request ends the wait with a code or a
refusal, if and only if no request that the wait comes to goes astray. -/
theorem onlyMatching_iff (expectedState : Text) (connections : List (Except Text (List UInt8))) :
    OnlyMatching expectedState (waitForCode expectedState connections) ↔
      ∀ (before : List (List UInt8)) read after,
        connections = before.map .ok ++ .ok read :: after →
        (∀ other ∈ before, PassedOver expectedState other) → ¬ Astray expectedState read := by
  constructor
  · rintro h before read after rfl hbefore hastray
    rw [waitForCode_passedOver hbefore,
      onlyMatching_cons_iff (not_passedOver_of_astray hastray)] at h
    exact h hastray
  · intro h
    -- The invariant of the induction: the requests so far were all passed over.
    induction connections with
    | nil =>
      refine ⟨fun code hcode => (nomatch hcode), fun error description hrefused => ?_,
        fun read hread => nomatch hread⟩
      exact absurd (Except.error.inj (Option.some.inj hrefused)).symm
        (refusal_ne error description).1
    | cons connection connections ih =>
      cases connection with
      | error message =>
        refine ⟨fun code hcode => (nomatch hcode), fun error description hrefused => ?_,
          fun read hread => nomatch hread⟩
        exact absurd (Except.error.inj (Option.some.inj hrefused)).symm
          ((refusal_ne error description).2.1 message)
      | ok read =>
        by_cases hpassed : PassedOver expectedState read
        · have hskip := @waitForCode_passedOver expectedState [read]
            (List.forall_mem_singleton.mpr hpassed) connections
          rw [show (Except.ok read : Except Text (List UInt8)) :: connections
            = [read].map .ok ++ connections from rfl, hskip]
          refine ih fun before other after hsplit hbefore => ?_
          refine h (read :: before) other after ?_ ?_
          · rw [hsplit]
            rfl
          · exact List.forall_mem_cons.mpr ⟨hpassed, hbefore⟩
        · rw [onlyMatching_cons_iff hpassed]
          exact h [] read connections rfl (List.forall_mem_nil _)

/-- A page that is open in the browser ends the login with a text of its own. -/
theorem not_onlyMatching_error :
    ¬ OnlyMatching "s1".toList
      (waitForCode "s1".toList [.ok (Utf8.encode "GET /?error=no HTTP/1.1\r\n\r\n".toList)]) := by
  intro h
  obtain ⟨read, hread, hstate⟩ := h.refused "no".toList "no".toList (by decide +kernel)
  rw [← Option.some.inj hread] at hstate
  exact absurd hstate (by decide +kernel)

end Gabriel.Engine
