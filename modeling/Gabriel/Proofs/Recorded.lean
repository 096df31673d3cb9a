import Gabriel.Proofs.CaptureById
import Gabriel.Proofs.GivenCookies

/-!
# `Gabriel.Proofs.Recorded`: the log of what was relayed

The proxy records an upgrade when its answer is there, and anything else when it is delivered; in
between, other requests come and other relays end. `System.finished` are the relays that a run
brought to an end, and `Exchange.answer` is the answer of an upstream that the browser gets from
one.

The id of a capture is the clock and the low half of a counter that only counts captures. The
invariant of a run (`Recorded`) has the captures, what they tell, and the number of each, which is
enough to find one of the last captures again by its id, in the file that the log writes. The
theorems:

* `captureId_inj`: two captures of one id have the same clock, and numbers that differ by a multiple
  of 65536.
* `logs_dispatchHead`, `logs_dispatchRest`: what the two parts of a relay give to the log.
* `recorded_begin`, `recorded_deliver`, `recorded_step`, `recorded_run`: the invariant.
* `recorded_once`: in whatever order relays come and end, every answer is recorded once.
* `found_by_id`: each of the last captures is found by its id.
-/

set_option autoImplicit false

namespace Gabriel.Proxy

open Gabriel.Core Gabriel.Engine Text

/-! ### Ids -/

/-- The digits of a number in base 16. -/
def hexDigits : Text := "0123456789abcdef".toList

/-- The number of a text in base 16. -/
def hexValue (t : Text) : Nat := t.foldl (fun n c => 16 * n + hexDigits.idxOf c) 0

/-- A number is read back from its text. -/
theorem hexValue_hexText (n : Nat) : hexValue (hexText n) = n := by
  have hdigit : ∀ d < 16, hexDigits.idxOf (Nat.digitChar d) = d := by decide
  induction n using Nat.strongRecOn with
  | ind n ih =>
    unfold hexText
    rw [Nat.toDigits_eq_if (by decide)]
    -- One digit, or the digits of the quotient and one more.
    by_cases hsmall : n < 16
    · rw [if_pos hsmall]
      show 16 * 0 + hexDigits.idxOf (Nat.digitChar n) = n
      rw [hdigit n hsmall]
      omega
    · rw [if_neg hsmall]
      have hfront := ih (n / 16) (by omega)
      unfold hexValue hexText at hfront
      unfold hexValue
      rw [List.foldl_append, hfront, List.foldl_cons, List.foldl_nil, hdigit _ (by omega)]
      omega

/-- Zeros in front of a number do not change it. -/
theorem hexValue_zeros (k : Nat) (t : Text) :
    hexValue (List.replicate k '0' ++ t) = hexValue t := by
  induction k with
  | zero => rfl
  | succ k ih => exact ih

/-- What an id says of the counter. -/
theorem low_counter (n : Nat) : (UInt64.ofNat n &&& 0xffff).toNat = n % 65536 := by
  have hmask : (0xffff : UInt64).toNat = 2 ^ 16 - 1 := rfl
  rw [UInt64.toNat_and, hmask, Nat.and_two_pow_sub_one_eq_mod, UInt64.toNat_ofNat']
  omega

/-- An id is a `c`, the clock and four digits. -/
theorem captureId_eq (ms : UInt64) (n : Nat) : ∃ low : Text, low.length = 4 ∧
    hexValue low = n % 65536 ∧ captureId ms (UInt64.ofNat n) = 'c' :: hexText ms.toNat ++ low := by
  refine ⟨_, ?_, ?_, rfl⟩
  · have hshort : (hexText (UInt64.ofNat n &&& 0xffff).toNat).length ≤ 4 := by
      rw [low_counter]
      exact (Nat.length_toDigits_le_iff (by decide) (by decide)).mpr (by omega)
    rw [List.length_append, List.length_replicate]
    omega
  · rw [hexValue_zeros, hexValue_hexText, low_counter]

/-- Two captures of one id have the same clock, and their numbers differ by a multiple of
65536. -/
theorem captureId_inj {ms ms' : UInt64} {n n' : Nat}
    (h : captureId ms (UInt64.ofNat n) = captureId ms' (UInt64.ofNat n')) :
    ms = ms' ∧ n % 65536 = n' % 65536 := by
  obtain ⟨low, hlength, hvalue, hid⟩ := captureId_eq ms n
  obtain ⟨low', hlength', hvalue', hid'⟩ := captureId_eq ms' n'
  rw [hid, hid', List.cons_append, List.cons_append, List.cons.injEq] at h
  -- The four digits at the end are the counter, whatever the length of the clock.
  obtain ⟨hclock, hlow⟩ := List.append_inj' h.2 (hlength.trans hlength'.symm)
  refine ⟨UInt64.toNat_inj.mp ?_, ?_⟩
  · rw [← hexValue_hexText ms.toNat, hclock, hexValue_hexText]
  · rw [← hvalue, hlow, hvalue']

example : captureId 1785333240123 65537 = "c19fae27513b0001".toList := by decide +kernel

/-- The years in which the clock has eleven digits: from 2004 to 2527. -/
def Dated (ms : UInt64) : Prop := 2 ^ 40 ≤ ms.toNat ∧ ms.toNat < 2 ^ 44

/-- In these years, ids have one length. -/
theorem length_captureId {ms : UInt64} (h : Dated ms) (n : Nat) :
    (captureId ms (UInt64.ofNat n)).length = 16 := by
  obtain ⟨low, hlength, -, hid⟩ := captureId_eq ms n
  have hupper : (hexText ms.toNat).length ≤ 11 :=
    (Nat.length_toDigits_le_iff (by decide) (by decide)).mpr h.2
  have hlower : ¬ (hexText ms.toNat).length ≤ 10 := by
    intro hle
    have hsmall := (Nat.length_toDigits_le_iff (by decide) (by decide)).mp hle
    have hbig := h.1
    omega
  rw [hid, List.length_append, List.length_cons, hlength]
  omega

/-! ### Answers -/

section Answers

variable {Url : Type} (lib : HttpLib Url) (config : ProxyConfig)

/-- The answer that is recorded before the relay ends: that of an upgrade. -/
def Exchange.early (exchange : Exchange) : Option UpstreamResponse :=
  match exchange.head with
  | .ok (.upgraded response) => some response
  | _ => none

/-- The answer of the upstream that the browser gets at the end. -/
def Exchange.answer (exchange : Exchange) : Option UpstreamResponse :=
  match exchange.head with
  | .error _ => none
  | .ok (.upgraded response) => some response
  | .ok (.forwarded forwarded) =>
    if streamsIndefinitely forwarded.response.headers.toFieldMap config.maxBodyBytes
        || forwarded.response.body.isOk then some forwarded.response
    else none

/-- What a capture says of an answer: its URL, its status and its headers. -/
abbrev Told := Text × Option (UInt16 × FieldMap)

/-- What a capture says. -/
def told (capture : Capture) : Told :=
  (capture.request.url, capture.response.map fun r => (r.status, r.headers))

/-- What is to be said of the answer to a relay. -/
def Exchange.tells (exchange : Exchange) (answer : Option UpstreamResponse) : List Told :=
  (answer.map fun r => (exchange.url, some (r.status, r.headers.toFieldMap))).toList

/-- The relays that an event ends. -/
def System.ends (system : System) : Event → List Exchange
  | .finish index _ => system.pending[index]?.toList
  | _ => []

/-- The relays that a run brings to an end. -/
def System.finished : System → List Event → List Exchange
  | _, [] => []
  | system, event :: events =>
    system.ends event ++ System.finished (system.step lib config event) events

/-- The browser gets the answer of the upstream, or a `502` of the proxy. -/
def Relayed (exchange : Exchange) (delivery : Delivery) : Prop :=
  delivery.url = exchange.url ∧
    match exchange.answer config with
    | some response => delivery.response.status = response.status
    | none => ∃ message, delivery.response = badGateway message

/-- The clock, as the capture of an event would read it. -/
def Event.idMs : Event → UInt64
  | .request _ encounter => encounter.readings.idMs
  | .through _ _ encounter => encounter.readings.idMs
  | .finish _ readings => readings.idMs

/-! ### One part of a relay -/

/-- A capture with the next number is given to the log, or none. -/
def Logs (state after : ProxyState) (ms : UInt64) : List Told → Prop
  | [line] => ∃ capture, told capture = line ∧ capture.id = captureId ms state.counter ∧
      after.captures = state.captures ++ [capture] ∧ after.counter = state.counter + 1
  | lines => lines = [] ∧ after.captures = state.captures ∧ after.counter = state.counter

variable {lib config}

/-- Recording cookies counts no capture. -/
theorem counter_recordCookies (state : ProxyState) (url : Text) (cookies : List Text)
    (clock : Nat → UInt64) :
    (recordCookies lib config state url cookies clock).counter = state.counter := by
  unfold recordCookies
  split
  · rfl
  · split <;> rfl

/-- The first part records the answer to an upgrade, and nothing else. -/
theorem logs_dispatchHead (state : ProxyState) (request : BrowserRequest) (url : Text)
    (encounter : Encounter) {exchange : Exchange}
    (h : exchange
      = ⟨url, encounter.clock, (dispatchHead lib config state request url encounter).2⟩) :
    Logs state (dispatchHead lib config state request url encounter).1 encounter.readings.idMs
        (exchange.tells exchange.early) ∧
      ∀ forwarded, exchange.head = .ok (.forwarded forwarded) → forwarded.url = exchange.url := by
  rw [h]
  unfold dispatchHead
  split
  · unfold relayUpgradeHead
    -- Every way out but the last answers with an error, and records nothing.
    split
    · exact ⟨⟨rfl, rfl, rfl⟩, fun _ hno => nomatch hno⟩
    split
    · exact ⟨⟨rfl, rfl, rfl⟩, fun _ hno => nomatch hno⟩
    dsimp only
    split
    · exact ⟨⟨rfl, rfl, rfl⟩, fun _ hno => nomatch hno⟩
    split
    · exact ⟨⟨rfl, rfl, rfl⟩, fun _ hno => nomatch hno⟩
    split
    · exact ⟨⟨rfl, rfl, rfl⟩, fun _ hno => nomatch hno⟩
    · exact ⟨⟨_, rfl, rfl, rfl, rfl⟩, fun _ hno => nomatch hno⟩
  · unfold forwardHead
    -- The last way out has an answer, which is not recorded yet.
    split
    · exact ⟨⟨rfl, rfl, rfl⟩, fun _ hno => nomatch hno⟩
    split
    · exact ⟨⟨rfl, rfl, rfl⟩, fun _ hno => nomatch hno⟩
    split
    · exact ⟨⟨rfl, rfl, rfl⟩, fun _ hno => nomatch hno⟩
    split
    · exact ⟨⟨rfl, rfl, rfl⟩, fun _ hno => nomatch hno⟩
    dsimp only
    split
    · exact ⟨⟨rfl, rfl, rfl⟩, fun _ hno => nomatch hno⟩
    · refine ⟨⟨rfl, captures_recordCookies _ _ _ _, counter_recordCookies _ _ _ _⟩, ?_⟩
      intro forwarded hforwarded
      rw [← Head.forwarded.inj (Except.ok.inj hforwarded)]

/-- The second part records what the browser gets, unless the first part did. -/
theorem logs_dispatchRest (state : ProxyState) {exchange : Exchange} (readings : Readings)
    (hurl : ∀ forwarded, exchange.head = .ok (.forwarded forwarded) →
      forwarded.url = exchange.url) :
    ∃ lines, Logs state (dispatchRest lib config state exchange.head readings).1 readings.idMs
        lines ∧
      exchange.tells (exchange.answer config) = exchange.tells exchange.early ++ lines ∧
      Relayed config exchange ⟨exchange.url, exchange.clock,
        (dispatchRest lib config state exchange.head readings).2⟩ := by
  obtain ⟨url, clock, head⟩ := exchange
  unfold dispatchRest Relayed
  cases head with
  | error e => exact ⟨[], ⟨rfl, rfl, rfl⟩, rfl, rfl, e, rfl⟩
  | ok head =>
    cases head with
    | upgraded response =>
      refine ⟨[], ⟨rfl, rfl, rfl⟩, (List.append_nil _).symm, rfl, ?_⟩
      show (relayUpgradeRest response).status = response.status
      unfold relayUpgradeRest
      dsimp only
      -- An upgrade that was declined is passed on with its own status.
      by_cases hstatus : response.status = 101
      · rw [if_neg (not_not.mpr hstatus), hstatus]
      · rw [if_pos hstatus]
    | forwarded forwarded =>
      have hsame : forwarded.url = url := hurl forwarded rfl
      let line : Told := (forwarded.url,
        some (forwarded.response.status, forwarded.response.headers.toFieldMap))
      dsimp only
      unfold forwardRest Exchange.answer
      dsimp only
      -- A stream is recorded without its body, anything else when the body is there.
      by_cases hstream : streamsIndefinitely forwarded.response.headers.toFieldMap
          config.maxBodyBytes = true
      · rw [if_pos hstream, if_pos (by rw [hstream]; rfl)]
        exact ⟨[line], ⟨_, rfl, rfl, rfl, rfl⟩, by rw [← hsame]; rfl, rfl, rfl⟩
      · rw [if_neg hstream]
        cases hbody : forwarded.response.body with
        | ok bytes =>
          rw [if_pos (by rw [Bool.or_eq_true]; exact Or.inr rfl)]
          exact ⟨[line], ⟨_, rfl, rfl, rfl, rfl⟩, by rw [← hsame]; rfl, rfl, rfl⟩
        | error e =>
          rw [if_neg (by rw [Bool.or_eq_true]; rintro (h | h); exacts [hstream h, nomatch h])]
          exact ⟨[], ⟨rfl, rfl, rfl⟩, rfl, rfl, _, rfl⟩

/-! ### A run -/

/-- The counter counts the captures, and a capture has the number of its place in the log. `P` is
what is known of the clock. -/
structure Numbered (P : UInt64 → Prop) (state : ProxyState) : Prop where
  counter : state.counter = UInt64.ofNat state.captures.length
  ids : ∀ index capture, state.captures[index]? = some capture →
    ∃ ms, P ms ∧ capture.id = captureId ms (UInt64.ofNat index)

/-- A part of a relay goes on with the numbers, and adds to the log what it says. -/
theorem Numbered.logs {P : UInt64 → Prop} {state after : ProxyState} {ms : UInt64}
    {lines : List Told} (h : Numbered P state) (hlogs : Logs state after ms lines) (hms : P ms) :
    Numbered P after ∧ after.captures.map told = state.captures.map told ++ lines := by
  cases lines with
  | nil =>
    obtain ⟨-, hcaptures, hcounter⟩ := hlogs
    rw [hcaptures, List.append_nil]
    refine ⟨⟨?_, fun index capture => ?_⟩, rfl⟩
    · rw [hcounter, hcaptures]
      exact h.counter
    · rw [hcaptures]
      exact h.ids index capture
  | cons line rest =>
    cases rest with
    | nil =>
      obtain ⟨new, htold, hid, hcaptures, hcounter⟩ := hlogs
      rw [hcaptures, List.map_append, List.map_singleton, htold]
      refine ⟨⟨?_, fun index capture hget => ?_⟩, rfl⟩
      · rw [hcounter, hcaptures, h.counter, List.length_append, List.length_singleton,
          UInt64.ofNat_add]
        rfl
      · rw [hcaptures] at hget
        -- The new capture is the last one of the log.
        by_cases hold : index < state.captures.length
        · rw [List.getElem?_append_left hold] at hget
          exact h.ids index capture hget
        · rw [List.getElem?_append_right (not_lt.mp hold)] at hget
          obtain ⟨hlast, hnew⟩ := List.getElem?_eq_some_iff.mp hget
          rw [List.length_singleton] at hlast
          rw [List.getElem_singleton] at hnew
          refine ⟨ms, hms, ?_⟩
          rw [← hnew, hid, h.counter, show index = state.captures.length by omega]
    | cons => exact nomatch hlogs.1

variable (lib config) in
/-- What a run keeps, with the relays that it finished. -/
structure Recorded (P : UInt64 → Prop) (finished : List Exchange) (system : System) : Prop where
  delivered : List.Forall₂ (Relayed config) finished system.delivered
  /-- The captures are of the answers that were delivered, and of the pending upgrades. -/
  log : (system.state.captures.map told).Perm
    (finished.flatMap (fun exchange => exchange.tells (exchange.answer config))
      ++ system.pending.flatMap fun exchange => exchange.tells exchange.early)
  urls : ∀ exchange ∈ system.pending, ∀ forwarded, exchange.head = .ok (.forwarded forwarded) →
    forwarded.url = exchange.url
  numbered : Numbered P system.state

/-- A new relay. -/
theorem recorded_begin {P : UInt64 → Prop} {finished : List Exchange} {system : System}
    (h : Recorded config P finished system) (request : BrowserRequest) (url : Text)
    {encounter : Encounter} (hms : P encounter.readings.idMs) :
    Recorded config P finished (system.begin lib config request url encounter) := by
  obtain ⟨hlogs, hurl⟩ := @logs_dispatchHead _ lib config system.state request url encounter _ rfl
  obtain ⟨hnumbered, htold⟩ := h.numbered.logs hlogs hms
  refine ⟨h.delivered, ?_, ?_, hnumbered⟩
  · show ((dispatchHead lib config system.state request url encounter).1.captures.map told).Perm
      (_ ++ (system.pending ++ [_]).flatMap _)
    rw [htold, List.flatMap_append, List.flatMap_singleton, ← List.append_assoc]
    exact h.log.append_right _
  · intro exchange hmem
    rcases List.mem_append.mp hmem with hold | hnew
    · exact h.urls exchange hold
    · rw [List.mem_singleton.mp hnew]
      exact hurl

/-- A relay that ends. -/
theorem recorded_deliver {P : UInt64 → Prop} {finished : List Exchange} {system : System}
    (h : Recorded config P finished system) {index : Nat} {exchange : Exchange}
    (hexchange : system.pending[index]? = some exchange) {readings : Readings}
    (hms : P readings.idMs) :
    Recorded config P (finished ++ [exchange])
      (system.deliver lib config index exchange readings) := by
  obtain ⟨hlt, hget⟩ := List.getElem?_eq_some_iff.mp hexchange
  obtain ⟨lines, hlogs, htells, hrelayed⟩ := @logs_dispatchRest _ lib config system.state exchange
    readings (h.urls exchange (List.mem_of_getElem? hexchange))
  obtain ⟨hnumbered, htold⟩ := h.numbered.logs hlogs hms
  refine ⟨List.rel_append h.delivered (.cons hrelayed .nil), ?_, ?_, hnumbered⟩
  · show ((dispatchRest lib config system.state exchange.head readings).1.captures.map told).Perm
      ((finished ++ [exchange]).flatMap _ ++ (system.pending.eraseIdx index).flatMap _)
    have hpending := (List.getElem_cons_eraseIdx_perm hlt).flatMap_right
      fun exchange => exchange.tells exchange.early
    rw [hget, List.flatMap_cons] at hpending
    rw [htold, List.flatMap_append, List.flatMap_singleton, htells]
    -- The capture of an upgrade moves from the pending relays to the finished ones.
    classical
    refine List.perm_iff_count.mpr fun line => ?_
    have hlog := h.log.count_eq line
    have hmoved := hpending.count_eq line
    rw [List.count_append] at hlog hmoved
    rw [List.count_append, List.count_append, List.count_append, List.count_append]
    omega
  · exact fun other hother => h.urls other (List.mem_of_mem_eraseIdx hother)

/-- One event. -/
theorem recorded_step {P : UInt64 → Prop} {finished : List Exchange} {system : System}
    (h : Recorded config P finished system) {event : Event} (hms : P event.idMs) :
    Recorded config P (finished ++ system.ends event) (system.step lib config event) := by
  unfold System.step System.ends
  -- Along the events; only the end of a relay delivers something.
  cases event with
  | request request encounter =>
    dsimp only
    rw [List.append_nil]
    -- A `CONNECT` opens a tunnel and records nothing.
    by_cases hconnect : request.method = "CONNECT".toList
    · rw [if_pos hconnect]
      exact ⟨h.delivered, h.log, h.urls, h.numbered⟩
    · rw [if_neg hconnect]
      exact recorded_begin h request _ hms
  | through tunnel request encounter =>
    dsimp only
    rw [List.append_nil]
    split
    · exact recorded_begin h request _ hms
    · exact h
  | finish index readings =>
    dsimp only
    -- A relay that was ended before is not there any more.
    cases hexchange : system.pending[index]? with
    | none =>
      rw [Option.toList_none, List.append_nil]
      exact h
    | some exchange => exact recorded_deliver h hexchange hms

/-- A run. -/
theorem recorded_run {P : UInt64 → Prop} {finished : List Exchange} {system : System}
    (h : Recorded config P finished system) {events : List Event}
    (hms : ∀ event ∈ events, P event.idMs) :
    Recorded config P (finished ++ system.finished lib config events)
      (system.run lib config events) := by
  induction events generalizing finished system with
  | nil =>
    unfold System.finished
    rw [List.append_nil]
    exact h
  | cons event events ih =>
    rw [System.run_cons]
    unfold System.finished
    rw [← List.append_assoc]
    exact ih (recorded_step h (hms event List.mem_cons_self))
      fun later hlater => hms later (List.mem_cons_of_mem event hlater)

/-- Nothing is recorded at the start. -/
theorem recorded_start (P : UInt64 → Prop) (sessions : SessionStore) :
    Recorded config P [] (System.start sessions) :=
  ⟨.nil, .nil, fun _ h => absurd h List.not_mem_nil, rfl, fun _ _ h => nomatch h⟩

/-- **Every answer is recorded once.** In whatever order requests come and relays end: each relay
that ended gave the browser the answer of its upstream, or a `502` of the proxy; and the log has,
once each, the answers that the browser was given and those to the upgrades that are still
pending, and nothing else. -/
theorem recorded_once (lib : HttpLib Url) (config : ProxyConfig) (sessions : SessionStore)
    (events : List Event) :
    List.Forall₂ (Relayed config) ((System.start sessions).finished lib config events)
        ((System.start sessions).run lib config events).delivered ∧
      (((System.start sessions).run lib config events).state.captures.map told).Perm
        (((System.start sessions).finished lib config events).flatMap
            (fun exchange => exchange.tells (exchange.answer config))
          ++ ((System.start sessions).run lib config events).pending.flatMap
            fun exchange => exchange.tells exchange.early) := by
  have h := @recorded_run _ lib config (fun _ => True) [] _ (recorded_start _ sessions) events
    fun _ _ => trivial
  exact ⟨h.delivered, h.log⟩

/-- A log that was written by one store reads as what was written. -/
theorem captures_runLog {parse : List UInt8 → Option Capture} {render : Capture → List UInt8}
    {log : List Capture} (hformat : CaptureStore.LineFormat parse render log) :
    CaptureStore.captures parse (CaptureStore.runLog render .new (log.map .append)).file
      = log.reverse := by
  have hnone : CaptureStore.newestFirst parse [] = [] := by
    rw [CaptureStore.newestFirst_line List.not_mem_nil]
    rfl
  have happended : CaptureStore.appended (log.map .append) = log := by
    unfold CaptureStore.appended
    rw [List.filterMap_map]
    exact List.filterMap_some
  have hcontent := CaptureStore.content_runLog render .new (log.map .append)
  rw [happended] at hcontent
  have hlines : CaptureStore.newestFirst parse
      (CaptureStore.runLog render .new (log.map .append)).content = log.reverse := by
    have hread := CaptureStore.newestFirst_lines hformat (fun c hc => hc) []
    rw [List.append_nil, hnone, List.nil_append] at hread
    rw [hcontent]
    exact hread
  rw [← hlines]
  unfold CaptureStore.captures CaptureStore.Log.content
  cases (CaptureStore.runLog render .new (log.map .append)).file with
  | none => exact hnone.symm
  | some content => rfl

/-- **A capture is found by its id.** Of the captures of a run between 2004 and 2527, each of the
last 65536 is what the log gives for its id. -/
theorem found_by_id (lib : HttpLib Url) (config : ProxyConfig) (sessions : SessionStore)
    (events : List Event) (hclock : ∀ event ∈ events, Dated event.idMs)
    {parse : List UInt8 → Option Capture} {render : Capture → List UInt8}
    (hformat : CaptureStore.LineFormat parse render
      ((System.start sessions).run lib config events).state.captures)
    {index : Nat} {capture : Capture}
    (h : ((System.start sessions).run lib config events).state.captures[index]? = some capture)
    (hlast : ((System.start sessions).run lib config events).state.captures.length
      ≤ index + 65536) :
    CaptureStore.get parse (CaptureStore.runLog render .new
        (((System.start sessions).run lib config events).state.captures.map .append)).file
      capture.id = some capture := by
  have hrun := @recorded_run _ lib config Dated [] _ (recorded_start _ sessions) events hclock
  -- The numbers of the run are the places in its log.
  have hids := hrun.numbered.ids
  generalize ((System.start sessions).run lib config events).state.captures = log at *
  have hlisted := captures_runLog hformat
  have hmem : capture ∈ log := List.mem_of_getElem? h
  rw [CaptureStore.get_listed_of_length (n := 16), hlisted]
  · -- The later captures have other numbers
    -- The log is searched from its end, so the captures behind this one must not match.
    obtain ⟨hlt, hget⟩ := List.getElem?_eq_some_iff.mp h
    have hsplit : log = log.take index ++ capture :: log.drop (index + 1) := by
      rw [← hget, List.getElem_cons_drop, List.take_append_drop]
    refine List.find?_eq_some_iff_append.mpr ⟨decide_eq_true rfl,
      (log.drop (index + 1)).reverse, (log.take index).reverse, ?_, fun other hother => ?_⟩
    · conv_lhs => rw [hsplit]
      simp
    · rw [List.mem_reverse] at hother
      obtain ⟨later, hlater⟩ := List.mem_iff_getElem?.mp hother
      rw [List.getElem?_drop] at hlater
      obtain ⟨hbound, -⟩ := List.getElem?_eq_some_iff.mp hlater
      -- Two captures with one id would have numbers that differ by 65536 at least.
      obtain ⟨ms, -, hid⟩ := hids _ _ h
      obtain ⟨ms', -, hid'⟩ := hids _ _ hlater
      rw [Bool.not_eq_true', decide_eq_false_iff_not, hid, hid']
      intro hsame
      have hlow := (captureId_inj hsame).2
      omega
  · -- An id is the beginning of no other one.
    intro other hother
    rw [hlisted, List.mem_reverse] at hother
    obtain ⟨place, hplace⟩ := List.mem_iff_getElem?.mp hother
    obtain ⟨ms, hms, hid⟩ := hids _ _ hplace
    rw [hid]
    exact length_captureId hms place
  · rw [hlisted, List.mem_reverse]
    exact hmem

end Answers

/-- The library, for an answer that is well. -/
def okLib : HttpLib (Bool × Text × Text) :=
  { plainLib with canonicalReason := fun status => if status = 200 then some "OK".toList else none }

/-- A page is loaded twice at a time in 2026. -/
def datedRun : List Event :=
  let readings : Readings := ⟨1785333240123, 1785333240116, 7⟩
  let page : Event := .request askLogin { answeredBy loginPage with readings }
  [page, page, .finish 1 readings, .finish 0 readings]

/-- The capture of a load. -/
def loginCapture (id : Text) : Capture where
  id
  atMs := 1785333240116
  durationMs := 7
  session := some "default".toList
  page := none
  request :=
    { method := "GET".toList, url := "http://app.test/login".toList
      httpVersion := "HTTP/1.1".toList, headers := .empty, body := none }
  response := some
    { status := 200, statusText := "OK".toList, headers := loginPage.headers.toFieldMap
      body := some (.text "hello".toList) }

/-- The ids of the two. -/
def loginIds : List Text := ["c19fae27513b0000".toList, "c19fae27513b0001".toList]

/-- The line of a capture. -/
def loginLine (capture : Capture) : List UInt8 :=
  Utf8.encode ("\x7b\"id\":\"".toList ++ capture.id
    ++ "\",\"at\":1785333240116,\"duration_ms\":7,".toList
    ++ "\"session\":\"default\",\"request\":\x7b\"method\":\"GET\",".toList
    ++ "\"url\":\"http://app.test/login\",\"http_version\":\"HTTP/1.1\",".toList
    ++ "\"headers\":\x7b\x7d\x7d,\"response\":\x7b\"status\":200,\"status_text\":\"OK\",".toList
    ++ "\"headers\":\x7b\"set-cookie\":\"sid=1\"\x7d,\"body\":\x7b\"encoding\":\"text\",".toList
    ++ "\"text\":\"hello\"\x7d\x7d\x7d".toList)

/-- A decoder of the lines. -/
def loginParse (line : List UInt8) : Option Capture :=
  (loginIds.map loginCapture).find? fun capture => loginLine capture = line

/-- The lines have the format of the log. -/
theorem loginParse_format : CaptureStore.LineFormat loginParse loginLine
    (loginIds.map loginCapture) := by
  have hlength : ∀ c ∈ loginIds.map loginCapture,
      (loginLine c).length = (loginLine (loginCapture "c19fae27513b0000".toList)).length := by
    decide +kernel
  -- Every line has the same length, and a cut or a joined one has another.
  have hother : ∀ line : List UInt8,
      line.length ≠ (loginLine (loginCapture "c19fae27513b0000".toList)).length →
        loginParse line = none :=
    fun line h => List.find?_eq_none.mpr fun c hc heq => h <| by
      rw [← of_decide_eq_true heq, hlength c hc]
  refine ⟨by decide +kernel, by decide +kernel, by decide +kernel,
    fun c hc n hn _ => hother _ ?_, fun c hc a ha n hn hpos => hother _ ?_⟩
  · rw [← hlength c hc, List.length_take]
    omega
  · rw [← hlength a ha, List.length_append, List.length_take]
    omega

/-- The first of the two is found in the log, behind the other one. -/
theorem found_by_id_login : CaptureStore.get loginParse (CaptureStore.runLog loginLine .new
    (((System.start .new).run okLib openConfig datedRun).state.captures.map .append)).file
      "c19fae27513b0000".toList = some (loginCapture "c19fae27513b0000".toList) := by
  have hlog : ((System.start .new).run okLib openConfig datedRun).state.captures
      = loginIds.map loginCapture := by decide +kernel
  have hdated : Dated 1785333240123 := ⟨by decide, by decide⟩
  have hclock : ∀ event ∈ datedRun, Dated event.idMs := by
    intro event hevent
    simp only [datedRun, List.mem_cons, List.not_mem_nil, or_false] at hevent
    rcases hevent with rfl | rfl | rfl | rfl
    all_goals exact hdated
  exact @found_by_id _ okLib openConfig .new datedRun hclock loginParse loginLine
    (hlog ▸ loginParse_format) 0 _ (by rw [hlog]; rfl) (by rw [hlog]; decide)

end Gabriel.Proxy
