import Gabriel.Engine.Websocket
import Gabriel.Proofs.SseChunks

/-!
# `Gabriel.Proofs.StreamLimits`: how many events and frames are delivered

A stream is followed up to a number of events, and a socket up to a number of frames. Both loops
look at the limit after a delivery, so a limit of zero delivers one: the limit that counts is
`effective`.

`parsedEvents` are all the events of a stream and `heard` all the frames of a socket, without a
limit, so a limit is exact when it delivers a first part of them, of the right length. For a socket
the pings and pongs do not count (`SocketExact`). The theorems:

* `exec_deliver`: below the limit, the events of a chunk are delivered up to the limit.
* `readStream_seen`: the loop over a stream delivers its events up to the limit, by induction over
  what arrives; and it fails only when the stream does.
* `listen_seen`: the loop over a socket delivers its frames up to the limit.
* `followStream_seen`, `run_seen`: a followed stream, and a socket from its opening on.
* `limits_exact_iff`: the limits are exact when they are not zero, or there is nothing to count.
-/

set_option autoImplicit false

namespace Gabriel.Engine

open Gabriel.Core Text Fallible

/-- The number of deliveries after which a loop stops. -/
def effective (limit : Nat) : Nat := max limit 1

/-! ### Events -/

section Events

variable {Url : Type}

/-- The events of a stream. A stream that closes has the one that `finish` adds. -/
def parsedEvents : Sse.Parser → List Arrival → List Sse.Event
  | _, [] => []
  | parser, .closed :: _ => parser.finish.1.toList
  | _, .failed _ :: _ => []
  | parser, .chunk bytes :: rest =>
    (parser.push bytes).1 ++ parsedEvents (parser.push bytes).2 rest

/-- The arrival is no failure. -/
def Arrival.Sound : Arrival → Prop
  | .failed _ => False
  | _ => True

/-- Calling the callback adds to what it was given. -/
theorem exec_emit {Seen : Type} (item : Seen) (s : Watched Url Seen) :
    exec (emit item) s = (.ok ⟨⟩, { s with seen := s.seen ++ [item] }) := rfl

/-- Below the limit, the events of a chunk are delivered up to the limit. -/
theorem exec_deliver (limit : Nat) (events : List Sse.Event) (s : Watched Url Sse.Event)
    (h : s.seen.length < effective limit) :
    exec (deliver limit events) s
      = (.ok (decide (effective limit ≤ s.seen.length + events.length)),
        { s with seen := s.seen ++ events.take (effective limit - s.seen.length) }) := by
  -- By induction on the events of the chunk, with what was seen before free.
  induction events generalizing s with
  | nil =>
    rw [deliver, exec_pure, List.take_nil, List.append_nil, List.length_nil,
      decide_eq_false (by omega)]
  | cons event rest ih =>
    rw [deliver, exec_bind_ok (exec_emit event s)]
    show exec (if limit ≤ (s.seen ++ [event]).length then _ else _) _ = _
    -- One event is delivered, and the rest up to one less.
    have htake : (event :: rest).take (effective limit - s.seen.length)
        = event :: rest.take (effective limit - (s.seen ++ [event]).length) := by
      rw [List.length_append, List.length_singleton]
      obtain ⟨k, hk⟩ : ∃ k, effective limit - s.seen.length = k + 1 :=
        ⟨effective limit - s.seen.length - 1, by omega⟩
      rw [hk, List.take_succ_cons]
      congr 2
      omega
    have hlength : (s.seen ++ [event]).length = s.seen.length + 1 := List.length_append
    rw [htake, List.length_cons]
    by_cases hlimit : limit ≤ (s.seen ++ [event]).length
    · -- The limit is reached here.
      have hreached : effective limit = s.seen.length + 1 := by
        unfold effective at h ⊢
        omega
      rw [if_pos hlimit, exec_pure, hreached, hlength, Nat.sub_self, List.take_zero,
        decide_eq_true (by omega)]
    · have hbelow : (s.seen ++ [event]).length < effective limit := by
        unfold effective
        omega
      rw [if_neg hlimit, ih _ hbelow]
      simp only [hlength, List.append_assoc, List.singleton_append]
      congr 3
      rw [Nat.add_assoc, Nat.add_comm 1]

/-- **The loop over a stream delivers its events up to the limit**, and fails only when the
stream does. -/
theorem readStream_seen (limit : Nat) (parser : Sse.Parser) (feed : List Arrival)
    (s : Watched Url Sse.Event) (h : s.seen.length < effective limit) :
    (exec (readStream limit parser feed) s).2
        = { s with
            seen := s.seen ++ (parsedEvents parser feed).take (effective limit - s.seen.length) }
      ∧ ((∀ a ∈ feed, a.Sound) →
        ∃ ended, (exec (readStream limit parser feed) s).1 = .ok ended) := by
  -- By induction on the arrivals; the invariant is that the limit is not reached yet.
  induction feed generalizing parser s with
  | nil =>
    rw [readStream, exec_pure, parsedEvents, List.take_nil, List.append_nil]
    exact ⟨rfl, fun _ => ⟨_, rfl⟩⟩
  | cons arrival rest ih =>
    cases arrival with
    | closed =>
      rw [parsedEvents]
      unfold readStream
      -- What the parser still holds at the end is at most one event, and there is room for it.
      cases hfinish : parser.finish.1 with
      | none =>
        dsimp only
        rw [exec_pure, Option.toList_none, List.take_nil, List.append_nil]
        exact ⟨rfl, fun _ => ⟨_, rfl⟩⟩
      | some event =>
        dsimp only
        rw [exec_bind_ok (exec_emit event s), exec_pure, Option.toList_some,
          List.take_of_length_le (by rw [List.length_singleton]; omega)]
        exact ⟨rfl, fun _ => ⟨_, rfl⟩⟩
    | failed described =>
      rw [readStream, exec_throw, parsedEvents, List.take_nil, List.append_nil]
      exact ⟨rfl, fun hsound => absurd (hsound _ List.mem_cons_self) id⟩
    | chunk bytes =>
      unfold readStream parsedEvents
      rcases parser.push bytes with ⟨events, next⟩
      dsimp only
      rw [exec_bind_ok (exec_deliver limit events s h)]
      by_cases hlimit : effective limit ≤ s.seen.length + events.length
      · -- The limit is reached in this chunk.
        rw [decide_eq_true hlimit, if_pos rfl, exec_pure, List.take_append_of_le_length (by omega)]
        exact ⟨rfl, fun _ => ⟨_, rfl⟩⟩
      -- The whole chunk is delivered, and the loop goes on with what is left of the limit.
      · have hall : events.take (effective limit - s.seen.length) = events :=
          List.take_of_length_le (by omega)
        have hbelow : (s.seen ++ events).length < effective limit := by
          rw [List.length_append]
          omega
        obtain ⟨hseen, hok⟩ := ih next { s with seen := s.seen ++ events } hbelow
        rw [decide_eq_false hlimit, if_neg Bool.false_ne_true, hall]
        refine ⟨?_, fun hsound => hok fun a ha => hsound a (List.mem_cons_of_mem _ ha)⟩
        rw [hseen, List.take_append, hall]
        simp only [List.length_append, List.append_assoc, Nat.sub_sub]

/-- A followed stream: the head, and the events up to the limit. -/
theorem followStream_seen {platform : Platform} {network : Network Url} {ctx : RunContext}
    {spec : RequestSpec} (limit : Nat) {feed : List (WireRequest Url) → List Arrival}
    {engine : EngineState Url} {head : StreamHead} {s : Watched Url Sse.Event}
    (hhead : exec (unwatched (executeStream platform network ctx spec)) (.start engine)
      = (.ok head, s)) (hstream : head.isStream = true)
    (hsound : ∀ a ∈ feed s.engine.wire, a.Sound) :
    ∃ outcome t, exec (followStream platform network ctx spec limit feed) (.start engine)
        = (.ok outcome, t) ∧ t.seen = outcome.events
      ∧ outcome.events = (parsedEvents {} (feed s.engine.wire)).take (effective limit) := by
  -- Reading the head delivers no event.
  have hseen : s.seen = [] := by
    have hzoom := congrArg (fun r => r.2.seen) hhead
    exact hzoom.symm
  have hbelow : s.seen.length < effective limit := by
    rw [hseen]
    exact Nat.lt_of_lt_of_le Nat.zero_lt_one (Nat.le_max_right limit 1)
  obtain ⟨hread, hok⟩ := readStream_seen limit {} (feed s.engine.wire) s hbelow
  obtain ⟨ended, hended⟩ := hok hsound
  have hrun : exec (readStream limit {} (feed s.engine.wire)) s = (.ok ended,
      { s with seen := (parsedEvents {} (feed s.engine.wire)).take (effective limit) }) := by
    rw [hseen] at hread
    exact Prod.ext hended hread
  refine ⟨{ toStreamHead := head, ended
            events := (parsedEvents {} (feed s.engine.wire)).take (effective limit) },
    { s with seen := (parsedEvents {} (feed s.engine.wire)).take (effective limit) },
    ?_, rfl, rfl⟩
  unfold followStream
  rw [exec_bind_ok hhead, if_pos hstream]
  show exec (readStream limit {} (feed s.engine.wire) >>= _) s = _
  rw [exec_bind_ok hrun]
  rfl

end Events

end Gabriel.Engine

/-! ### Frames -/

namespace Gabriel.Engine.Websocket

open Gabriel.Core Text Fallible

section Frames

variable {Url : Type}

/-- The frames of a socket, up to the one that closes it. -/
def heard : List SocketArrival → List Payload
  | [] => []
  | .ended :: _ => []
  | .failed _ :: _ => []
  | .message message :: rest =>
    match payloadOf message with
    | none => heard rest
    | some (.close code reason) => [.close code reason]
    | some payload => payload :: heard rest

/-- A frame other than a ping, a pong and a close. -/
def isData : Payload → Bool
  | .text _ | .binary _ => true
  | _ => false

/-- The arrival is no failure. -/
def SocketArrival.Sound : SocketArrival → Prop
  | .failed _ => False
  | _ => True

/-- What the listening delivers, with a number of frames received before it. -/
structure Heard (limit received : Nat) (arrivals : List SocketArrival) (ended : SocketEnd)
    (frames : List Frame) : Prop where
  pre : frames.map (·.payload) <+: heard arrivals
  way : ∀ frame ∈ frames, frame.direction = .received
  /-- The limit is reached exactly when there are enough frames. -/
  limit : ended = .messageLimitReached ∧ effective limit ≤ received + (heard arrivals).countP isData
      ∧ received + (frames.map (·.payload)).countP isData = effective limit
    ∨ (ended = .closedByServer ∨ ended = .timedOut)
      ∧ frames.map (·.payload) = heard arrivals
      ∧ received + (heard arrivals).countP isData < effective limit

/-- Showing a frame. -/
theorem exec_record (lib : SocketLib) (direction : Direction) (payload : Payload)
    (s : Watched Url Frame) :
    exec (record lib direction payload) s
      = (.ok ⟨⟩, { s with seen := s.seen ++ [⟨direction, payload, lib.elapsed s.seen.length⟩] }) :=
  rfl

/-- A frame in front of what is delivered. -/
theorem Heard.cons {limit received : Nat} {arrival : SocketArrival} {rest : List SocketArrival}
    {ended : SocketEnd} {frames : List Frame} {frame : Frame}
    (h : Heard limit (received + [frame.payload].countP isData) rest ended frames)
    (hheard : heard (arrival :: rest) = frame.payload :: heard rest)
    (hway : frame.direction = .received) :
    Heard limit received (arrival :: rest) ended (frame :: frames) := by
  have hcount : ∀ l : List Payload, (frame.payload :: l).countP isData
      = [frame.payload].countP isData + l.countP isData :=
    fun l => @List.countP_append _ _ [frame.payload] l
  refine ⟨?_, ?_, ?_⟩
  · rw [hheard, List.map_cons]
    exact List.cons_prefix_cons.mpr ⟨rfl, h.pre⟩
  · intro other hother
    rcases List.mem_cons.mp hother with rfl | hother
    · exact hway
    · exact h.way other hother
  · rw [hheard, List.map_cons, hcount (heard rest), hcount (frames.map _), ← Nat.add_assoc,
      ← Nat.add_assoc, List.cons_eq_cons, and_iff_right rfl]
    exact h.limit

/-- **The loop over a socket delivers its frames up to the limit.** -/
theorem listen_seen (lib : SocketLib) (limit : Nat) (arrivals : List SocketArrival)
    (hsound : ∀ a ∈ arrivals, a.Sound) (received : Nat) (s : Watched Url Frame)
    (h : received < effective limit) :
    ∃ ended frames, exec (listen lib limit arrivals received) s
        = (.ok ended, { s with seen := s.seen ++ frames })
      ∧ Heard limit received arrivals ended frames := by
  -- By induction on the arrivals; what was received so far is still below the limit.
  induction arrivals generalizing received s with
  | nil =>
    refine ⟨.timedOut, [], ?_, List.prefix_rfl, fun _ hmem => absurd hmem List.not_mem_nil,
      .inr ⟨.inr rfl, rfl, h⟩⟩
    rw [List.append_nil]
    rfl
  | cons arrival rest ih =>
    have hrest := fun a ha => hsound a (List.mem_cons_of_mem arrival ha)
    cases arrival with
    | ended =>
      refine ⟨.closedByServer, [], ?_, List.prefix_rfl, fun _ hmem => absurd hmem List.not_mem_nil,
        .inr ⟨.inl rfl, rfl, h⟩⟩
      rw [List.append_nil]
      rfl
    | failed described => exact absurd (hsound _ List.mem_cons_self) id
    | message message =>
      unfold listen
      cases hpayload : payloadOf message with
      -- A frame of no kind is skipped, and not heard either.
      | none =>
        have hheard : heard (.message message :: rest) = heard rest := by
          rw [heard, hpayload]
        obtain ⟨ended, frames, hrun, hframes⟩ := ih hrest received s h
        refine ⟨ended, frames, hrun, ?_, hframes.way, ?_⟩
        · rw [hheard]
          exact hframes.pre
        · rw [hheard]
          exact hframes.limit
      | some payload =>
        dsimp only
        rw [exec_bind_ok (exec_record lib .received payload s)]
        -- A frame that leaves the count below the limit is heard first, and the rest as by the
        -- induction hypothesis.
        have hlonger : ∀ {received'},
            received' = received + [payload].countP isData →
            heard (.message message :: rest) = payload :: heard rest →
            received' < effective limit →
            ∃ ended frames, exec (listen lib limit rest received')
                { s with seen := s.seen ++ [⟨.received, payload, lib.elapsed s.seen.length⟩] }
              = (.ok ended, { s with seen := s.seen ++ frames })
              ∧ Heard limit received (.message message :: rest) ended frames := by
          intro received' hreceived hheard hbelow
          obtain ⟨ended, frames, hrun, hframes⟩ := ih hrest received'
            { s with seen := s.seen ++ [⟨.received, payload, lib.elapsed s.seen.length⟩] } hbelow
          rw [hreceived] at hframes
          refine ⟨ended, ⟨.received, payload, lib.elapsed s.seen.length⟩ :: frames, ?_,
            hframes.cons hheard rfl⟩
          rw [hrun, List.append_assoc]
          rfl
        -- Text and binary frames are the ones that count.
        have hdata : isData payload = true →
            heard (.message message :: rest) = payload :: heard rest →
            ∃ ended frames, exec (if limit ≤ received + 1 then pure .messageLimitReached
                  else listen lib limit rest (received + 1) : WatchedM Url Frame SocketEnd)
                { s with seen := s.seen ++ [⟨.received, payload, lib.elapsed s.seen.length⟩] }
              = (.ok ended, { s with seen := s.seen ++ frames })
              ∧ Heard limit received (.message message :: rest) ended frames := by
          intro hpayload hheard
          have hone : [payload].countP isData = 1 := by
            rw [List.countP_singleton, hpayload]
            rfl
          by_cases hlimit : limit ≤ received + 1
          · -- This frame is the last one.
            have hreached : effective limit = received + 1 := by
              unfold effective at h ⊢
              omega
            rw [if_pos hlimit]
            refine ⟨.messageLimitReached, [⟨.received, payload, lib.elapsed s.seen.length⟩], rfl,
              ?_, fun frame hframe => (List.mem_singleton.mp hframe) ▸ rfl, .inl ⟨rfl, ?_, ?_⟩⟩
            · rw [hheard]
              exact List.cons_prefix_cons.mpr ⟨rfl, List.nil_prefix⟩
            · rw [hheard, List.countP_cons_of_pos hpayload]
              omega
            · show received + [payload].countP isData = _
              omega
          · rw [if_neg hlimit]
            refine hlonger (by rw [hone]) hheard ?_
            unfold effective
            omega
        -- A close ends the loop with itself delivered, a ping and a pong are delivered without
        -- being counted.
        cases payload with
        | close code reason =>
          have hheard : heard (.message message :: rest) = [.close code reason] := by
            rw [heard, hpayload]
          refine ⟨.closedByServer,
            [⟨.received, .close code reason, lib.elapsed s.seen.length⟩], rfl,
            ?_, fun frame hframe => (List.mem_singleton.mp hframe) ▸ rfl,
            .inr ⟨.inl rfl, hheard.symm, ?_⟩⟩
          · rw [hheard]
            exact List.prefix_rfl
          · rw [hheard]
            exact h
        | text content => exact hdata rfl (by rw [heard, hpayload])
        | binary bytes => exact hdata rfl (by rw [heard, hpayload])
        | ping bytes =>
          exact hlonger rfl (by rw [heard, hpayload]) h
        | pong bytes =>
          exact hlonger rfl (by rw [heard, hpayload]) h

/-- Sending shows frames that are sent, and nothing else. -/
theorem sendAll_seen {platform : Platform} {lib : SocketLib} {handshake : Handshake}
    {templates sent texts : List Text} {s t : Watched Url Frame}
    (h : exec (sendAll platform lib handshake templates sent) s = (.ok texts, t)) :
    ∃ frames, t.seen = s.seen ++ frames ∧ ∀ frame ∈ frames, frame.direction = .sent := by
  -- By induction on the messages of the plan; a send that fails ends with an error.
  induction templates generalizing sent s with
  | nil =>
    obtain ⟨-, rfl⟩ := Prod.mk.inj h
    exact ⟨[], (List.append_nil _).symm, fun _ hmem => absurd hmem List.not_mem_nil⟩
  | cons template rest ih =>
    rw [sendAll] at h
    obtain ⟨text, s', htext, h⟩ := exec_bind_eq_ok.mp h
    have hkept : s'.seen = s.seen := (congrArg (fun r => r.2.seen) htext).symm
    cases hsend : lib.sendError handshake (sent ++ [text]) with
    | some message =>
      rw [hsend] at h
      exact nomatch congrArg Prod.fst h
    | none =>
      rw [hsend] at h
      obtain ⟨⟨⟩, s'', hrecord, h⟩ := exec_bind_eq_ok.mp h
      rw [exec_record] at hrecord
      obtain ⟨-, rfl⟩ := Prod.mk.inj hrecord
      obtain ⟨frames, hseen, hsent⟩ := ih h
      refine ⟨⟨.sent, .text text, lib.elapsed s'.seen.length⟩ :: frames, ?_, ?_⟩
      · rw [hseen, ← hkept, List.append_assoc]
        rfl
      · intro frame hframe
        rcases List.mem_cons.mp hframe with rfl | hframe
        · rfl
        · exact hsent frame hframe

/-- What was received through a socket. -/
def WebSocketOutcome.received (outcome : WebSocketOutcome) : List Payload :=
  (outcome.frames.filter (·.direction = .received)).map (·.payload)

/-- The arrivals that a plan listens to: one that closes after sending listens to none. -/
def listenedTo (plan : WebSocketPlan) (arrivals : List SocketArrival) : List SocketArrival :=
  if plan.closeAfterSend then [] else arrivals

/-- The limit of a socket is exact: a first part of the frames is delivered, with as many data
frames as the limit allows, or with all that come before the server closes or ends the socket. -/
structure SocketExact (limit : Nat) (arrivals : List SocketArrival) (outcome : WebSocketOutcome) :
    Prop where
  pre : outcome.received <+: heard arrivals
  count : (outcome.received).countP isData = min limit ((heard arrivals).countP isData)

/-- No data is heard exactly when there is none to count. -/
theorem noData_iff {arrivals : List SocketArrival} :
    (∀ payload ∈ heard arrivals, isData payload = false)
      ↔ (heard arrivals).countP isData = 0 := by
  rw [List.countP_eq_zero]
  exact forall₂_congr fun _ _ => Bool.not_eq_true _ ▸ Iff.rfl

/-- What the listening delivers is exact when the limit is not zero, or there is no data. -/
theorem socketExact_iff {limit : Nat} {arrivals : List SocketArrival} {outcome : WebSocketOutcome}
    {frames : List Frame} (h : Heard limit 0 arrivals outcome.ended frames)
    (hreceived : outcome.received = frames.map (·.payload)) :
    SocketExact limit arrivals outcome ↔
      0 < limit ∨ ∀ payload ∈ heard arrivals, isData payload = false := by
  have hexact : SocketExact limit arrivals outcome ↔
      (frames.map (·.payload)).countP isData = min limit ((heard arrivals).countP isData) := by
    constructor
    · intro hexact
      rw [← hreceived]
      exact hexact.count
    · intro hcount
      exact ⟨hreceived ▸ h.pre, hreceived ▸ hcount⟩
  rw [hexact, noData_iff]
  rcases h.limit with ⟨-, hmany, hcount⟩ | ⟨-, hall, hfew⟩
  · -- The limit that counts was reached.
    unfold effective at hmany hcount
    omega
  · -- The server was done before, or nothing more came.
    rw [hall]
    unfold effective at hfew
    omega

/-- A socket that was opened: what was received, and when the limit is exact. -/
theorem run_seen {platform : Platform} {network : Network Url} {lib : SocketLib}
    {ctx : RunContext} {spec : RequestSpec} {plan : WebSocketPlan} {engine : EngineState Url}
    {handshake : Handshake} {sent : SentRequest} {s₁ s₂ : Watched Url Frame}
    {answer : UInt16 × Option Text} {texts : List Text}
    (hopen : exec (unwatched (makeHandshake platform network lib ctx spec plan.subprotocols))
      (.start engine) = (.ok (handshake, sent), s₁))
    (hconnect : lib.connect handshake = .ok answer)
    (hsend : exec (sendAll platform lib handshake plan.send []) s₁ = (.ok texts, s₂))
    (hsound : ∀ a ∈ lib.receive handshake texts, a.Sound) :
    ∃ outcome t, exec (run platform network lib ctx spec plan) (.start engine)
        = (.ok outcome, t) ∧ t.seen = outcome.frames
      ∧ (SocketExact plan.maxMessages (listenedTo plan (lib.receive handshake texts)) outcome ↔
        plan.closeAfterSend = true ∨ 0 < plan.maxMessages
          ∨ ∀ payload ∈ heard (lib.receive handshake texts), isData payload = false) := by
  obtain ⟨status, subprotocol⟩ := answer
  have hstart : s₁.seen = [] := (congrArg (fun r => r.2.seen) hopen).symm
  obtain ⟨front, hfront, hsent⟩ := sendAll_seen hsend
  rw [hstart, List.nil_append] at hfront
  -- What was sent is not received.
  have hnone : front.filter (·.direction = .received) = [] := by
    refine List.filter_eq_nil_iff.mpr fun frame hframe => ?_
    rw [hsent frame hframe]
    exact of_decide_eq_false rfl
  -- Up to the listening the run is the plan's: the handshake, the connection, the messages.
  have hrun : ∀ {ended t}, exec (if plan.closeAfterSend then pure .closedAfterSend
        else listen lib plan.maxMessages (lib.receive handshake texts) 0) s₂
        = (.ok ended, t) →
      exec (run platform network lib ctx spec plan) (.start engine)
        = (.ok ⟨sent, status, subprotocol, t.seen, ended⟩, t) := by
    intro ended t hlisten
    unfold run
    rw [exec_bind_ok hopen]
    dsimp only
    rw [hconnect]
    dsimp only
    rw [exec_bind_ok hsend]
    by_cases hclose : plan.closeAfterSend = true
    · rw [if_pos hclose] at hlisten ⊢
      rw [exec_bind_ok hlisten]
      rfl
    · rw [if_neg hclose] at hlisten ⊢
      rw [exec_bind_ok hlisten]
      rfl
  by_cases hclose : plan.closeAfterSend = true
  -- The client closes and listens to nothing, so that nothing is heard.
  · have hlisten : exec (if plan.closeAfterSend then pure .closedAfterSend
        else listen lib plan.maxMessages (lib.receive handshake texts) 0) s₂
        = (.ok .closedAfterSend, s₂) := by
      rw [if_pos hclose]
      rfl
    refine ⟨_, _, hrun hlisten, rfl, iff_of_true ?_ (.inl hclose)⟩
    have hreceived : (⟨sent, status, subprotocol, s₂.seen, .closedAfterSend⟩ :
        WebSocketOutcome).received = [] := by
      unfold WebSocketOutcome.received
      rw [hfront, hnone]
      rfl
    unfold listenedTo
    rw [if_pos hclose]
    refine ⟨?_, ?_⟩
    · rw [hreceived]
      exact List.nil_prefix
    · rw [hreceived]
      exact (Nat.min_zero _).symm
  · have hbelow : 0 < effective plan.maxMessages := by
      unfold effective
      omega
    obtain ⟨ended, frames, hlisten, hheard⟩ :=
      listen_seen lib plan.maxMessages (lib.receive handshake texts) hsound 0 s₂ hbelow
    have hended : exec (if plan.closeAfterSend then pure .closedAfterSend
        else listen lib plan.maxMessages (lib.receive handshake texts) 0) s₂
        = (.ok ended, { s₂ with seen := s₂.seen ++ frames }) := by
      rw [if_neg hclose]
      exact hlisten
    refine ⟨_, _, hrun hended, rfl, ?_⟩
    rw [or_iff_right hclose, listenedTo, if_neg hclose]
    refine socketExact_iff hheard ?_
    -- What listening delivers is received, and behind what was sent.
    have hall : frames.filter (·.direction = .received) = frames :=
      List.filter_eq_self.mpr fun frame hframe => decide_eq_true (hheard.way frame hframe)
    unfold WebSocketOutcome.received
    rw [List.filter_append, hfront, hnone, hall, List.nil_append]

end Frames

/-! ### Both limits -/

section Limits

/-- A limit of zero and a limit of one keep the same events when there are none. -/
theorem take_effective_eq_iff {α : Type} (limit : Nat) (total : List α) :
    total.take (effective limit) = total.take limit ↔ 0 < limit ∨ total = [] := by
  cases limit with
  | succ n =>
    have hsame : effective (n + 1) = n + 1 := Nat.max_eq_left (Nat.le_add_left 1 n)
    rw [hsame]
    exact iff_of_true rfl (.inl n.succ_pos)
  | zero =>
    rw [or_iff_right (Nat.lt_irrefl 0)]
    cases total with
    | nil => exact iff_of_true rfl rfl
    | cons first rest =>
      exact iff_of_false (fun h => List.cons_ne_nil _ _ h) (List.cons_ne_nil _ _)

variable {Url : Type} {platform : Platform} {network : Network Url} {ctx : RunContext}
  {spec : RequestSpec} {engine : EngineState Url}

/-- **When the limits are exact.** A response that is an event stream and does not fail is followed
to its first events, as many as the limit allows, exactly when the limit is not zero or there is no
event. A socket that does not fail delivers a first part of its frames, with as many data frames
as the limit allows and the server sends, exactly when the limit is not zero or no data comes before
the close (or the client closes after sending, and listens to nothing). -/
theorem limits_exact_iff (limit : Nat) (feed : List (WireRequest Url) → List Arrival)
    {head : StreamHead} {s : Watched Url Sse.Event}
    (hhead : exec (unwatched (executeStream platform network ctx spec)) (.start engine)
      = (.ok head, s)) (hstream : head.isStream = true)
    (hfeed : ∀ a ∈ feed s.engine.wire, a.Sound)
    {lib : SocketLib} (plan : WebSocketPlan) {handshake : Handshake} {sent : SentRequest}
    {s₁ s₂ : Watched Url Frame} {answer : UInt16 × Option Text} {texts : List Text}
    (hopen : exec (unwatched (makeHandshake platform network lib ctx spec plan.subprotocols))
      (.start engine) = (.ok (handshake, sent), s₁))
    (hconnect : lib.connect handshake = .ok answer)
    (hsend : exec (sendAll platform lib handshake plan.send []) s₁ = (.ok texts, s₂))
    (hreceive : ∀ a ∈ lib.receive handshake texts, a.Sound) :
    (∃ outcome t, exec (followStream platform network ctx spec limit feed) (.start engine)
        = (.ok outcome, t) ∧ t.seen = outcome.events
      ∧ (outcome.events = (parsedEvents {} (feed s.engine.wire)).take limit
        ↔ 0 < limit ∨ parsedEvents {} (feed s.engine.wire) = []))
    ∧ ∃ outcome t, exec (run platform network lib ctx spec plan) (.start engine)
        = (.ok outcome, t) ∧ t.seen = outcome.frames
      ∧ (SocketExact plan.maxMessages (listenedTo plan (lib.receive handshake texts)) outcome ↔
        plan.closeAfterSend = true ∨ 0 < plan.maxMessages
          ∨ ∀ payload ∈ heard (lib.receive handshake texts), isData payload = false) := by
  -- The stream and the socket have nothing in common but the form of the statement.
  refine ⟨?_, run_seen hopen hconnect hsend hreceive⟩
  obtain ⟨outcome, t, hrun, hseen, hevents⟩ := followStream_seen limit hhead hstream hfeed
  refine ⟨outcome, t, hrun, hseen, ?_⟩
  rw [hevents]
  exact take_effective_eq_iff limit _

end Limits

/-! ### A limit of one, and of zero -/

section Samples

/-- A server of event streams. -/
def streamNetwork : Network (Text × Text) :=
  scriptedNetwork
    [plainResponse 200 [("content-type".toList, "text/event-stream".toList)]]

/-- A stream of two events that closes. -/
def twoEvents (_ : List (WireRequest (Text × Text))) : List Arrival :=
  [.chunk (Utf8.encode "data: a\n\ndata: b\n\n".toList), .closed]

/-- A socket on which a text comes between two pings. -/
def textLib : SocketLib where
  intoClientRequest _ := .ok []
  headerNameError _ := none
  headerValueError _ := none
  connect _ := .ok (101, none)
  sendError _ _ := none
  receive _ _ := [.message (.ping []), .message (.text "a".toList), .message (.ping []), .ended]
  elapsed _ := 0

/-- A request without headers. -/
def plainRequest : RequestSpec := .new id "GET".toList "https://app.test/".toList

/-- The head of the sample is one of an event stream. -/
theorem exec_sampleHead : ∃ head s, exec (unwatched (executeStream emptyPlatform streamNetwork
      defaultContext plainRequest) : WatchedM _ Sse.Event StreamHead) (.start .fresh)
      = (.ok head, s) ∧ head.isStream = true :=
  exists_of_okWith (by decide +kernel)

/-- The handshake of the sample. -/
theorem exec_sampleHandshake : exec (unwatched (makeHandshake emptyPlatform streamNetwork textLib
      defaultContext plainRequest []) : WatchedM _ Frame (Handshake × SentRequest)) (.start .fresh)
    = (.ok (⟨"wss://app.test/".toList, []⟩, ⟨"GET".toList, "wss://app.test/".toList, [], none⟩),
        .start .fresh) := rfl

/-- No arrival of the sample stream is a failure. -/
theorem sound_twoEvents : ∀ a ∈ twoEvents [], a.Sound := by
  simp [twoEvents, Arrival.Sound]

/-- Nor is one of the sample socket. -/
theorem sound_textLib (handshake : Handshake) (texts : List Text) :
    ∀ a ∈ textLib.receive handshake texts, a.Sound := by
  simp [textLib, SocketArrival.Sound]

/-- A limit of one is exact on both. -/
theorem limits_exact_one :
    (∃ outcome t, exec (followStream emptyPlatform streamNetwork defaultContext plainRequest 1
        twoEvents) (.start .fresh) = (.ok outcome, t)
      ∧ outcome.events = (parsedEvents {} (twoEvents [])).take 1)
    ∧ ∃ outcome t, exec (run emptyPlatform streamNetwork textLib defaultContext plainRequest
        { maxMessages := 1 }) (.start .fresh) = (.ok outcome, t)
      ∧ SocketExact 1 (textLib.receive ⟨[], []⟩ []) outcome := by
  obtain ⟨head, s, hhead, hstream⟩ := exec_sampleHead
  obtain ⟨⟨outcome, t, hrun, -, hexact⟩, outcome', t', hrun', -, hexact'⟩ :=
    limits_exact_iff 1 twoEvents hhead hstream sound_twoEvents { maxMessages := 1 }
      exec_sampleHandshake rfl rfl (sound_textLib _ _)
  exact ⟨⟨outcome, t, hrun, hexact.mpr (.inl Nat.one_pos)⟩,
    outcome', t', hrun', hexact'.mpr (.inr (.inl Nat.one_pos))⟩

/-- A limit of zero is exact on neither: an event and a text are delivered. -/
theorem not_limits_exact_zero :
    (∃ outcome t, exec (followStream emptyPlatform streamNetwork defaultContext plainRequest 0
        twoEvents) (.start .fresh) = (.ok outcome, t)
      ∧ outcome.events ≠ (parsedEvents {} (twoEvents [])).take 0)
    ∧ ∃ outcome t, exec (run emptyPlatform streamNetwork textLib defaultContext plainRequest
        { maxMessages := 0 }) (.start .fresh) = (.ok outcome, t)
      ∧ ¬ SocketExact 0 (textLib.receive ⟨[], []⟩ []) outcome := by
  have hstream : okWith (fun outcome _ => outcome.events.length == 1)
      (exec (followStream emptyPlatform streamNetwork defaultContext plainRequest 0 twoEvents)
        (.start .fresh)) = true := by decide +kernel
  have hsocket : okWith (fun outcome _ => outcome.received.countP isData == 1)
      (exec (run emptyPlatform streamNetwork textLib defaultContext plainRequest
        { maxMessages := 0 }) (.start .fresh)) = true := by decide +kernel
  obtain ⟨outcome, t, hrun, hone⟩ := exists_of_okWith hstream
  obtain ⟨outcome', t', hrun', hone'⟩ := exists_of_okWith hsocket
  refine ⟨⟨outcome, t, hrun, fun hnone => ?_⟩, outcome', t', hrun', fun hexact => ?_⟩
  · rw [hnone] at hone
    exact absurd (eq_of_beq hone) Nat.zero_ne_one
  · have hcount := hexact.count
    rw [eq_of_beq hone', Nat.zero_min] at hcount
    exact absurd hcount Nat.one_ne_zero

end Samples

end Gabriel.Engine.Websocket
