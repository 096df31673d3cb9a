import Gabriel.Engine.ClientPool

/-!
# `Gabriel.Proofs.ClientPool`: a pooled client matches its request

The key of a client and its builder are put together in two places, from the same settings.
`Fits` says what a client was built with. Calls with one key ask for the same, if the fingerprint of
a certificate tells it from the others (`NoCollision`). So the clients of the pool fit every call
that finds them. The theorems:

* `fits_of_configure`: a configured builder fits the call.
* `fits_of_key`: what fits one call fits every call with its key.
* `clientForMode_cases`: a call returns a pooled client, fails and leaves the pool, or pools a new
  client.
* `sound_call`, `sound_afterCalls`: the step, and any sequence of calls: the pool stays sound.
* `fits_run`: after any calls, the client that a call returns was built with what the call asks for.
* `clientForMode_keys`: the keys in the state of the engine are those of the pool.
-/

set_option autoImplicit false

namespace Gabriel.Engine.ClientPool

open Gabriel.Core Text Fallible

variable {Proxy Identity : Type} {tools : ClientTools Proxy Identity}

/-- A call for a client. -/
inductive ClientCall where
  | clientFor (spec : RequestSpec) (identity : Option IdentityMaterial)
  | clientForMode (spec : RequestSpec) (identity : Option IdentityMaterial) (streaming : Bool)

namespace ClientCall

/-- The settings of the request. -/
def settings : ClientCall → Settings
  | clientFor spec _ => spec.settings
  | clientForMode spec _ _ => spec.settings

/-- The identity that a call asks for. -/
def identity : ClientCall → Option IdentityMaterial
  | clientFor _ identity => identity
  | clientForMode _ identity _ => identity

/-- Whether the response is to be followed as a stream. -/
def streaming : ClientCall → Bool
  | clientFor _ _ => false
  | clientForMode _ _ streaming => streaming

/-- The key that the call looks for. -/
def key (call : ClientCall) : ClientKey := clientKey call.settings call.identity call.streaming

/-- Run a call. -/
def run (tools : ClientTools Proxy Identity) :
    ClientCall → PoolM Proxy Identity (Client Proxy Identity)
  | clientFor spec identity => ClientPool.clientFor tools spec identity
  | clientForMode spec identity streaming => ClientPool.clientForMode tools spec identity streaming

end ClientCall

/-- The pool after some calls. -/
def afterCalls (tools : ClientTools Proxy Identity) (calls : List ClientCall)
    (pool : ClientPool Proxy Identity) : ClientPool Proxy Identity :=
  calls.foldl (fun pool call => (exec (call.run tools) pool).2) pool

/-- A client was built with what a call asks for. -/
structure Fits (tools : ClientTools Proxy Identity) (call : ClientCall)
    (client : Client Proxy Identity) : Prop where
  /-- Without streaming, the timeout is for the whole request. -/
  timeout : client.builtFrom.timeoutMs
    = if call.streaming then none else some call.settings.timeoutMs
  /-- With streaming, it is for the connection alone. -/
  connectTimeout : client.builtFrom.connectTimeoutMs
    = if call.streaming then some call.settings.timeoutMs else none
  verifyTls : client.builtFrom.acceptInvalidCerts = !call.settings.verifyTls
  proxy : client.builtFrom.proxies.map Except.ok
    = call.settings.proxy.toList.map tools.proxyAll
  identity : client.builtFrom.identity.map Except.ok
    = call.identity.map fun identity => tools.identityFromPem identity.pem

/-- Certificates with one fingerprint are the same. -/
def NoCollision (calls : List ClientCall) : Prop :=
  ∀ c ∈ calls, ∀ d ∈ calls, ∀ i ∈ c.identity, ∀ j ∈ d.identity,
    i.fingerprint = j.fingerprint → i.pem = j.pem

/-! ### One call -/

/-- What the proxy adds to a builder. -/
theorem addProxy_ok {settings : Settings} {builder builder' : ClientBuilder Proxy Identity}
    (h : addProxy tools settings builder = .ok builder') :
    builder' = { builder with proxies := builder'.proxies } ∧
      builder'.proxies.map Except.ok
        = builder.proxies.map Except.ok ++ settings.proxy.toList.map tools.proxyAll := by
  unfold addProxy at h
  cases hproxy : settings.proxy with
  | none =>
    rw [hproxy] at h
    obtain rfl := Except.ok.inj h
    exact ⟨rfl, (List.append_nil _).symm⟩
  | some proxy =>
    rw [hproxy] at h
    dsimp only at h
    cases hparsed : tools.proxyAll proxy with
    | error message =>
      rw [hparsed] at h
      exact nomatch h
    | ok parsed =>
      rw [hparsed] at h
      obtain rfl := Except.ok.inj h
      refine ⟨rfl, ?_⟩
      rw [List.map_append, Option.toList_some, List.map_singleton, List.map_singleton, hparsed]

/-- What the certificate sets in a builder. -/
theorem addIdentity_ok {settings : Settings} {identity : Option IdentityMaterial}
    {builder builder' : ClientBuilder Proxy Identity} (hnone : builder.identity = none)
    (h : addIdentity tools settings identity builder = .ok builder') :
    builder' = { builder with identity := builder'.identity } ∧
      builder'.identity.map Except.ok
        = identity.map fun identity => tools.identityFromPem identity.pem := by
  unfold addIdentity at h
  cases identity with
  | none =>
    obtain rfl := Except.ok.inj h
    refine ⟨rfl, ?_⟩
    rw [hnone]
    rfl
  | some identity =>
    dsimp only at h
    cases hparsed : tools.identityFromPem identity.pem with
    | error message =>
      rw [hparsed] at h
      exact nomatch h
    | ok parsed =>
      rw [hparsed] at h
      obtain rfl := Except.ok.inj h
      refine ⟨rfl, ?_⟩
      rw [Option.map_some, Option.map_some, hparsed]

/-- A configured builder fits the call. -/
theorem fits_of_configure {call : ClientCall} {builder : ClientBuilder Proxy Identity}
    (h : configure tools call.settings call.identity call.streaming = .ok builder) (serial : Nat) :
    Fits tools call ⟨builder, serial⟩ := by
  obtain ⟨proxied, hproxy, hidentity⟩ := bind_eq_ok h
  obtain ⟨hproxied, hproxies⟩ := addProxy_ok hproxy
  have hnone : proxied.identity = none := by
    rw [hproxied]
    rfl
  obtain ⟨hbuilder, hcert⟩ := addIdentity_ok hnone hidentity
  refine ⟨?_, ?_, ?_, ?_, hcert⟩
  · rw [hbuilder, hproxied]
    rfl
  · rw [hbuilder, hproxied]
    rfl
  · rw [hbuilder, hproxied]
    rfl
  · rw [hbuilder]
    exact hproxies

/-- Calls with the same key ask for the same, when the fingerprints of their certificates tell the
certificates apart. -/
theorem fits_of_key {c d : ClientCall} {client : Client Proxy Identity} (hkey : c.key = d.key)
    (hcert : ∀ i ∈ c.identity, ∀ j ∈ d.identity, i.fingerprint = j.fingerprint → i.pem = j.pem)
    (h : Fits tools c client) : Fits tools d client := by
  -- The key has all settings that a client is built from; the certificate is there by fingerprint.
  simp only [ClientCall.key, clientKey, ClientKey.mk.injEq] at hkey
  obtain ⟨htimeout, htls, hproxy, hstreaming, hprint⟩ := hkey
  have hpem : c.identity.map (fun identity => tools.identityFromPem identity.pem)
      = d.identity.map fun identity => tools.identityFromPem identity.pem := by
    cases hc : c.identity with
    | none =>
      rw [hc] at hprint
      rw [Option.map_eq_none_iff.mp hprint.symm]
    | some i =>
      rw [hc] at hprint
      obtain ⟨j, hj, hij⟩ := Option.map_eq_some_iff.mp hprint.symm
      rw [hj, Option.map_some, Option.map_some, hcert i hc j hj hij.symm]
  -- Each field of the client is a function of one field of the key.
  constructor
  · rw [← hstreaming, ← htimeout]
    exact h.timeout
  · rw [← hstreaming, ← htimeout]
    exact h.connectTimeout
  · rw [← htls]
    exact h.verifyTls
  · rw [← hproxy]
    exact h.proxy
  · rw [← hpem]
    exact h.identity

/-- A build that fails. -/
theorem exec_build_error {builder : ClientBuilder Proxy Identity} {pool : ClientPool Proxy Identity}
    {message : Text} (h : tools.buildError pool.builds builder = some message) :
    exec (build tools builder) pool = (.error (.client message), pool.nextBuild) := by
  rw [build, exec_bind_ok (exec_get pool), exec_bind_ok (exec_modify _ pool), h]
  rfl

/-- A build that succeeds. -/
theorem exec_build_ok {builder : ClientBuilder Proxy Identity} {pool : ClientPool Proxy Identity}
    (h : tools.buildError pool.builds builder = none) :
    exec (build tools builder) pool = (.ok ⟨builder, pool.builds⟩, pool.nextBuild) := by
  rw [build, exec_bind_ok (exec_get pool), exec_bind_ok (exec_modify _ pool), h]
  rfl

/-- What a call can come to: a pooled client, an error that leaves the clients as they are, or a new
client, which is pooled. -/
theorem clientForMode_cases (spec : RequestSpec) (identity : Option IdentityMaterial)
    (streaming : Bool) (pool : ClientPool Proxy Identity) :
    (∃ client, pool.get? (clientKey spec.settings identity streaming) = some client ∧
      exec (clientForMode tools spec identity streaming) pool = (.ok client, pool)) ∨
    (∃ e pool', exec (clientForMode tools spec identity streaming) pool = (.error e, pool') ∧
      pool'.clients = pool.clients) ∨
    ∃ builder serial pool', configure tools spec.settings identity streaming = .ok builder ∧
      exec (clientForMode tools spec identity streaming) pool = (.ok ⟨builder, serial⟩, pool') ∧
      pool'.clients
        = pool.clients ++ [(clientKey spec.settings identity streaming, ⟨builder, serial⟩)] := by
  unfold clientForMode
  rw [exec_bind_ok (exec_get pool)]
  -- The pool is asked first, and only a built client is put into it.
  cases hget : pool.get? (clientKey spec.settings identity streaming) with
  | some client => exact Or.inl ⟨client, rfl, rfl⟩
  | none =>
    cases hconfigure : configure tools spec.settings identity streaming with
    | error e => exact Or.inr (Or.inl ⟨e, pool, rfl, rfl⟩)
    | ok builder =>
      dsimp only
      cases herror : tools.buildError pool.builds builder with
      | some message =>
        rw [exec_bind_error (exec_build_error herror)]
        exact Or.inr (Or.inl ⟨_, _, rfl, rfl⟩)
      | none =>
        rw [exec_bind_ok (exec_build_ok herror)]
        exact Or.inr (Or.inr ⟨builder, pool.builds, _, rfl, rfl, rfl⟩)

/-! ### A sequence of calls -/

/-- Every pooled client stands under the key of a call that it fits. -/
def Sound (tools : ClientTools Proxy Identity) (calls : List ClientCall)
    (pool : ClientPool Proxy Identity) : Prop :=
  ∀ e ∈ pool.clients, ∃ call ∈ calls, e.1 = call.key ∧ Fits tools call e.2

/-- What a pool finds under a key is one of its clients. -/
theorem mem_of_get? {pool : ClientPool Proxy Identity} {key : ClientKey}
    {client : Client Proxy Identity} (h : pool.get? key = some client) :
    (key, client) ∈ pool.clients := by
  obtain ⟨e, he, rfl⟩ := Option.map_eq_some_iff.mp h
  have hkey := List.find?_some he
  rw [← of_decide_eq_true hkey]
  exact List.mem_of_find?_eq_some he

/-- A call is the one for its settings, its certificate and its mode. -/
theorem run_cases (call : ClientCall) (pool : ClientPool Proxy Identity) :
    (∃ client, pool.get? call.key = some client ∧
      exec (call.run tools) pool = (.ok client, pool)) ∨
    (∃ e pool', exec (call.run tools) pool = (.error e, pool') ∧ pool'.clients = pool.clients) ∨
    ∃ builder serial pool', configure tools call.settings call.identity call.streaming
        = .ok builder ∧
      exec (call.run tools) pool = (.ok ⟨builder, serial⟩, pool') ∧
      pool'.clients = pool.clients ++ [(call.key, ⟨builder, serial⟩)] := by
  cases call with
  | clientFor spec identity => exact clientForMode_cases spec identity false pool
  | clientForMode spec identity streaming => exact clientForMode_cases spec identity streaming pool

/-- The step: what a call returns fits it, a call that fails leaves the clients as they are, and the
pool stays sound. -/
theorem sound_call {calls : List ClientCall} {pool : ClientPool Proxy Identity}
    (h : Sound tools calls pool) (call : ClientCall) (hcollision : NoCollision (calls ++ [call])) :
    (∀ client, (exec (call.run tools) pool).1 = .ok client → Fits tools call client) ∧
    (∀ e, (exec (call.run tools) pool).1 = .error e →
      (exec (call.run tools) pool).2.clients = pool.clients) ∧
    Sound tools (calls ++ [call]) (exec (call.run tools) pool).2 := by
  have hlast : call ∈ calls ++ [call] := List.mem_append_right _ (List.mem_singleton.mpr rfl)
  -- A client that was there fits the earlier call that asked for it.
  have hold : ∀ e ∈ pool.clients, ∃ c ∈ calls ++ [call], e.1 = c.key ∧ Fits tools c e.2 := by
    intro e he
    obtain ⟨c, hc, hfits⟩ := h e he
    exact ⟨c, List.mem_append_left _ hc, hfits⟩
  rcases @run_cases Proxy Identity tools call pool with
    ⟨client, hget, hrun⟩ | ⟨e, pool', hrun, hsame⟩ | ⟨builder, serial, pool', hbuilder, hrun, hpool⟩
  -- The pooled client fits an earlier call with the same key.
  · rw [hrun]
    refine ⟨?_, nofun, hold⟩
    intro client' heq
    obtain rfl := Except.ok.inj heq
    obtain ⟨c, hc, hkey, hfits⟩ := h _ (mem_of_get? hget)
    exact fits_of_key hkey.symm (hcollision c (List.mem_append_left _ hc) call hlast) hfits
  -- A failed call leaves the clients as they are.
  · rw [hrun]
    refine ⟨nofun, fun _ _ => hsame, ?_⟩
    intro entry hentry
    rw [hsame] at hentry
    exact hold entry hentry
  -- A new client fits the call that built it.
  · rw [hrun]
    have hfits : Fits tools call ⟨builder, serial⟩ := fits_of_configure hbuilder serial
    refine ⟨?_, nofun, ?_⟩
    · intro client heq
      obtain rfl := Except.ok.inj heq
      exact hfits
    · intro entry hentry
      rw [hpool] at hentry
      rcases List.mem_append.mp hentry with hentry | hentry
      · exact hold entry hentry
      · rw [List.mem_singleton.mp hentry]
        exact ⟨call, hlast, rfl, hfits⟩

/-- The pool of a new executor stays sound over every sequence of calls. -/
theorem sound_afterCalls (calls : List ClientCall) (hcollision : NoCollision calls) :
    Sound tools calls (afterCalls tools calls .empty) := by
  induction calls using List.reverseRecOn with
  | nil =>
    intro e he
    exact absurd he List.not_mem_nil
  | append_singleton calls call ih =>
    have hcalls : NoCollision calls := fun c hc d hd =>
      hcollision c (List.mem_append_left _ hc) d (List.mem_append_left _ hd)
    rw [afterCalls, List.foldl_append]
    exact (sound_call (ih hcalls) call hcollision).2.2

/-- **A pooled client matches its request.** After any calls on a new executor, the client that a
call returns was built with the timeout, the TLS verification, the proxy, the streaming mode and the
client certificate of this call, and a call that fails leaves the pooled clients as they are. -/
theorem fits_run (tools : ClientTools Proxy Identity) (calls : List ClientCall) (call : ClientCall)
    (hcollision : NoCollision (calls ++ [call])) :
    (∀ client, (exec (call.run tools) (afterCalls tools calls .empty)).1 = .ok client →
      Fits tools call client) ∧
    ∀ e, (exec (call.run tools) (afterCalls tools calls .empty)).1 = .error e →
      (exec (call.run tools) (afterCalls tools calls .empty)).2.clients
        = (afterCalls tools calls .empty).clients := by
  have hcalls : NoCollision calls := fun c hc d hd =>
    hcollision c (List.mem_append_left _ hc) d (List.mem_append_left _ hd)
  have hsound : Sound tools calls (afterCalls tools calls .empty) := sound_afterCalls calls hcalls
  have hstep := sound_call hsound call hcollision
  exact ⟨hstep.1, hstep.2.1⟩

/-- Two certificates, of which the first is asked for again. -/
theorem fits_run_again :
    let tools : ClientTools Text (List UInt8) := ⟨.ok, .ok, fun _ _ => none⟩
    let spec := RequestSpec.new id "GET".toList "https://api.test".toList
    let calls : List ClientCall := [.clientFor spec (some ⟨1, [10]⟩),
      .clientForMode spec (some ⟨2, [20]⟩) true]
    let call : ClientCall := .clientFor spec (some ⟨1, [10]⟩)
    ∃ client, (exec (call.run tools) (afterCalls tools calls .empty)).1 = .ok client ∧
      client.serial = 0 ∧ Fits tools call client := by
  intro tools spec calls call
  have hcollision : NoCollision (calls ++ [call]) := by
    unfold NoCollision
    decide +kernel
  have hrun : (exec (call.run tools) (afterCalls tools calls .empty)).1
      = .ok
        ⟨{ @baseBuilder Text (List UInt8) spec.settings false with identity := some [10] }, 0⟩ :=
    rfl
  exact ⟨_, hrun, rfl, (fits_run tools calls call hcollision).1 _ hrun⟩

/-! ### The keys in the state of the engine -/

/-- The error of a result. -/
def errorOf {α : Type} : Except Text α → Option Text
  | .ok _ => none
  | .error message => some message

/-- A network that refuses what the tools refuse. A build fails by its settings alone. -/
structure SameErrors {Url : Type} (network : Network Url) (tools : ClientTools Proxy Identity) :
    Prop where
  proxy : ∀ text, network.proxyError text = errorOf (tools.proxyAll text)
  identity : ∀ pem, network.identityError pem = errorOf (tools.identityFromPem pem)
  build : ∀ serial settings identity streaming builder,
    configure tools settings identity streaming = .ok builder →
      tools.buildError serial builder = network.clientError (clientKey settings identity streaming)

/-- The engine finds the same error in the proxy. -/
theorem addProxy_eq {Url : Type} {network : Network Url} (h : SameErrors network tools)
    (settings : Settings) (builder : ClientBuilder Proxy Identity) :
    (∃ message, settings.proxy.bind network.proxyError = some message ∧
      addProxy tools settings builder = .error (.client message)) ∨
    (settings.proxy.bind network.proxyError = none ∧
      ∃ builder', addProxy tools settings builder = .ok builder') := by
  unfold addProxy
  cases settings.proxy with
  | none => exact Or.inr ⟨rfl, builder, rfl⟩
  | some proxy =>
    rw [Option.bind_some, h.proxy]
    dsimp only
    cases tools.proxyAll proxy with
    | ok parsed => exact Or.inr ⟨rfl, _, rfl⟩
    | error message => exact Or.inl ⟨message, rfl, rfl⟩

/-- The engine finds the same error in the certificate. -/
theorem addIdentity_eq {Url : Type} {network : Network Url} (h : SameErrors network tools)
    (settings : Settings) (identity : Option IdentityMaterial)
    (builder : ClientBuilder Proxy Identity) :
    (∃ message, (identity.bind fun i => network.identityError i.pem) = some message ∧
      addIdentity tools settings identity builder
        = .error (.clientCert (settings.clientCert.getD []) message)) ∨
    ((identity.bind fun i => network.identityError i.pem) = none ∧
      ∃ builder', addIdentity tools settings identity builder = .ok builder') := by
  unfold addIdentity
  cases identity with
  | none => exact Or.inr ⟨rfl, builder, rfl⟩
  | some identity =>
    rw [Option.bind_some, h.identity]
    dsimp only
    cases tools.identityFromPem identity.pem with
    | ok parsed => exact Or.inr ⟨rfl, _, rfl⟩
    | error message => exact Or.inl ⟨message, rfl, rfl⟩

/-- A key without a client is not among the keys. -/
theorem get?_eq_none_iff {pool : ClientPool Proxy Identity} {key : ClientKey} :
    pool.get? key = none ↔ key ∉ pool.clients.map (·.1) := by
  rw [get?, Option.map_eq_none_iff, List.find?_eq_none, List.mem_map, not_exists]
  refine forall_congr' fun e => ?_
  rw [not_and, decide_eq_true_eq]

/-- The engine keeps the keys of the pool: it succeeds and fails with it, and pools the key of every
client. -/
theorem clientForMode_keys {Url : Type} {network : Network Url} (h : SameErrors network tools)
    (spec : RequestSpec) (identity : Option IdentityMaterial) (streaming : Bool)
    (pool : ClientPool Proxy Identity) (s : EngineState Url)
    (hs : s.clients = pool.clients.map (·.1)) :
    (exec (Engine.clientForMode network spec identity streaming) s).1
        = (exec (clientForMode tools spec identity streaming) pool).1.map
            (fun _ => clientKey spec.settings identity streaming) ∧
      (exec (Engine.clientForMode network spec identity streaming) s).2.clients
        = (exec (clientForMode tools spec identity streaming) pool).2.clients.map (·.1) := by
  unfold Engine.clientForMode clientForMode
  dsimp only
  rw [exec_bind_ok (exec_get s), exec_bind_ok (exec_get pool), hs]
  cases hget : pool.get? (clientKey spec.settings identity streaming) with
  | some client =>
    have hmem : clientKey spec.settings identity streaming ∈ pool.clients.map (·.1) :=
      List.mem_map.mpr ⟨_, mem_of_get? hget, rfl⟩
    rw [clientKey] at hmem
    rw [if_pos hmem]
    exact ⟨rfl, hs⟩
  -- Without a pooled client both go through the proxy, the certificate and the build in turn.
  | none =>
    have hmem := get?_eq_none_iff.mp hget
    rw [clientKey] at hmem
    rw [if_neg hmem]
    rcases addProxy_eq h spec.settings (baseBuilder spec.settings streaming) with
      ⟨message, hproxy, hadd⟩ | ⟨hproxy, proxied, hadd⟩
    · rw [hproxy, configure, hadd]
      exact ⟨rfl, hs⟩
    · rw [hproxy]
      rcases addIdentity_eq h spec.settings identity proxied with
        ⟨message, hidentity, hset⟩ | ⟨hidentity, builder, hset⟩
      · have hconfigure : configure tools spec.settings identity streaming
            = .error (.clientCert (spec.settings.clientCert.getD []) message) := by
          rw [configure, hadd]
          exact hset
        rw [hidentity, hconfigure]
        exact ⟨rfl, hs⟩
      · have hconfigure : configure tools spec.settings identity streaming = .ok builder := by
          rw [configure, hadd]
          exact hset
        have hbuild := h.build pool.builds spec.settings identity streaming builder hconfigure
        rw [clientKey] at hbuild
        rw [hidentity, hconfigure]
        dsimp only
        cases herror : network.clientError ⟨spec.settings.timeoutMs, spec.settings.verifyTls,
            spec.settings.proxy, streaming, identity.map (·.fingerprint)⟩ with
        | some message =>
          rw [exec_bind_error (exec_build_error (hbuild.trans herror))]
          exact ⟨rfl, hs⟩
        | none =>
          rw [exec_bind_ok (exec_build_ok (hbuild.trans herror))]
          refine ⟨rfl, ?_⟩
          show s.clients ++ [_] = List.map Prod.fst (pool.clients ++ [_])
          rw [List.map_append, hs]
          rfl

end Gabriel.Engine.ClientPool
