import Gabriel.Proofs.FieldMap
import Gabriel.Proxy.Serve

/-!
# `Gabriel.Proofs.HandedBack`: the headers of a response on their way to the browser

The proxy rebuilds a response from the record of it: the headers become texts in a `FieldMap`,
and texts become bytes again. The map keeps the values of a name in order, and the values of two
names apart. A value comes back as it was when all its bytes are visible ASCII; another one comes
back as `<binary header value>`.

A response is handed back (`HandsBack`) when every name that is neither hop-by-hop nor
`Content-Length` has its values again. Both ways of a response are covered: `forward`, which
records and rebuilds it, and `relay_upgrade`. The theorems:

* `encode_headerText_iff`: a value is recorded without loss when it is visible ASCII, and only then.
* `valuesOf_rebuilt`: the values of a name in a response that is built from a record.
* `handsBack_rebuilt_iff`: such a response, with the headers that are kept.
* `headers_of_forward`, `response_of_relayUpgrade`: what the two functions give the browser.
* `handedBack_iff`: a response is handed back unchanged exactly when its header values are visible
  ASCII.
-/

set_option autoImplicit false

namespace Gabriel.Proxy

open Gabriel.Core Gabriel.Engine Text

/-- The values of a name, in order. -/
def valuesFor (headers : List (Text × List UInt8)) (name : Text) : List (List UInt8) :=
  (headers.filter (·.1 = name)).map (·.2)

/-- A response is handed back: every name that is neither hop-by-hop nor `Content-Length` has the
values that the upstream gave it, and no other ones. -/
def HandsBack (upstream : UpstreamResponse) (response : ProxyResponse) : Prop :=
  ∀ name, isDropped name = false →
    valuesFor response.headers name = valuesFor upstream.headers.entries name

/-- Every such value is visible ASCII. -/
def Textual (upstream : UpstreamResponse) : Prop :=
  ∀ e ∈ upstream.headers.entries, isDropped e.1 = false → e.2.all isVisibleAscii = true

/-- A map that changes nothing changes no element. -/
theorem map_eq_self_iff {α : Type*} {f : α → α} {l : List α} :
    l.map f = l ↔ ∀ a ∈ l, f a = a := by
  conv_lhs => rhs; rw [← List.map_id l]
  exact List.map_inj_left

/-- A text of visible ASCII is its bytes. -/
theorem encode_visible {value : List UInt8} (h : value.all isVisibleAscii = true) :
    Utf8.encode (value.map fun b => Char.ofNat b.toNat) = value := by
  induction value with
  | nil => rfl
  | cons b value ih =>
    rw [List.all_cons, Bool.and_eq_true] at h
    have hlt : b.toNat < 0x80 := by
      have hvisible := h.1
      unfold isVisibleAscii at hvisible
      rw [Bool.or_eq_true, Bool.and_eq_true, decide_eq_true_iff, decide_eq_true_iff,
        beq_iff_eq] at hvisible
      rcases hvisible with hprinted | htab
      · omega
      · rw [htab]
        decide
    have hone := Utf8.encode_ofNat_of_lt hlt
    rw [Utf8.encode_cons, Utf8.encode_nil, List.append_nil] at hone
    rw [List.map_cons, Utf8.encode_cons, ih h.2, hone, UInt8.ofNat_toNat]
    rfl

/-- A value is recorded without loss when it is visible ASCII, and only then. -/
theorem encode_headerText_iff (value : List UInt8) :
    Utf8.encode (headerText value) = value ↔ value.all isVisibleAscii = true := by
  unfold headerText toStr
  by_cases hvisible : value.all isVisibleAscii = true
  · rw [if_pos hvisible, Option.getD_some]
    exact ⟨fun _ => hvisible, fun _ => encode_visible hvisible⟩
  · rw [if_neg hvisible, Option.getD_none]
    refine ⟨?_, fun h => absurd h hvisible⟩
    -- The text in its place is visible itself.
    intro heq
    rw [← heq]
    decide +kernel

/-- The values of a name in a response that is built from some pairs of a record. -/
theorem valuesOf_rebuilt (headers : HeaderMap) (keep : Text → Bool) {name : Text}
    (h : keep name = true) :
    valuesFor (rebuilt (headers.toFieldMap.iterPairs.filter fun e => keep e.1)) name
      = (valuesFor headers.entries name).map fun value => Utf8.encode (headerText value) := by
  -- What is dropped has other names, so the pairs of this name are all there.
  have hkept : (headers.toFieldMap.iterPairs.filter fun e => keep e.1).filter (·.1 = name)
      = headers.toFieldMap.iterPairs.filter (·.1 = name) := by
    rw [List.filter_filter]
    refine List.filter_congr fun e _ => ?_
    by_cases hname : e.1 = name
    · simp [hname, h]
    · simp [hname]
  -- A record keeps the order of the values of a name.
  have hvalues : (headers.toFieldMap.iterPairs.filter (·.1 = name)).map (·.2)
      = (headers.entries.filter (·.1 = name)).map fun e => headerText e.2 := by
    rw [FieldMap.filter_iterPairs, HeaderMap.toFieldMap, FieldMap.valuesOf_fromIter,
      HeaderMap.texts, List.filter_map, List.map_map]
    rfl
  calc valuesFor (rebuilt (headers.toFieldMap.iterPairs.filter fun e => keep e.1)) name
      = (((headers.toFieldMap.iterPairs.filter fun e => keep e.1).filter (·.1 = name)).map
          (·.2)).map Utf8.encode := by
        unfold valuesFor rebuilt
        rw [List.filter_map, List.map_map, List.map_map]
        rfl
    _ = ((headers.entries.filter (·.1 = name)).map fun e => headerText e.2).map Utf8.encode := by
        rw [hkept, hvalues]
    _ = (valuesFor headers.entries name).map fun value => Utf8.encode (headerText value) := by
        unfold valuesFor
        rw [List.map_map, List.map_map]
        rfl

/-- A response that is built from the record of another one, with the headers that are kept. -/
theorem handsBack_rebuilt_iff (upstream : UpstreamResponse) (keep : Text → Bool)
    (hkeep : ∀ name, isDropped name = false → keep name = true) (response : ProxyResponse)
    (hheaders : response.headers
      = rebuilt (upstream.headers.toFieldMap.iterPairs.filter fun e => keep e.1)) :
    HandsBack upstream response ↔ Textual upstream := by
  unfold HandsBack
  rw [hheaders]
  constructor
  · intro hback e he hname
    have hvalues := hback e.1 hname
    rw [valuesOf_rebuilt upstream.headers keep (hkeep e.1 hname), map_eq_self_iff] at hvalues
    refine (encode_headerText_iff e.2).mp (hvalues e.2 ?_)
    exact List.mem_map_of_mem (List.mem_filter.mpr ⟨he, decide_eq_true rfl⟩)
  · intro htextual name hname
    rw [valuesOf_rebuilt upstream.headers keep (hkeep name hname), map_eq_self_iff]
    intro value hvalue
    obtain ⟨e, he, rfl⟩ := List.mem_map.mp hvalue
    obtain ⟨hmem, hsame⟩ := List.mem_filter.mp he
    rw [← of_decide_eq_true hsame] at hname
    exact (encode_headerText_iff e.2).mpr (htextual e hmem hname)

section Relays

variable {Url : Type} {lib : HttpLib Url} {config : ProxyConfig} {state : ProxyState}
  {request : BrowserRequest} {url : Text} {encounter : Encounter} {readings : Readings}
  {upstream : UpstreamResponse} {response : ProxyResponse}

/-- What `forward` holds is the answer of the upstream. -/
theorem response_of_forwardHead {forwarded : Forwarded} (hanswer : encounter.answer = .ok upstream)
    (h : (forwardHead lib config state request url encounter).2 = .ok forwarded) :
    forwarded.response = upstream := by
  unfold forwardHead at h
  split at h
  · cases h
  split at h
  · cases h
  split at h
  · cases h
  split at h
  · cases h
  rw [hanswer] at h
  rw [← Except.ok.inj h]

/-- The headers that `forward` gives the browser. -/
theorem headers_of_forward (hanswer : encounter.answer = .ok upstream)
    (h : (forward lib config state request url encounter readings).2 = .ok response) :
    response.headers
      = rebuilt (upstream.headers.toFieldMap.iterPairs.filter fun e => !isDropped e.1) := by
  unfold forward at h
  split at h
  · cases h
  rename_i after forwarded hhead
  have hresponse : forwarded.response = upstream :=
    response_of_forwardHead hanswer (by rw [hhead])
  unfold forwardRest at h
  dsimp only at h
  split at h
  · rw [← Except.ok.inj h, hresponse]
  · split at h
    · cases h
    · rw [← Except.ok.inj h, hresponse]

/-- What `relay_upgrade` holds is the answer of the upstream. -/
theorem response_of_relayUpgradeHead {answered : UpstreamResponse}
    (hanswer : encounter.answer = .ok upstream)
    (h : (relayUpgradeHead lib config state request url encounter).2 = .ok answered) :
    answered = upstream := by
  unfold relayUpgradeHead at h
  split at h
  · cases h
  split at h
  · cases h
  dsimp only at h
  split at h
  · cases h
  split at h
  · cases h
  rw [hanswer] at h
  exact (Except.ok.inj h).symm

/-- The response that `relay_upgrade` gives the browser. -/
theorem response_of_relayUpgrade (hanswer : encounter.answer = .ok upstream)
    (h : (relayUpgrade lib config state request url encounter).2 = .ok response) :
    response = relayUpgradeRest upstream := by
  unfold relayUpgrade at h
  cases hhead : (relayUpgradeHead lib config state request url encounter).2 with
  | error e =>
    dsimp only at h
    rw [hhead] at h
    cases h
  | ok answered =>
    dsimp only at h
    rw [hhead] at h
    rw [← response_of_relayUpgradeHead hanswer hhead]
    exact (Except.ok.inj h).symm

end Relays

/-- The answer to an upgrade is handed back when it is textual, and only then. -/
theorem handsBack_relayUpgradeRest (upstream : UpstreamResponse) :
    HandsBack upstream (relayUpgradeRest upstream) ↔ Textual upstream := by
  by_cases hstatus : upstream.status = 101
  · -- A `101` keeps all headers.
    refine handsBack_rebuilt_iff upstream (fun _ => true) (fun _ _ => rfl) _ ?_
    unfold relayUpgradeRest
    rw [if_neg (not_not.mpr hstatus), List.filter_true]
  · refine handsBack_rebuilt_iff upstream (fun name => !isDropped name) ?_ _ ?_
    · intro name hname
      rw [hname]
      rfl
    · unfold relayUpgradeRest
      rw [if_pos hstatus]

/-- **A response is handed back unchanged exactly when its header values are visible ASCII.** It
is so for `forward`, buffered or streamed, and for `relay_upgrade`, declined or not. -/
theorem handedBack_iff {Url : Type} (lib : HttpLib Url) (config : ProxyConfig)
    (state : ProxyState) (request : BrowserRequest) (url : Text) (encounter : Encounter)
    (readings : Readings) (upstream : UpstreamResponse) (response : ProxyResponse)
    (hanswer : encounter.answer = .ok upstream)
    (hresponse : (forward lib config state request url encounter readings).2 = .ok response ∨
      (relayUpgrade lib config state request url encounter).2 = .ok response) :
    HandsBack upstream response ↔ Textual upstream := by
  rcases hresponse with hforward | hupgrade
  · refine handsBack_rebuilt_iff upstream (fun name => !isDropped name) ?_ response
      (headers_of_forward hanswer hforward)
    intro name hname
    rw [hname]
    rfl
  · rw [response_of_relayUpgrade hanswer hupgrade]
    exact handsBack_relayUpgradeRest upstream

/-- A download, with the name of the file. -/
def download (name : List UInt8) : UpstreamResponse where
  status := 200
  headers := ⟨[("content-disposition".toList, name)], by
    intro e he
    rw [List.mem_singleton.mp he]
    show asciiLower "content-disposition".toList = "content-disposition".toList
    decide⟩
  body := .ok []

/-- A request for the download. -/
def getDownload : BrowserRequest :=
  bareRequest "GET".toList (absoluteUri "files.test".toList "a".toList)

/-- The answer to it. -/
def forwardDownload (name : List UInt8) : Except Text ProxyResponse :=
  (forward plainLib { session := [] } { sessions := .new } getDownload getDownload.uri.text
    (answeredBy (download name)) noReadings).2

/-- A download with an ASCII name. -/
def asciiName : List UInt8 := [0x61, 0x2E, 0x74, 0x78, 0x74]

/-- A download with a Latin-1 name. -/
def latin1Name : List UInt8 := [0xE9, 0x2E, 0x74, 0x78, 0x74]

/-- A result that is not an error. -/
theorem exists_ok {ε α : Type} {result : Except ε α} (h : result.toBool = true) :
    ∃ a, result = .ok a := by
  cases result with
  | error e => cases h
  | ok a => exact ⟨a, rfl⟩

/-- A download with an ASCII name is handed back. -/
theorem handedBack_iff_ascii :
    ∃ response, forwardDownload asciiName = .ok response ∧
      HandsBack (download asciiName) response := by
  obtain ⟨response, hresponse⟩ := exists_ok
    (show (forwardDownload asciiName).toBool = true by decide +kernel)
  refine ⟨response, hresponse, ?_⟩
  refine (handedBack_iff plainLib { session := [] } { sessions := .new } getDownload
    getDownload.uri.text (answeredBy (download asciiName)) noReadings _ response rfl
    (Or.inl hresponse)).mpr ?_
  unfold Textual
  decide +kernel

/-- A download with a Latin-1 name is not. -/
theorem not_handedBack_latin1 :
    ¬ ∀ (config : ProxyConfig) (state : ProxyState) (request : BrowserRequest) (url : Text)
      (encounter : Encounter) (readings : Readings) (upstream : UpstreamResponse)
      (response : ProxyResponse), encounter.answer = .ok upstream →
      (forward plainLib config state request url encounter readings).2 = .ok response →
      HandsBack upstream response := by
  intro h
  obtain ⟨response, hresponse⟩ := exists_ok
    (show (forwardDownload latin1Name).toBool = true by decide +kernel)
  have hback := h _ _ getDownload _ (answeredBy (download latin1Name)) _ _ response rfl hresponse
  have htextual : ¬ Textual (download latin1Name) := by
    unfold Textual
    decide +kernel
  refine htextual ((handsBack_rebuilt_iff _ (fun name => !isDropped name) ?_ response
    (headers_of_forward rfl hresponse)).mp hback)
  intro name hname
  rw [hname]
  rfl

end Gabriel.Proxy
