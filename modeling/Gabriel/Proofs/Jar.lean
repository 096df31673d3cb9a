import Gabriel.Lib.LastWrite
import Gabriel.Proofs.Session

/-!
# `Gabriel.Proofs.Jar`: the jar of a session is a last-writer-wins map

The four operations of the store are lists of events: a cookie is stored under a session, a
session is cleared, everything is pruned. To one session, an event is at most one operation on
its jar (`JarEvent.toOp`), and the jar is the `LastWrite.contents` of these operations. What a
last-writer-wins map holds is said by the library (`LastWrite.contents_spec`); what is left here is
the clock, and the stable sort of the `Cookie` header. The theorems:

* `recordSetCookies_eq_stores`: recording headers is storing the accepted cookies one by one.
* `jar_eq_contents`: the jar of a session is what its operations leave, by induction over the
  events from the end.
* `jar_spec`: the jar as a list of writes; `headerWrites_exists`: the header as one, with the longer
  paths first.
* `jar_applyOp_of_spares`: a call on one session leaves the jars of the others.
* `jar_lastWriterWins`: all of it, over every sequence of calls.
-/

set_option autoImplicit false

namespace Gabriel.Engine

open Gabriel.Core Text LastWrite

/-- What happens to a store of jars. -/
inductive JarEvent where
  | store (session : Text) (cookie : Cookie) (nowMs : UInt64)
  | clear (session : Text)
  | prune (nowMs : UInt64)

/-- The clock reading of an event is not after `nowMs`. -/
def JarEvent.Before (nowMs : UInt64) : JarEvent → Prop
  | .store _ _ t => t ≤ nowMs
  | .clear _ => True
  | .prune t => t ≤ nowMs

instance (nowMs : UInt64) : DecidablePred (JarEvent.Before nowMs)
  | .store _ _ t => inferInstanceAs (Decidable (t ≤ nowMs))
  | .clear _ => inferInstanceAs (Decidable True)
  | .prune t => inferInstanceAs (Decidable (t ≤ nowMs))

/-- What the event does to the jar of a session. -/
def JarEvent.toOp (session : Text) : JarEvent → Option (Op Cookie)
  | .store s cookie t => if s = session then some (.put cookie (!cookie.isExpired t)) else none
  | .clear s => if s = session then some .reset else none
  | .prune t => some (.sieve fun cookie => !cookie.isExpired t)

/-- A call of the store. `record` carries the clock its call reads. -/
inductive JarOp where
  | insert (session : Text) (cookie : Cookie) (nowMs : UInt64)
  | record (session : Text) (headers : List Text) (host path : Text) (clock : Nat → UInt64)
  | clear (session : Text)
  | prune (nowMs : UInt64)

/-- The events of a `record_set_cookies` call: one for each header that is accepted. -/
def recordStores (session host path : Text) : (Nat → UInt64) → List Text → List JarEvent
  | _, [] => []
  | clock, header :: headers =>
    match Cookie.parse (clock 0) header host path with
    | some cookie =>
      .store session cookie (clock 1) :: recordStores session host path
          (fun n => clock (n + 2)) headers
    | none => recordStores session host path (fun n => clock (n + 2)) headers

/-- The events of a call. -/
def JarOp.events : JarOp → List JarEvent
  | .insert session cookie nowMs => [.store session cookie nowMs]
  | .record session headers host path clock => recordStores session host path clock headers
  | .clear session => [.clear session]
  | .prune nowMs => [.prune nowMs]

/-- The events of a sequence of calls. -/
def jarEvents (ops : List JarOp) : List JarEvent := ops.flatMap JarOp.events

/-- What a sequence of calls does to the jar of a session. -/
def jarOps (session : Text) (ops : List JarOp) : List (Op Cookie) :=
  (jarEvents ops).filterMap (JarEvent.toOp session)

/-- The jars that one call leaves alone: those of other sessions, unless it prunes. -/
def JarOp.Spares (s : Text) : JarOp → Prop
  | .insert session _ _ => session ≠ s
  | .record session _ _ _ _ => session ≠ s
  | .clear session => session ≠ s
  | .prune _ => False

namespace SessionStore

/-- The store after a call. -/
def applyOp (store : SessionStore) : JarOp → SessionStore
  | .insert session cookie nowMs => store.insert nowMs session cookie
  | .record session headers host path clock =>
    (store.recordSetCookies session host path clock headers).1
  | .clear session => (store.clear session).1
  | .prune nowMs => (store.prune nowMs).1

/-- The store after a sequence of calls from the empty store. -/
def runOps (ops : List JarOp) : SessionStore := ops.foldl applyOp new

/-- The store after one event. -/
def absorbJar (store : SessionStore) : JarEvent → SessionStore
  | .store session cookie t => store.insert t session cookie
  | .clear session => (store.clear session).1
  | .prune t => (store.prune t).1

/-- Recording a list of headers is storing the accepted cookies one by one. -/
theorem recordSetCookies_eq_stores (store : SessionStore) (session host path : Text)
    (clock : Nat → UInt64) (headers : List Text) :
    (store.recordSetCookies session host path clock headers).1
      = (recordStores session host path clock headers).foldl absorbJar store := by
  induction headers generalizing store clock with
  | nil => rfl
  | cons header headers ih =>
    rw [recordSetCookies, recordStores]
    cases Cookie.parse (clock 0) header host path with
    | some cookie => exact ih _ _
    | none => exact ih _ _

/-- A sequence of calls is the fold of its events. -/
theorem runOps_eq_foldl (ops : List JarOp) : runOps ops = (jarEvents ops).foldl absorbJar new := by
  rw [runOps, jarEvents, List.foldl_flatMap]
  congr 1
  funext store op
  cases op with
  | insert session cookie nowMs => rfl
  | record session headers host path clock => exact recordSetCookies_eq_stores ..
  | clear session => rfl
  | prune nowMs => rfl

/-- A jar after an event. -/
theorem jar_absorbJar (store : SessionStore) (event : JarEvent) (s : Text) :
    (store.absorbJar event).jar s
      = ((event.toOp s).map (step Cookie.identity (store.jar s))).getD (store.jar s) := by
  cases event with
  | store session cookie t =>
    rw [absorbJar, jar_insert, JarEvent.toOp]
    by_cases hs : s = session
    · subst hs
      rw [if_pos rfl, if_pos rfl]
      show _ = step Cookie.identity (store.jar s) (.put cookie (!cookie.isExpired t))
      rw [step]
      cases cookie.isExpired t <;> rfl
    · rw [if_neg hs, if_neg (Ne.symm hs)]
      rfl
  | clear session =>
    rw [absorbJar, jar_clear, JarEvent.toOp]
    by_cases hs : s = session
    · rw [if_pos hs, if_pos hs.symm]
      rfl
    · rw [if_neg hs, if_neg (Ne.symm hs)]
      rfl
  | prune t =>
    rw [absorbJar, jar_prune]
    rfl

/-- The jar of a session is what its operations leave. -/
theorem jar_eq_contents (ops : List JarOp) (s : Text) :
    (runOps ops).jar s = contents Cookie.identity (jarOps s ops) := by
  rw [runOps_eq_foldl, jarOps, contents]
  have hfold : ∀ (events : List JarEvent) (store : SessionStore),
      (events.foldl absorbJar store).jar s
        = (events.filterMap (JarEvent.toOp s)).foldl (step Cookie.identity) (store.jar s) := by
    intro events
    induction events with
    | nil =>
      intro store
      rfl
    | cons event events ih =>
      intro store
      rw [List.foldl_cons, ih, jar_absorbJar, List.filterMap_cons]
      cases event.toOp s <;> rfl
  exact hfold _ _

/-- The writes that a request takes its cookies from, in the order of the header. -/
structure HeaderWrites (ops : List JarOp) (nowMs : UInt64) (session host path : Text)
    (isSecure : Bool) (ws : List (Written Cookie)) : Prop where
  /-- The header is the join of their pairs. -/
  text : (runOps ops).cookieHeader nowMs session host path isSecure
    = if ws = [] then none
      else some (List.intercalate "; ".toList (ws.map fun w => w.value.pair))
  /-- They are the last writes that are live, unexpired and match. -/
  mem : ∀ w, w ∈ ws ↔ lastWrite Cookie.identity w.value.identity (jarOps session ops) = some w ∧
    w.live = true ∧ w.value.isExpired nowMs = false ∧
      w.value.matchesRequest host path isSecure = true
  /-- Longer paths come first, and of equal ones the older write: so each is there once. -/
  ordered : ws.Pairwise fun a b => utf8Len b.value.path < utf8Len a.value.path ∨
    (utf8Len b.value.path = utf8Len a.value.path ∧ a.index < b.index)

/-- The jar of a session, as a list of writes. -/
theorem jar_spec (ops : List JarOp) (s : Text) : ∃ ws, (runOps ops).jar s = ws.map (·.value) ∧
    Spec Cookie.identity (jarOps s ops) ws := by
  obtain ⟨ws, hspec⟩ := contents_spec Cookie.identity (jarOps s ops)
  exact ⟨ws, by rw [jar_eq_contents, hspec.values], hspec⟩

/-- A cookie that has not expired passes every prune before. -/
theorem passes_of_unexpired {ops : List JarOp} {nowMs : UInt64} {s : Text} {c : Cookie}
    (hclock : ∀ event ∈ jarEvents ops, event.Before nowMs) (hlive : c.isExpired nowMs = false) :
    ∀ keep, .sieve keep ∈ jarOps s ops → keep c = true := by
  intro keep hkeep
  obtain ⟨event, hevent, hop⟩ := List.mem_filterMap.mp hkeep
  have hbefore := hclock event hevent
  cases event with
  | store session cookie t =>
    rw [JarEvent.toOp] at hop
    split at hop <;> simp at hop
  | clear session =>
    rw [JarEvent.toOp] at hop
    split at hop <;> simp at hop
  | prune t =>
    rw [JarEvent.toOp, Option.some.injEq, Op.sieve.injEq] at hop
    rw [← hop]
    show (!c.isExpired t) = true
    rw [isExpired_mono hbefore hlive]
    rfl

/-- The order of the header: longer paths first. -/
def LongerFirst (a b : Written Cookie) : Prop := utf8Len b.value.path ≤ utf8Len a.value.path

instance : DecidableRel LongerFirst := fun a b =>
  inferInstanceAs (Decidable (utf8Len b.value.path ≤ utf8Len a.value.path))

instance : Std.Total LongerFirst := ⟨fun _ _ => Nat.le_total _ _⟩

instance : IsTrans (Written Cookie) LongerFirst := ⟨fun _ _ _ hab hbc => Nat.le_trans hbc hab⟩

/-- Every request has such a list of writes. -/
theorem headerWrites_exists (ops : List JarOp) (nowMs : UInt64)
    (hclock : ∀ event ∈ jarEvents ops, event.Before nowMs) (session host path : Text)
    (isSecure : Bool) : ∃ ws, HeaderWrites ops nowMs session host path isSecure ws := by
  obtain ⟨all, hjar, hspec⟩ := jar_spec ops session
  let selected := all.filter fun w =>
    !w.value.isExpired nowMs && w.value.matchesRequest host path isSecure
  refine ⟨selected.insertionSort LongerFirst, ?_, ?_, ?_⟩
  · have hmatching : (runOps ops).matching nowMs session host path isSecure
        = (selected.insertionSort LongerFirst).map (·.value) := by
      unfold matching
      rw [hjar, List.filter_map]
      exact (List.map_insertionSort LongerFirst
        (fun a b : Cookie => utf8Len b.path ≤ utf8Len a.path) (·.value) selected
        fun _ _ _ _ => Iff.rfl).symm
    unfold cookieHeader
    rw [hmatching]
    simp only [List.map_eq_nil_iff, List.map_map]
    rfl
  · intro w
    rw [List.mem_insertionSort, List.mem_filter, Bool.and_eq_true, Bool.not_eq_true']
    constructor
    · rintro ⟨hw, hlive, hmatch⟩
      exact ⟨(hspec.last w hw).1, (hspec.last w hw).2, hlive, hmatch⟩
    · rintro ⟨hlast, hlive, hunexpired, hmatch⟩
      exact ⟨hspec.complete _ w hlast hlive (passes_of_unexpired hclock hunexpired),
        hunexpired, hmatch⟩
  · have hsorted : (selected.insertionSort LongerFirst).Pairwise LongerFirst :=
      List.pairwise_insertionSort LongerFirst selected
    have hstable := pairwise_insertionSort_stable (r := LongerFirst) (hspec.ordered.filter
      fun w => !w.value.isExpired nowMs && w.value.matchesRequest host path isSecure)
    refine (hsorted.and hstable).imp ?_
    intro a b hab
    obtain ⟨hle, hindex⟩ := hab
    rcases Nat.lt_or_eq_of_le hle with hlt | heq
    · exact Or.inl hlt
    · exact Or.inr ⟨heq, hindex (Nat.le_of_eq heq.symm)⟩

/-- A call on one session leaves the jars of the others. -/
theorem jar_applyOp_of_spares (store : SessionStore) {op : JarOp} {s : Text}
    (h : op.Spares s) : (store.applyOp op).jar s = store.jar s := by
  cases op with
  | insert session cookie nowMs =>
    rw [applyOp, jar_insert, if_neg (Ne.symm h)]
  | record session headers host path clock =>
    rw [applyOp, recordSetCookies_eq_stores]
    induction headers generalizing store clock with
    | nil => rfl
    | cons header headers ih =>
      rw [recordStores]
      cases Cookie.parse (clock 0) header host path with
      | none => exact ih store _ h
      | some cookie =>
        rw [List.foldl_cons, ih _ _ h, absorbJar, jar_insert, if_neg (Ne.symm h)]
  | clear session =>
    rw [applyOp, jar_clear, if_neg (Ne.symm h)]
  | prune nowMs => exact absurd h id

/-- **The jar is a last-writer-wins map.** After any sequence of calls from the empty store, with
clock readings that are not after `nowMs`: a jar holds at most one cookie under a key; it is the
last one stored under that key since the session was last cleared, and was not expired when it
was stored; a last one that was not expired then, and is not now, is there; a call on one session
leaves the other jars; and the `Cookie` header of a request lists the unexpired matching ones of
these cookies, longer paths first, and of equal ones the older. -/
theorem jar_lastWriterWins (ops : List JarOp) (nowMs : UInt64)
    (hclock : ∀ event ∈ jarEvents ops, event.Before nowMs) :
    (∀ s, ((runOps ops).jar s).Pairwise fun a b => a.identity ≠ b.identity) ∧
    (∀ s c, c ∈ (runOps ops).jar s → ∃ w,
      lastWrite Cookie.identity c.identity (jarOps s ops) = some w ∧ w.value = c ∧ w.live = true) ∧
    (∀ s k w, lastWrite Cookie.identity k (jarOps s ops) = some w → w.live = true →
      w.value.isExpired nowMs = false → w.value ∈ (runOps ops).jar s) ∧
    (∀ (store : SessionStore) op s, op.Spares s → (store.applyOp op).jar s = store.jar s) ∧
    (∀ s host path isSecure, ∃ ws, HeaderWrites ops nowMs s host path isSecure ws) := by
  refine ⟨?_, ?_, ?_, fun store op s h => jar_applyOp_of_spares store h,
    headerWrites_exists ops nowMs hclock⟩
  · intro s
    obtain ⟨ws, hjar, hspec⟩ := jar_spec ops s
    rw [hjar, List.pairwise_map]
    refine hspec.ordered.imp_of_mem ?_
    intro a b ha hb hlt hsame
    -- Two writes of one key would both be its last one.
    have hlast := (hspec.last a ha).1
    rw [hsame, (hspec.last b hb).1] at hlast
    rw [Option.some.inj hlast] at hlt
    exact absurd hlt (Nat.lt_irrefl _)
  · intro s c hc
    obtain ⟨ws, hjar, hspec⟩ := jar_spec ops s
    rw [hjar] at hc
    obtain ⟨w, hw, rfl⟩ := List.mem_map.mp hc
    exact ⟨w, (hspec.last w hw).1, rfl, (hspec.last w hw).2⟩
  · intro s k w hlast hlive hunexpired
    obtain ⟨ws, hjar, hspec⟩ := jar_spec ops s
    rw [hjar]
    exact List.mem_map_of_mem
      (hspec.complete k w hlast hlive (passes_of_unexpired hclock hunexpired))

/-- A login, a second login that replaces its cookie, and a cookie of a longer path. -/
def loginTwice : List JarOp :=
  [.record "work".toList ["sid=old".toList] "app.test".toList "/".toList fun _ => 0,
    .record "work".toList ["sid=new".toList, "tab=1; Path=/admin".toList] "app.test".toList
      "/".toList fun _ => 0]

/-- The jar after the two logins. -/
theorem jar_lastWriterWins_login :
    (∀ s, ((runOps loginTwice).jar s).Pairwise fun a b => a.identity ≠ b.identity) ∧
    ∃ ws, HeaderWrites loginTwice 1 "work".toList "app.test".toList "/admin/x".toList true ws := by
  have hclock : ∀ event ∈ jarEvents loginTwice, event.Before 1 := by decide
  have h := jar_lastWriterWins loginTwice 1 hclock
  exact ⟨h.1, h.2.2.2.2 _ _ _ _⟩

end SessionStore
end Gabriel.Engine
