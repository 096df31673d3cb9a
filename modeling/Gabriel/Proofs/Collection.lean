import Gabriel.Cli.Collection
import Gabriel.Proofs.HeaderValues

/-!
# `Gabriel.Proofs.Collection`: defaults, and finding a request

What a collection does to one request. Its defaults are to fill the gaps of a request and nothing
else (`Filled`): the pass over the default headers adds the first value of a name only, and default
settings are taken as a whole.

A query is to find the request that was meant, or none (`NeverGuesses`). The strong matches
(`Strong`: the end of a path, or a name) and those that only contain the query are in one list, so
the list is what the outcome depends on. The theorems:

* `pairsNamed_fillHeaders`: the pass keeps the pairs of a name that is there, and adds the first
  pair of one that is not, by induction over the defaults.
* `applyDefaults_applyDefaults`: applying the defaults twice is applying them once.
* `defaults_fill_iff`: when the defaults fill the gaps, over every request and every defaults.
* `find_of_none`, `find_of_one`, `find_of_several`: what a query finds, by the number of candidates.
* `find_never_guesses_iff`: when a query never guesses and always finds, over every collection.
-/

set_option autoImplicit false

namespace Gabriel.Cli

open Gabriel.Core Text

/-! ### Headers -/

section Headers

/-- The pairs of a name, in any letter case. -/
def pairsNamed (headers : FieldMap) (name : Text) : List (Text × Text) :=
  headers.iterPairs.filter fun e => eqIgnoreAsciiCase e.1 name

/-- The pass over the default headers. -/
def fillHeaders (headers : FieldMap) (pairs : List (Text × Text)) : FieldMap :=
  pairs.foldl (fun headers e => if headers.containsKey e.1 then headers else headers.insert e.1 e.2)
    headers

/-- The defaults are filled in one after the other. -/
theorem fillHeaders_cons (headers : FieldMap) (e : Text × Text) (rest : List (Text × Text)) :
    fillHeaders headers (e :: rest)
      = fillHeaders (if headers.containsKey e.1 then headers else headers.insert e.1 e.2) rest :=
  rfl

/-- The values of a header are those of its pairs. -/
theorem headerValues_eq_pairsNamed (headers : FieldMap) (name : Text) :
    headers.headerValues name = (pairsNamed headers name).map (·.2) := rfl

/-- A name without a key has no pairs. -/
theorem pairsNamed_eq_nil {headers : FieldMap} {name : Text}
    (h : headers.containsKey name = false) :
    pairsNamed headers name = [] := by
  rw [pairsNamed, List.filter_eq_nil_iff]
  intro e he hname
  have hvalue : e.2 ∈ headers.headerValues name :=
    List.mem_map_of_mem (f := (·.2)) (List.mem_filter.mpr ⟨he, hname⟩)
  exact Bool.false_ne_true (h.symm.trans (FieldMap.containsKey_of_mem hvalue))

/-- A name without a key, in any letter case, is no key. -/
theorem ne_of_containsKey {headers : FieldMap} {key : Text} (h : headers.containsKey key = false) :
    ∀ e ∈ headers.fields.entries, e.1 ≠ key := by
  rintro e he rfl
  have hkey : headers.containsKey e.1 = true :=
    List.any_eq_true.mpr ⟨e.1, List.mem_map_of_mem he, eqIgnoreAsciiCase_iff.mpr rfl⟩
  exact absurd (h.symm.trans hkey) Bool.false_ne_true

/-- A key that is new is a new entry. -/
theorem insert_eq {headers : FieldMap} {key : Text} (h : headers.containsKey key = false)
    (value : Text) : headers.insert key value = ⟨headers.fields.insert key (.one value)⟩ := by
  have hnone : headers.fields.get? key = none := by
    cases hget : headers.fields.get? key with
    | none => rfl
    | some found => exact absurd rfl (ne_of_containsKey h _ (SortedMap.mem_of_lookupEntry hget))
  unfold FieldMap.insert
  rw [hnone]

/-- A map with a new header has this header and those it had. -/
theorem containsKey_insert {headers : FieldMap} {key : Text} (h : headers.containsKey key = false)
    (value name : Text) : (headers.insert key value).containsKey name
      = (eqIgnoreAsciiCase key name || headers.containsKey name) := by
  rw [insert_eq h, Bool.eq_iff_iff]
  unfold FieldMap.containsKey
  rw [Bool.or_eq_true_iff, List.any_eq_true, List.any_eq_true]
  simp only [SortedMap.mem_keys_insert, or_and_right, exists_or, exists_eq_left]

/-- The pairs of a name after a new entry: the new pair alone, when it has the name. -/
theorem pairsNamed_insert {headers : FieldMap} {key : Text} (h : headers.containsKey key = false)
    (value name : Text) : pairsNamed (headers.insert key value) name
      = if eqIgnoreAsciiCase key name then [(key, value)] else pairsNamed headers name := by
  obtain ⟨front, back, hsplit, hinsert⟩ := SortedMap.insertEntry_split (ne_of_containsKey h)
    (FieldValue.one value)
  have hpairs : (headers.insert key value).iterPairs
      = front.flatMap FieldMap.entryPairs ++ (key, value) :: back.flatMap FieldMap.entryPairs := by
    rw [insert_eq h, FieldMap.iterPairs, SortedMap.entries_insert, hinsert, List.flatMap_append,
      List.flatMap_cons]
    rfl
  have hold : pairsNamed headers name
      = (front.flatMap FieldMap.entryPairs).filter (fun e => eqIgnoreAsciiCase e.1 name)
        ++ (back.flatMap FieldMap.entryPairs).filter fun e => eqIgnoreAsciiCase e.1 name := by
    rw [pairsNamed, FieldMap.iterPairs, hsplit, List.flatMap_append, List.filter_append]
  rw [pairsNamed, hpairs, List.filter_append, List.filter_cons]
  by_cases hname : eqIgnoreAsciiCase key name = true
  · -- No other key has the name.
    have hnone : pairsNamed headers name = [] := pairsNamed_eq_nil
      ((headers.containsKey_congr (eqIgnoreAsciiCase_iff.mp hname)).symm.trans h)
    obtain ⟨hfront, hback⟩ := List.append_eq_nil_iff.mp (hold.symm.trans hnone)
    rw [if_pos hname, if_pos hname, hfront, hback, List.nil_append]
  · rw [if_neg hname, if_neg hname, hold]

/-- **The pass keeps the pairs of a name that is there**, and adds the first pair of one that is
not. -/
theorem pairsNamed_fillHeaders (headers : FieldMap) (pairs : List (Text × Text)) (name : Text) :
    pairsNamed (fillHeaders headers pairs) name
      = if headers.containsKey name then pairsNamed headers name
        else (pairs.filter fun e => eqIgnoreAsciiCase e.1 name).take 1 := by
  -- Induction on the defaults; each one is added only when its name is not there yet.
  induction pairs generalizing headers with
  | nil =>
    show pairsNamed headers name = _
    by_cases hname : headers.containsKey name = true
    · rw [if_pos hname]
    · rw [if_neg hname, pairsNamed_eq_nil (Bool.eq_false_iff.mpr hname)]
      rfl
  | cons e rest ih =>
    rw [fillHeaders_cons]
    -- A default whose name is there changes nothing, so another name is asked for.
    by_cases hkey : headers.containsKey e.1 = true
    · rw [if_pos hkey, ih]
      by_cases hname : headers.containsKey name = true
      · rw [if_pos hname, if_pos hname]
      · have hother : ¬ eqIgnoreAsciiCase e.1 name = true := fun heq =>
          hname ((headers.containsKey_congr (eqIgnoreAsciiCase_iff.mp heq)).symm.trans hkey)
        rw [if_neg hname, if_neg hname, List.filter_cons, if_neg hother]
    -- A new default is the first pair of its name.
    · have hnew : headers.containsKey e.1 = false := Bool.eq_false_iff.mpr hkey
      rw [if_neg hkey, ih, containsKey_insert hnew, pairsNamed_insert hnew]
      by_cases heq : eqIgnoreAsciiCase e.1 name = true
      · have hname : ¬ headers.containsKey name = true := by
          rw [← headers.containsKey_congr (eqIgnoreAsciiCase_iff.mp heq)]
          exact hkey
        rw [heq, Bool.true_or, if_pos rfl, if_pos rfl, if_neg hname, List.filter_cons, if_pos heq]
        rfl
      · rw [Bool.eq_false_iff.mpr heq, Bool.false_or, if_neg Bool.false_ne_true, List.filter_cons,
          if_neg heq]

/-- A filled map has its own headers and the defaults. -/
theorem containsKey_fillHeaders (headers : FieldMap) (pairs : List (Text × Text)) (name : Text) :
    (fillHeaders headers pairs).containsKey name
      = (headers.containsKey name || pairs.any fun e => eqIgnoreAsciiCase e.1 name) := by
  induction pairs generalizing headers with
  | nil => exact (Bool.or_false _).symm
  | cons e rest ih =>
    rw [fillHeaders_cons, ih, List.any_cons]
    by_cases hkey : headers.containsKey e.1 = true
    · rw [if_pos hkey]
      by_cases heq : eqIgnoreAsciiCase e.1 name = true
      · rw [← headers.containsKey_congr (eqIgnoreAsciiCase_iff.mp heq), hkey, Bool.true_or,
          Bool.true_or]
      · rw [Bool.eq_false_iff.mpr heq, Bool.false_or]
    · rw [if_neg hkey, containsKey_insert (Bool.eq_false_iff.mpr hkey), Bool.or_assoc,
        Bool.or_left_comm]

/-- A pass with names that are all there changes nothing. -/
theorem fillHeaders_of_contained {headers : FieldMap} {pairs : List (Text × Text)}
    (h : ∀ e ∈ pairs, headers.containsKey e.1 = true) : fillHeaders headers pairs = headers := by
  induction pairs with
  | nil => rfl
  | cons e rest ih =>
    rw [fillHeaders_cons, if_pos (h e List.mem_cons_self)]
    exact ih fun d hd => h d (List.mem_cons_of_mem _ hd)

/-- A second pass changes nothing. -/
theorem fillHeaders_fillHeaders (headers : FieldMap) (pairs : List (Text × Text)) :
    fillHeaders (fillHeaders headers pairs) pairs = fillHeaders headers pairs := by
  refine fillHeaders_of_contained fun e he => ?_
  rw [containsKey_fillHeaders, Bool.or_eq_true_iff]
  exact .inr (List.any_eq_true.mpr ⟨e, he, eqIgnoreAsciiCase_iff.mpr rfl⟩)

end Headers

/-! ### Settings -/

section Settings

/-- One field, filled when it says nothing. -/
def fillField {α : Type} [DecidableEq α] (field : Settings → α) (own given : Settings) : α :=
  if field own = field {} then field given else field own

/-- Settings whose fields are filled one by one. -/
def fillSettings (own given : Settings) : Settings where
  timeoutMs := fillField Settings.timeoutMs own given
  followRedirects := fillField Settings.followRedirects own given
  maxRedirects := fillField Settings.maxRedirects own given
  verifyTls := fillField Settings.verifyTls own given
  proxy := fillField Settings.proxy own given
  clientCert := fillField Settings.clientCert own given
  effect := fillField Settings.effect own given

/-- A field of the request that says nothing has nothing to take. -/
def NothingToTake {α : Type} (field : Settings → α) (own given : Settings) : Prop :=
  field own = field {} → field given = field {}

/-- No field of the request has anything to take. -/
structure NoGap (own given : Settings) : Prop where
  timeoutMs : NothingToTake Settings.timeoutMs own given
  followRedirects : NothingToTake Settings.followRedirects own given
  maxRedirects : NothingToTake Settings.maxRedirects own given
  verifyTls : NothingToTake Settings.verifyTls own given
  proxy : NothingToTake Settings.proxy own given
  clientCert : NothingToTake Settings.clientCert own given
  effect : NothingToTake Settings.effect own given

/-- A setting stays exactly when there is nothing to take. -/
theorem fillField_eq_iff {α : Type} [DecidableEq α] (field : Settings → α) (own given : Settings) :
    fillField field own given = field own ↔ NothingToTake field own given := by
  unfold fillField NothingToTake
  by_cases h : field own = field {}
  · rw [if_pos h, h, forall_prop_of_true rfl]
  · rw [if_neg h]
    exact iff_of_true rfl fun heq => absurd heq h

/-- Filling changes nothing exactly when there is nothing to take. -/
theorem fillSettings_eq_iff (own given : Settings) :
    fillSettings own given = own ↔ NoGap own given := by
  have hfields : fillSettings own given = own
      ↔ fillField Settings.timeoutMs own given = own.timeoutMs
      ∧ fillField Settings.followRedirects own given = own.followRedirects
      ∧ fillField Settings.maxRedirects own given = own.maxRedirects
      ∧ fillField Settings.verifyTls own given = own.verifyTls
      ∧ fillField Settings.proxy own given = own.proxy
      ∧ fillField Settings.clientCert own given = own.clientCert
      ∧ fillField Settings.effect own given = own.effect := by
    rw [← Settings.mk.injEq]
    exact Iff.rfl
  rw [hfields]
  simp only [fillField_eq_iff]
  exact ⟨fun ⟨h₁, h₂, h₃, h₄, h₅, h₆, h₇⟩ => ⟨h₁, h₂, h₃, h₄, h₅, h₆, h₇⟩,
    fun ⟨h₁, h₂, h₃, h₄, h₅, h₆, h₇⟩ => ⟨h₁, h₂, h₃, h₄, h₅, h₆, h₇⟩⟩

/-- Settings that say nothing take everything. -/
theorem fillSettings_default (given : Settings) : fillSettings {} given = given := by
  have hfield : ∀ {α : Type} [DecidableEq α] (field : Settings → α),
      fillField field {} given = field given := fun field => if_pos rfl
  unfold fillSettings
  simp only [hfield]

end Settings

/-! ### Defaults -/

variable {collection : Collection} {spec : RequestSpec}

/-- The defaults fill the gaps of a request and nothing else. -/
structure Filled (collection : Collection) (spec : RequestSpec) : Prop where
  /-- The request keeps its header pairs. -/
  kept : ∀ name, spec.headers.containsKey name = true →
    pairsNamed (collection.applyDefaults spec).headers name = pairsNamed spec.headers name
  /-- A header that it lacks has all the default values, in their order. -/
  added : ∀ name, spec.headers.containsKey name = false →
    (collection.applyDefaults spec).headers.headerValues name
      = collection.manifest.defaults.headers.headerValues name
  /-- The default authentication is taken exactly by a request without one and one that inherits. -/
  auth : (collection.applyDefaults spec).auth
    = if spec.auth = none ∨ spec.auth = some .inherit then
        collection.manifest.defaults.auth.or spec.auth
      else spec.auth
  /-- Each settings field that says nothing is filled. -/
  settings : (collection.applyDefaults spec).settings
    = fillSettings spec.settings (collection.manifest.defaults.settings.getD {})
  rest : { collection.applyDefaults spec with
    headers := spec.headers, auth := spec.auth, settings := spec.settings } = spec
  idempotent : collection.applyDefaults (collection.applyDefaults spec)
    = collection.applyDefaults spec

/-- The headers are filled in. -/
theorem applyDefaults_headers : (collection.applyDefaults spec).headers
    = fillHeaders spec.headers collection.manifest.defaults.headers.iterPairs := rfl

/-- Settings are taken as a whole, when the request has none. -/
theorem applyDefaults_settings : (collection.applyDefaults spec).settings
    = if spec.settings = {} then collection.manifest.defaults.settings.getD {}
      else spec.settings := by
  show (if spec.settings = {} then _ else _) = _
  by_cases h : spec.settings = {}
  · rw [if_pos h, if_pos h, h]
  · rw [if_neg h, if_neg h]

/-- So is an authentication, also when the request says `inherit`. -/
theorem applyDefaults_auth : (collection.applyDefaults spec).auth
    = if spec.auth = none ∨ spec.auth = some .inherit then
        collection.manifest.defaults.auth.or spec.auth
      else spec.auth := by
  show (if decide (spec.auth = none ∨ spec.auth = some .inherit) = true then _ else _) = _
  simp only [decide_eq_true_eq]

/-- **Applying the defaults twice is applying them once.** -/
theorem applyDefaults_applyDefaults : collection.applyDefaults (collection.applyDefaults spec)
    = collection.applyDefaults spec := by
  -- Each of the three parts is filled at most once.
  have hheaders : (collection.applyDefaults (collection.applyDefaults spec)).headers
      = (collection.applyDefaults spec).headers := fillHeaders_fillHeaders _ _
  have hauth : (collection.applyDefaults (collection.applyDefaults spec)).auth
      = (collection.applyDefaults spec).auth := by
    rw [applyDefaults_auth, applyDefaults_auth]
    cases collection.manifest.defaults.auth with
    | none => simp only [Option.none_or, ite_self]
    | some auth =>
      simp only [Option.some_or]
      split_ifs <;> rfl
  have hsettings : (collection.applyDefaults (collection.applyDefaults spec)).settings
      = (collection.applyDefaults spec).settings := by
    rw [applyDefaults_settings, applyDefaults_settings]
    by_cases h : spec.settings = {}
    · rw [if_pos h]
      exact ite_self _
    · rw [if_neg h, if_neg h]
  show ({ spec with
    headers := (collection.applyDefaults (collection.applyDefaults spec)).headers
    auth := (collection.applyDefaults (collection.applyDefaults spec)).auth
    settings := (collection.applyDefaults (collection.applyDefaults spec)).settings } : RequestSpec)
      = _
  rw [hheaders, hauth, hsettings]
  rfl

/-- **When the defaults fill the gaps.** No default header that the request lacks has two values;
and the settings of the request say nothing at all, or have nothing to take. -/
theorem defaults_fill_iff (collection : Collection) (spec : RequestSpec) :
    Filled collection spec ↔
      (∀ name, spec.headers.containsKey name = false →
        (collection.manifest.defaults.headers.headerValues name).length ≤ 1)
      ∧ (spec.settings = {}
        ∨ NoGap spec.settings (collection.manifest.defaults.settings.getD {})) := by
  -- Of a name the request lacks, the pass adds one pair.
  have hadded : ∀ name, spec.headers.containsKey name = false →
      ((collection.applyDefaults spec).headers.headerValues name
        = collection.manifest.defaults.headers.headerValues name
      ↔ (collection.manifest.defaults.headers.headerValues name).length ≤ 1) := by
    intro name hname
    have hlacks : ¬ spec.headers.containsKey name = true := Bool.eq_false_iff.mp hname
    rw [headerValues_eq_pairsNamed, applyDefaults_headers, pairsNamed_fillHeaders, if_neg hlacks,
      List.map_take]
    exact List.take_eq_self_iff _
  -- Settings are taken as a whole or not at all.
  have hsettings : (collection.applyDefaults spec).settings
        = fillSettings spec.settings (collection.manifest.defaults.settings.getD {})
      ↔ spec.settings = {}
        ∨ NoGap spec.settings (collection.manifest.defaults.settings.getD {}) := by
    rw [applyDefaults_settings]
    by_cases h : spec.settings = {}
    · rw [if_pos h, h, fillSettings_default]
      exact iff_of_true rfl (.inl rfl)
    · rw [if_neg h, or_iff_right h, eq_comm, fillSettings_eq_iff]
  constructor
  · intro h
    exact ⟨fun name hname => (hadded name hname).mp (h.added name hname), hsettings.mp h.settings⟩
  · rintro ⟨hvalues, hgap⟩
    refine ⟨fun name hname => ?_, fun name hname => (hadded name hname).mpr (hvalues name hname),
      applyDefaults_auth, hsettings.mpr hgap, rfl, applyDefaults_applyDefaults⟩
    rw [applyDefaults_headers, pairsNamed_fillHeaders, if_pos hname]

/-- A collection with two default values of `accept` and a default timeout. -/
def acceptCollection : Collection where
  root := "demo".toList
  manifest :=
    { name := none, vars := .empty
      defaults :=
        { headers := .fromIter [("accept".toList, "text/html".toList),
            ("accept".toList, "text/plain".toList)]
          auth := none, settings := some { timeoutMs := 5000 } } }
  requests := []
  problems := []

/-- Only the first one reaches a request, and one that declares its effect has no timeout of its
own either. -/
theorem not_defaults_fill_accept :
    ¬ Filled acceptCollection { RequestSpec.new id "GET".toList "https://api.test".toList with
      settings := { effect := some .read } } := by
  intro h
  have htimeout := congrArg Settings.timeoutMs h.settings
  exact absurd htimeout (by decide +kernel)

/-! ### Finding a request -/

section Find

variable (lower : Text → Text) (query : Text)

/-- The query without its extension and the slashes around it. -/
def normalised : Text := trimMatches '/' (trimEndMatches tomlSuffix query)

/-- The query ends a path, after a slash. -/
def endsPath (id : Text) : Bool := ('/' :: normalised query) <:+ id

/-- The query ends the path of a request, or is its name. -/
def Strong (entry : RequestEntry) : Bool := endsPath query entry.id || entry.spec.name = some query

/-- The query is a part of an id, in any letter case. -/
def Contains (id : Text) : Bool := lower (normalised query) <:+: lower id

/-- The requests that a query may mean when it is no id. -/
def candidates (requests : List RequestEntry) : List RequestEntry :=
  requests.filter fun entry => Strong query entry || Contains lower query entry.id

/-- No request has the id. -/
def NotExact (collection : Collection) : Prop :=
  ∀ entry ∈ collection.requests, entry.id ≠ normalised query

/-- The requests that match strongly. -/
def strongOnes (collection : Collection) : List RequestEntry :=
  collection.requests.filter (Strong query)

/-- The requests that contain the query. -/
def weakOnes (collection : Collection) : List RequestEntry :=
  collection.requests.filter fun entry => Contains lower query entry.id

/-- A query finds what was meant, or nothing. -/
structure NeverGuesses (collection : Collection) : Prop where
  /-- An id that is there is found. -/
  exact : ∀ entry ∈ collection.requests, entry.id = normalised query →
    ∃ found ∈ collection.requests, found.id = normalised query
      ∧ collection.find lower query = .ok found
  /-- The only strong match is found, however many others contain the query. -/
  strong : NotExact query collection → ∀ entry, strongOnes query collection = [entry] →
    collection.find lower query = .ok entry
  /-- Several strong matches are all named. -/
  several : NotExact query collection → 1 < (strongOnes query collection).length →
    ∃ names, collection.find lower query = .error (.ambiguousRequest query names)
      ∧ ∀ entry ∈ strongOnes query collection, entry.id ∈ names
  /-- Without a strong match, several that contain the query are all named. -/
  weak : NotExact query collection → strongOnes query collection = [] →
    1 < (weakOnes lower query collection).length →
    ∃ names, collection.find lower query = .error (.ambiguousRequest query names)
      ∧ ∀ entry ∈ weakOnes lower query collection, entry.id ∈ names
  /-- A request that only contains the query is found when nothing matches more strongly, also no
  file that could not be read. -/
  last : ∀ entry, collection.find lower query = .ok entry → entry.id ≠ normalised query →
    Strong query entry = false →
    NotExact query collection ∧ strongOnes query collection = []
      ∧ ∀ problem ∈ collection.problems,
        problem.id ≠ normalised query ∧ endsPath query problem.id = false

variable {lower query} {collection : Collection}

/-- An exact id is found. -/
theorem find_of_exact {entry : RequestEntry} (hmem : entry ∈ collection.requests)
    (hid : entry.id = normalised query) :
    ∃ found ∈ collection.requests, found.id = normalised query
      ∧ collection.find lower query = .ok found := by
  unfold Collection.find
  dsimp only
  cases hfind : collection.requests.find? (·.id = normalised query) with
  | none => exact absurd (decide_eq_true hid) (List.find?_eq_none.mp hfind entry hmem)
  | some found =>
    have hfound : found.id = normalised query := by simpa using List.find?_some hfind
    refine ⟨found, List.mem_of_find?_eq_some hfind, hfound, ?_⟩
    unfold normalised at hfind
    rw [hfind]

/-- The list that the source looks at. -/
theorem filter_eq_candidates (requests : List RequestEntry) :
    (requests.filter fun r => decide ((decide (('/' :: normalised query) <:+ r.id
        ∨ lower (normalised query) <:+: lower r.id)) = true ∨ r.spec.name = some query))
      = candidates lower query requests := by
  refine List.filter_congr fun r _ => ?_
  unfold Strong endsPath Contains
  rw [Bool.eq_iff_iff]
  simp only [decide_eq_true_eq, Bool.or_eq_true]
  tauto

/-- Without a candidate no request is found, and none is named. -/
theorem find_of_none (h : NotExact query collection)
    (hnone : candidates lower query collection.requests = []) :
    (∀ entry, collection.find lower query ≠ .ok entry)
      ∧ ∀ names, collection.find lower query ≠ .error (.ambiguousRequest query names) := by
  have hexact : collection.requests.find? (·.id = normalised query) = none :=
    List.find?_eq_none.mpr fun entry hmem => by simpa using h entry hmem
  rw [← filter_eq_candidates] at hnone
  unfold normalised at hexact hnone
  unfold Collection.find
  dsimp only
  rw [hexact, hnone]
  dsimp only
  constructor
  · intro entry heq
    split at heq <;> cases heq
  · intro names heq
    split at heq <;> cases heq

/-- The only candidate is found. -/
theorem find_of_one (h : NotExact query collection) {entry : RequestEntry}
    (hone : candidates lower query collection.requests = [entry]) :
    collection.find lower query = .ok entry := by
  have hexact : collection.requests.find? (·.id = normalised query) = none :=
    List.find?_eq_none.mpr fun entry hmem => by simpa using h entry hmem
  rw [← filter_eq_candidates] at hone
  unfold normalised at hexact hone
  unfold Collection.find
  dsimp only
  rw [hexact, hone]

/-- Several candidates are all named. -/
theorem find_of_several (h : NotExact query collection)
    (hseveral : 1 < (candidates lower query collection.requests).length) :
    collection.find lower query = .error (.ambiguousRequest query
      ((candidates lower query collection.requests).map (·.id))) := by
  have hexact : collection.requests.find? (·.id = normalised query) = none :=
    List.find?_eq_none.mpr fun entry hmem => by simpa using h entry hmem
  obtain ⟨first, second, rest, hlist⟩ : ∃ first second rest,
      candidates lower query collection.requests = first :: second :: rest := by
    cases hlist : candidates lower query collection.requests with
    | nil =>
      rw [hlist] at hseveral
      exact absurd hseveral (by decide)
    | cons first rest =>
      cases rest with
      | nil =>
        rw [hlist] at hseveral
        exact absurd hseveral (Nat.lt_irrefl 1)
      | cons second rest => exact ⟨first, second, rest, rfl⟩
  rw [hlist]
  rw [← filter_eq_candidates] at hlist
  unfold normalised at hexact hlist
  unfold Collection.find
  dsimp only
  rw [hexact, hlist]

/-- A candidate matches strongly, or has the query in its id. -/
theorem mem_candidates {entry : RequestEntry} :
    entry ∈ candidates lower query collection.requests ↔ entry ∈ collection.requests
      ∧ (Strong query entry = true ∨ Contains lower query entry.id = true) := by
  unfold candidates
  rw [List.mem_filter, Bool.or_eq_true_iff]

/-- A strong candidate matches strongly. -/
theorem mem_strongOnes {entry : RequestEntry} : entry ∈ strongOnes query collection
    ↔ entry ∈ collection.requests ∧ Strong query entry = true := List.mem_filter

/-- The strong matches are candidates. -/
theorem strongOnes_sublist :
    (strongOnes query collection).Sublist (candidates lower query collection.requests) :=
  List.monotone_filter_right _ fun entry hstrong => by
    rw [hstrong]
    exact Bool.true_or _

/-- Without a strong match the candidates are those that contain the query. -/
theorem candidates_of_no_strong (h : strongOnes query collection = []) :
    candidates lower query collection.requests = weakOnes lower query collection := by
  refine List.filter_congr fun entry hmem => ?_
  have hstrong : ¬ Strong query entry = true := List.filter_eq_nil_iff.mp h entry hmem
  rw [Bool.eq_false_iff.mpr hstrong, Bool.false_or]

/-- The only strong match is the only candidate when nothing else contains the query. -/
theorem candidates_of_one_strong {entry : RequestEntry}
    (h : strongOnes query collection = [entry]) :
    candidates lower query collection.requests = [entry]
      ↔ ∀ other ∈ collection.requests, Contains lower query other.id = true →
        Strong query other = true := by
  constructor
  · intro hone other hmem hcontains
    have hother : other ∈ candidates lower query collection.requests :=
      mem_candidates.mpr ⟨hmem, .inr hcontains⟩
    rw [hone, ← h] at hother
    exact (mem_strongOnes.mp hother).2
  · intro hall
    rw [← h]
    refine List.filter_congr fun other hmem => ?_
    rw [Bool.or_eq_left_iff_imp]
    exact hall other hmem

/-- A request that is found and is no id is the only candidate. -/
theorem candidates_of_find (h : NotExact query collection) {entry : RequestEntry}
    (hfind : collection.find lower query = .ok entry) :
    candidates lower query collection.requests = [entry] := by
  rcases Nat.lt_trichotomy (candidates lower query collection.requests).length 1 with
    hnone | hone | hseveral
  · have hnil := List.length_eq_zero_iff.mp (Nat.lt_one_iff.mp hnone)
    exact absurd hfind ((find_of_none h hnil).1 entry)
  · obtain ⟨only, honly⟩ := List.length_eq_one_iff.mp hone
    rw [find_of_one h honly] at hfind
    rw [honly, Except.ok.inj hfind]
  · rw [find_of_several h hseveral] at hfind
    cases hfind

variable (lower query collection) in
/-- **When a query never guesses and always finds.** It is an id; or else, if one request matches
strongly, every request that contains the query does, and if none does and one contains the query,
no unreadable file has it as its id or at the end of its path. -/
theorem find_never_guesses_iff : NeverGuesses lower query collection ↔
    (∃ entry ∈ collection.requests, entry.id = normalised query)
    ∨ ((∀ entry, strongOnes query collection = [entry] →
        ∀ other ∈ collection.requests, Contains lower query other.id = true →
          Strong query other = true)
      ∧ (strongOnes query collection = [] → (weakOnes lower query collection).length = 1 →
        ∀ problem ∈ collection.problems,
          problem.id ≠ normalised query ∧ endsPath query problem.id = false)) := by
  -- An exact id is found whatever else the collection holds.
  by_cases hexact : ∃ entry ∈ collection.requests, entry.id = normalised query
  · refine iff_of_true ?_ (.inl hexact)
    obtain ⟨entry, hmem, hid⟩ := hexact
    have hnot : ¬ NotExact query collection := fun h => h entry hmem hid
    refine ⟨fun other hother hsame => find_of_exact hother hsame, fun h => absurd h hnot,
      fun h => absurd h hnot, fun h => absurd h hnot, fun other hfind hne => ?_⟩
    obtain ⟨found, -, hfound, hok⟩ := @find_of_exact lower _ _ _ hmem hid
    rw [hok] at hfind
    exact absurd (Except.ok.inj hfind ▸ hfound) hne
  have hnot : NotExact query collection := fun entry hmem hid => hexact ⟨entry, hmem, hid⟩
  rw [or_iff_right hexact]
  constructor
  -- Each part of the condition is read off the query that would guess otherwise.
  · intro h
    refine ⟨fun entry hone => ?_, fun hnone hweak => ?_⟩
    · exact (candidates_of_one_strong hone).mp (candidates_of_find hnot (h.strong hnot entry hone))
    · obtain ⟨entry, hentry⟩ := List.length_eq_one_iff.mp hweak
      have hcandidates := (@candidates_of_no_strong lower _ _ hnone).trans hentry
      have hmem : entry ∈ collection.requests :=
        (mem_candidates.mp (hcandidates ▸ List.mem_singleton_self entry)).1
      have hstrong : Strong query entry = false :=
        Bool.eq_false_iff.mpr (List.filter_eq_nil_iff.mp hnone entry hmem)
      exact (h.last entry (find_of_one hnot hcandidates) (hnot entry hmem) hstrong).2.2
  · rintro ⟨hone, hnone⟩
    refine ⟨fun entry hmem hid => absurd hid (hnot entry hmem), fun _ entry hstrong => ?_,
      fun _ hseveral => ?_, fun _ hstrong hseveral => ?_, fun entry hfind _ hweak => ?_⟩
    -- One strong match is the answer when nothing weak is left over.
    · exact find_of_one hnot ((candidates_of_one_strong hstrong).mpr (hone entry hstrong))
    -- Several strong matches are all named by the error.
    · have hlength := (@strongOnes_sublist lower query collection).length_le
      refine ⟨_, find_of_several hnot (by omega), fun entry hentry => ?_⟩
      exact List.mem_map_of_mem (strongOnes_sublist.subset hentry)
    -- Several weak matches are all named as well.
    · have hcandidates := @candidates_of_no_strong lower _ _ hstrong
      rw [← hcandidates] at hseveral ⊢
      exact ⟨_, find_of_several hnot hseveral, fun entry hentry => List.mem_map_of_mem hentry⟩
    -- A weak match that is found was the only candidate, so the last part applies.
    · have hcandidates := candidates_of_find hnot hfind
      have hstrong : strongOnes query collection = [] := by
        refine List.eq_nil_iff_forall_not_mem.mpr fun other hother => ?_
        have hmem := (@strongOnes_sublist lower query collection).subset hother
        rw [hcandidates, List.mem_singleton] at hmem
        rw [hmem] at hother
        exact Bool.false_ne_true (hweak.symm.trans (mem_strongOnes.mp hother).2)
      have hlength : (weakOnes lower query collection).length = 1 := by
        rw [← candidates_of_no_strong hstrong, hcandidates]
        rfl
      exact ⟨hnot, hstrong, hnone hstrong hlength⟩

end Find

/-! ### A name that is also a part of another id -/

/-- A request with a name. -/
def requestEntry (entryId name : Text) : RequestEntry where
  path := requestPath "demo".toList entryId
  id := entryId
  spec := { RequestSpec.new id "GET".toList "https://api.test".toList with name := some name }

/-- A collection with a request named `login`, and one whose id contains `login`. -/
def loginCollection : Collection :=
  { acceptCollection with
    requests := [requestEntry "auth/start".toList "login".toList,
      requestEntry "auth/login-again".toList "Again".toList] }

/-- The request with the name is not found. -/
theorem not_find_never_guesses_login :
    ¬ NeverGuesses asciiLower "login".toList loginCollection := by
  intro h
  have hexact : NotExact "login".toList loginCollection := by
    unfold NotExact
    decide +kernel
  have hstrong : strongOnes "login".toList loginCollection
      = [requestEntry "auth/start".toList "login".toList] := by
    decide +kernel
  have hfind := h.strong hexact _ hstrong
  exact absurd hfind (by decide +kernel)

end Gabriel.Cli
