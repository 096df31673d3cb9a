import Gabriel.Proofs.PromoteDone

/-!
# `Gabriel.Proofs.Retarget`: does promotion retarget a request?

The saved URL is `{{base_url}}` and a path, so a request goes where the collection says that
`base_url` is. `NeverRetargets` is the promise that this is the captured server, or that the run
fails because nobody says where it is: for the environment that was named, or for every
environment and for none.

The command writes the variable only where the named environment does not set it, and keeps the
literal URL only when some environment sets it to another text. What it does not look at is the
value that the named environment sets, and the manifest. The condition is on these, as they are
before the run: what they bind `base_url` to has to expand to a text that names the captured server
(`LeadsBack`). A captured URL that holds a `{{` is a template itself (`UrlLeadsBack`).

The resolver expands a reference first and then what follows it (`Resolver.expands_reference`), so
the server and the path are looked at one after the other. The one thing that is assumed of the
URL library is `OriginAhead`: a path behind an authority does not change the origin. Texts that
have no authority, such as `https:`, are compared together with the path. The theorems:

* `chosen_url`: what is saved, the literal URL or the one with the variable.
* `onTarget_variable_iff`, `onTarget_url_iff`: where each of the two leads.
* `neverRetargets_before`: the promise, in terms of the collection before the run.
* `retargets_named`: the case of a named environment, which the run may have written.
* `neverRetargets_iff`: a successful run does not retarget exactly when what the collection says
  leads back.
-/

set_option autoImplicit false

namespace Gabriel.Cli

open Gabriel.Core Gabriel.Engine Gabriel.Proxy Text Fallible

variable {Url : Type}

/-! ### The promise -/

section Promise

variable (urls : UrlLib Url) (captured : Url) (world : World) (base : Resolver)

/-- A template, resolved with these variables. -/
def resolveWith (vars : SortedMap Text Text) (template : Text) : Except CoreError Text :=
  (exec (Resolver.resolve world template) { base with vars }).1

/-- A template leads to the captured server: it fails at an unknown variable, or it resolves to a
URL with the scheme, the host and the port of the captured one. -/
def OnTarget (vars : SortedMap Text Text) (template : Text) : Prop :=
  (∃ name, resolveWith world base vars template = .error (.unknownVariable name)) ∨
    ∃ text url, resolveWith world base vars template = .ok text ∧ urls.parse text = .ok url ∧
      sameOrigin urls url captured = true

/-- The variables of some run: those of the collection for an environment, or for none. -/
def RunVariables (collection : Collection) (environments : EnvironmentDir)
    (vars : SortedMap Text Text) : Prop :=
  vars = collection.variablesFor none ∨
    ∃ name ∈ environments.environmentNames, ∃ environment,
      environments.environment name = .ok environment ∧
        vars = collection.variablesFor (some environment)

/-- Promotion does not retarget the request: what it saved leads to the captured server, for the
environment that was named, or for every environment and for none. -/
def NeverRetargets (args : PromoteArgs) (after : Disk) (saved : RequestEntry) : Prop :=
  ∀ collection, after.load = .ok collection →
    args.env.elim
      (∀ vars, RunVariables collection after.environments vars →
        OnTarget urls captured world base vars saved.spec.url)
      fun name => ∀ environment, after.environments.environment name = .ok environment →
        OnTarget urls captured world base (collection.variablesFor (some environment))
          saved.spec.url

/-! ### What the collection says before -/

/-- The origin and the path that promotion cuts a captured URL into. -/
def originAndPath (u : AbsoluteUrl) : Text × Text :=
  (splitOrigin (baseOf u).text).getD ([], [])

/-- The URL with its origin as a variable. -/
def variableUrl (u : AbsoluteUrl) : Text := templateRef baseUrlVar ++ (originAndPath u).2

/-- The scheme, the host and the port of a text, when it is a URL. -/
def parsedOrigin (text : Text) : Option (Text × Option Text × Option UInt16) :=
  (urls.parse text).toOption.map fun url =>
    (urls.scheme url, urls.hostStr url, urls.portOrKnownDefault url)

/-- A text names a server by itself: it has an authority, which no blank ends. -/
def namesServer (text : Text) : Bool :=
  match splitOnce "://".toList text with
  | some (_, rest) =>
    let authority := rest.takeWhile fun c => c ∉ "/\\?#".toList
    authority ≠ [] ∧ ∀ c ∈ authority, ' ' < c
  | none => false

/-- A server is the captured one. A text that names no server by itself, such as `https:`, is one
together with the path. -/
def SameServer (server path : Text) : Prop :=
  parsedOrigin urls (if namesServer server then server else server ++ path)
    = some (urls.scheme captured, urls.hostStr captured, urls.portOrKnownDefault captured)

/-- Variables lead back to the captured server: what they bind `base_url` to expands to that
server, and the path of the captured URL expands. A name that nothing binds ends either. -/
def LeadsBack (vars : SortedMap Text Text) (u : AbsoluteUrl) : Prop :=
  ∀ value, vars.get? baseUrlVar = some value →
    Resolver.Expands (exec (Resolver.expand world Resolver.maxDepth value [baseUrlVar])
      ({ base with vars }.noteLookup baseUrlVar)) fun server r =>
        Resolver.Expands (exec (Resolver.resolve world (originAndPath u).2) r) fun path _ =>
          SameServer urls captured server path

/-- The captured URL itself leads back, read as a template. With a reference in its origin that is
a matter of the whole text, and otherwise of its path. -/
def UrlLeadsBack (vars : SortedMap Text Text) (u : AbsoluteUrl) : Prop :=
  if Resolver.opening <:+: (originAndPath u).1 then
    Resolver.Expands (exec (Resolver.resolve world (baseOf u).text)
        { base with vars }) fun text _ =>
      SameServer urls captured text []
  else Resolver.Expands (exec (Resolver.resolve world (originAndPath u).2) { base with vars })
    fun path _ => SameServer urls captured (originAndPath u).1 path

/-- An environment with the captured origin, unless it says what `base_url` is. -/
def withOrigin (environment : Environment) (u : AbsoluteUrl) : Environment :=
  if environment.binds baseUrlVar then environment
  else environment.withVar baseUrlVar (originAndPath u).1

/-- What the collection says before the run leads back. With an environment, that is what this
environment and the manifest say then. Without one, and with no environment that sets `base_url`
to another text, it is everything that is said about `base_url`; and otherwise the captured URL
leads back by itself. -/
def CollectionLeadsBack (collection : Collection) (environments : EnvironmentDir)
    (args : PromoteArgs) (u : AbsoluteUrl) : Prop :=
  args.env.elim
    (if baseUrlConflicts environments (originAndPath u).1 = [] then
        ∀ vars, RunVariables collection environments vars →
          LeadsBack urls captured world base vars u
      else ∀ vars, RunVariables collection environments vars →
        UrlLeadsBack urls captured world base vars u)
    fun name => ∀ environment, environmentOrNew environments name = .ok environment →
      LeadsBack urls captured world base
        (collection.variablesFor (some (withOrigin environment u))) u

/-- A path behind a server that has an authority does not change what the URL library reads as its
origin. -/
def OriginAhead : Prop :=
  ∀ server path, namesServer server = true → path = [] ∨ path.head? = some '/' →
    parsedOrigin urls (server ++ path) = parsedOrigin urls server

end Promise

/-! ### What is saved -/

section Saved

variable {tools : PromoteTools} {args : PromoteArgs} {disk : Disk} {plan : PromotePlan}
  {u : AbsoluteUrl}

/-- The origin and the path are what promotion splits. -/
theorem splitOrigin_baseOf (u : AbsoluteUrl) :
    splitOrigin (baseOf u).text = some (originAndPath u) := by
  obtain ⟨origin, path, hsplit, -, -⟩ := splitOrigin_text (baseOf u)
  unfold originAndPath
  rw [hsplit]
  rfl

/-- They put the URL back together. -/
theorem originAndPath_append (u : AbsoluteUrl) :
    (originAndPath u).1 ++ (originAndPath u).2 = (baseOf u).text := by
  obtain ⟨origin, path, hsplit, hjoin, -⟩ := splitOrigin_text (baseOf u)
  have hpair : (origin, path) = originAndPath u :=
    Option.some.inj (hsplit.symm.trans (splitOrigin_baseOf u))
  rw [← hpair]
  exact hjoin

/-- A promotion with a variable for the origin. -/
theorem promote_variableUrl {upper : Text → Text} {nowMs : UInt64} {opts : PromoteOptions}
    {capture : Capture} {promotion : Promotion} (hurl : capture.request.url = u.text)
    (hopts : opts.baseUrlVar = some baseUrlVar)
    (h : capture.promote upper nowMs opts = some promotion) :
    promotion.spec.url = variableUrl u ∧
      promotion.vars = [(baseUrlVar, (originAndPath u).1)] := by
  obtain ⟨base, hspec⟩ := Capture.promote_spec h
  have hsplit := hspec.splitQuery
  rw [hurl, splitQuery_text] at hsplit
  obtain ⟨pairs, -, hcut⟩ := Option.map_eq_some_iff.mp hsplit
  obtain ⟨rfl, -⟩ := Prod.mk.inj hcut
  have hmade := hspec.url
  rw [Capture.promoteUrl, hopts, splitOrigin_baseOf] at hmade
  exact Prod.mk.inj hmade

/-- A promotion without one. -/
theorem promote_literalUrl {upper : Text → Text} {nowMs : UInt64} {opts : PromoteOptions}
    {capture : Capture} {promotion : Promotion} (hurl : capture.request.url = u.text)
    (hopts : opts.baseUrlVar = none) (h : capture.promote upper nowMs opts = some promotion) :
    promotion.spec.url = (baseOf u).text := by
  obtain ⟨base, hspec⟩ := Capture.promote_spec h
  have hsplit := hspec.splitQuery
  rw [hurl, splitQuery_text] at hsplit
  obtain ⟨pairs, -, hcut⟩ := Option.map_eq_some_iff.mp hsplit
  obtain ⟨rfl, -⟩ := Prod.mk.inj hcut
  have hmade := hspec.url
  rw [Capture.promoteUrl, hopts] at hmade
  exact (Prod.mk.inj hmade).1

/-- What is saved: the literal URL, when no environment is named and one of them disagrees, and
otherwise the variable. -/
theorem chosen_url (hplanned : Planned tools disk args plan)
    (hurl : plan.capture.request.url = u.text) :
    (args.env.isNone = true ∧ baseUrlConflicts disk.environments (originAndPath u).1 ≠ [] ∧
        plan.promotion.spec.url = (baseOf u).text) ∨
      ((args.env.isSome = true ∨
          baseUrlConflicts disk.environments (originAndPath u).1 = []) ∧
        plan.promotion.spec.url = variableUrl u ∧
        plan.promotion.vars = [(baseUrlVar, (originAndPath u).1)]) := by
  have hchosen := hplanned.chosen
  unfold choosePromotion at hchosen
  obtain ⟨first, hfirst, hchosen⟩ := Option.bind_eq_some_iff.mp hchosen
  -- The first promotion is with the variable; it is kept unless an environment disagrees.
  obtain ⟨hvariable, hvars⟩ := promote_variableUrl hurl rfl hfirst
  have horigin : (first.vars.find? (·.1 = baseUrlVar)).map (·.2) = some (originAndPath u).1 := by
    rw [hvars, List.find?_cons_of_pos (by simp)]
    rfl
  simp only [horigin] at hchosen
  -- With `--env` no environment is asked.
  cases henv : args.env with
  | some name =>
    simp only [henv, Option.some.injEq] at hchosen
    rw [← hchosen]
    exact Or.inr ⟨Or.inl rfl, hvariable, hvars⟩
  | none =>
    simp only [henv] at hchosen
    by_cases hnone : baseUrlConflicts disk.environments (originAndPath u).1 = []
    · rw [if_pos hnone] at hchosen
      rw [← Option.some.inj hchosen]
      exact Or.inr ⟨Or.inr hnone, hvariable, hvars⟩
    · rw [if_neg hnone] at hchosen
      exact Or.inl ⟨rfl, hnone, promote_literalUrl hurl rfl hchosen⟩

end Saved

/-! ### Where it leads -/

section Lead

variable {urls : UrlLib Url} {captured : Url} {world : World} {base : Resolver} {u : AbsoluteUrl}

/-- The path that is cut off is empty, or it begins with a slash. -/
theorem path_head (u : AbsoluteUrl) :
    (originAndPath u).2 = [] ∨ (originAndPath u).2.head? = some '/' := by
  have hdrop : ∀ rest : Text, rest.dropWhile (· ≠ '/') = [] ∨
      (rest.dropWhile (· ≠ '/')).head? = some '/' := by
    intro rest
    induction rest with
    | nil => exact Or.inl rfl
    | cons c rest ih =>
      by_cases hc : c = '/'
      · rw [hc]
        exact Or.inr rfl
      · rwa [List.dropWhile_cons_of_pos (by simpa using hc)]
  have hsplit := splitOrigin_baseOf u
  unfold splitOrigin at hsplit
  obtain ⟨⟨scheme, rest⟩, -, hpair⟩ := Option.bind_eq_some_iff.mp hsplit
  rw [← Option.some.inj hpair]
  exact hdrop rest

/-- A URL has the captured origin exactly when its parts are the captured ones. -/
theorem parsedOrigin_eq_iff {text : Text} :
    parsedOrigin urls text
        = some (urls.scheme captured, urls.hostStr captured, urls.portOrKnownDefault captured) ↔
      ∃ url, urls.parse text = .ok url ∧ sameOrigin urls url captured = true := by
  unfold parsedOrigin sameOrigin
  cases urls.parse text with
  | error message => simp [Except.toOption]
  | ok url => simp [Except.toOption]

/-- A template leads to the captured server exactly when it expands to such a URL. -/
theorem onTarget_iff_expands {vars : SortedMap Text Text} {template : Text} :
    OnTarget urls captured world base vars template ↔
      Resolver.Expands (exec (Resolver.resolve world template) { base with vars }) fun text _ =>
        parsedOrigin urls text
          = some (urls.scheme captured, urls.hostStr captured,
              urls.portOrKnownDefault captured) := by
  unfold OnTarget resolveWith
  rcases exec (Resolver.resolve world template) { base with vars } with ⟨error | text, r⟩
  · simp [Resolver.Expands]
  · show _ ↔ parsedOrigin urls text = _
    rw [parsedOrigin_eq_iff]
    simp

/-- A server with the path behind it is the captured one. -/
theorem sameServer_iff (hlib : OriginAhead urls) {server path : Text}
    (hpath : path = [] ∨ path.head? = some '/') :
    SameServer urls captured server path ↔ parsedOrigin urls (server ++ path)
      = some (urls.scheme captured, urls.hostStr captured, urls.portOrKnownDefault captured) := by
  unfold SameServer
  by_cases hnames : namesServer server = true
  · rw [if_pos hnames, hlib server path hnames hpath]
  · rw [if_neg hnames]

/-- What the path of the captured URL expands to can stand behind a server. -/
theorem head_of_resolve_path {r s : Resolver} {path : Text}
    (h : exec (Resolver.resolve world (originAndPath u).2) r = (.ok path, s)) :
    path = [] ∨ path.head? = some '/' := by
  rcases path_head u with hnone | hhead
  · rw [hnone, Resolver.resolve_clean (by decide)] at h
    obtain ⟨heq, -⟩ := Prod.mk.inj h
    exact Or.inl (Except.ok.inj heq).symm
  · exact Or.inr (Resolver.head_resolve (by decide) hhead h)

/-- What a path expands to is compared behind its server. -/
theorem expands_path_iff (hlib : OriginAhead urls) (server : Text) (r : Resolver) :
    (Resolver.Expands (exec (Resolver.resolve world (originAndPath u).2) r) fun path _ =>
        SameServer urls captured server path) ↔
      Resolver.Expands (exec (Resolver.resolve world (originAndPath u).2) r) fun path _ =>
        parsedOrigin urls (server ++ path)
          = some (urls.scheme captured, urls.hostStr captured,
              urls.portOrKnownDefault captured) := by
  exact Resolver.expands_congr fun path s hrun => sameServer_iff hlib (head_of_resolve_path hrun)

/-- The URL with its origin as a variable leads to the captured server exactly when the variables
lead back. -/
theorem onTarget_variable_iff (hlib : OriginAhead urls) {vars : SortedMap Text Text} :
    OnTarget urls captured world base vars (variableUrl u) ↔
      LeadsBack urls captured world base vars u := by
  have hvar : Resolver.IsVariableName (trim baseUrlVar) := by decide
  have htrim : trim baseUrlVar = baseUrlVar := by decide
  rw [onTarget_iff_expands]
  refine (Resolver.expands_reference (by decide) (by decide)).trans ?_
  rw [Resolver.exec_lookup_variable hvar, htrim]
  unfold LeadsBack
  cases hget : vars.get? baseUrlVar with
  | none => simp [Resolver.Expands]
  | some value =>
    simp only [if_neg (List.not_mem_nil : baseUrlVar ∉ ([] : List Text)), List.nil_append,
      Option.some.injEq, forall_eq']
    exact Resolver.expands_congr fun server r _ => (expands_path_iff hlib server r).symm

/-- Variables lead back when they bind `base_url` to the captured origin, and the captured URL is
no template. -/
theorem leadsBack_origin (hlib : OriginAhead urls) (hlit : ¬ Resolver.opening <:+: (baseOf u).text)
    (horigin : parsedOrigin urls (baseOf u).text
      = some (urls.scheme captured, urls.hostStr captured, urls.portOrKnownDefault captured))
    {vars : SortedMap Text Text} (hget : vars.get? baseUrlVar = some (originAndPath u).1) :
    LeadsBack urls captured world base vars u := by
  rw [← originAndPath_append u] at hlit horigin
  intro value hvalue
  obtain rfl := Option.some.inj (hget.symm.trans hvalue)
  rw [Resolver.maxDepth, Resolver.expand_clean fun h => hlit (h.trans List.infix_append_left)]
  show Resolver.Expands (exec (Resolver.resolve world (originAndPath u).2) _) _
  rw [Resolver.resolve_clean fun h => hlit (h.trans List.infix_append_right)]
  exact (sameServer_iff hlib (path_head u)).mpr horigin

/-- The captured URL leads to the captured server exactly when it leads back. -/
theorem onTarget_url_iff (hlib : OriginAhead urls) {vars : SortedMap Text Text} :
    OnTarget urls captured world base vars (baseOf u).text ↔
      UrlLeadsBack urls captured world base vars u := by
  rw [onTarget_iff_expands]
  unfold UrlLeadsBack
  by_cases horigin : Resolver.opening <:+: (originAndPath u).1
  · rw [if_pos horigin]
    have hwhole : ∀ text, SameServer urls captured text [] ↔ parsedOrigin urls text
        = some (urls.scheme captured, urls.hostStr captured, urls.portOrKnownDefault captured) := by
      intro text
      rw [sameServer_iff hlib (Or.inl rfl), List.append_nil]
    exact Resolver.expands_congr fun text _ _ => (hwhole text).symm
  · rw [if_neg horigin, expands_path_iff hlib, ← originAndPath_append u]
    refine Resolver.expands_literal horigin ?_
    rcases path_head u with hnone | hhead
    · rw [hnone]
      simp
    · rw [hhead]
      simp

end Lead

/-! ### The environment that was named -/

section Named

variable {environments : EnvironmentDir} {name : Text} {environment : Environment}

/-- The variables of an environment do not depend on its name. -/
theorem variablesFor_named (collection : Collection) (environment : Environment)
    (name : Option Text) :
    collection.variablesFor (some { environment with name })
      = collection.variablesFor (some environment) := rfl

/-- An environment that binds something has a file. -/
theorem environment_of_binds (h : environmentOrNew environments name = .ok environment)
    (hbinds : environment.binds baseUrlVar = true) :
    environments.environment name = .ok environment := by
  unfold environmentOrNew at h
  cases hfile : environments.file name with
  | some content =>
    simp only [hfile] at h
    exact h
  | none =>
    simp only [hfile, Except.ok.injEq] at h
    rw [← h] at hbinds
    exact absurd hbinds (by simp [Environment.binds, SortedMap.containsKey])

/-- The environment after the run has the variables that it had, or that were recorded. -/
theorem environment_recorded (u : AbsoluteUrl)
    (h : environmentOrNew environments name = .ok environment) :
    ∃ label, (recordedEnvironment environments name baseUrlVar (originAndPath u).1
        environment).environment name
      = .ok { withOrigin environment u with name := label } := by
  unfold recordedEnvironment withOrigin
  cases hbinds : environment.binds baseUrlVar with
  | true => exact ⟨environment.name, environment_of_binds h hbinds⟩
  | false =>
    refine ⟨some ((environment.withVar baseUrlVar (originAndPath u).1).name.getD name), ?_⟩
    simp [EnvironmentDir.environment, EnvironmentDir.put]

end Named

/-! ### The command -/

section Command

variable {urls : UrlLib Url} {captured : Url} {world : World} {base : Resolver}
  {tools : PromoteTools} {args : PromoteArgs} {disk disk' : Disk} {saved : RequestEntry}
  {plan : PromotePlan}

/-- What a collection says about variables is in its manifest and its environments. -/
theorem variablesFor_congr {collection collection' : Collection}
    (h : collection'.manifest = collection.manifest) :
    collection'.variablesFor = collection.variablesFor := by
  funext environment
  unfold Collection.variablesFor
  rw [h]

/-- A collection that is loaded has the manifest on disk. -/
theorem load_eq_ok {collection : Collection} (h : disk.load = .ok collection) :
    disk.root = .ok collection.root ∧ disk.manifest = .ok collection.manifest := by
  unfold Disk.load at h
  obtain ⟨root, hroot, h⟩ := bind_eq_ok h
  obtain ⟨manifest, hmanifest, h⟩ := bind_eq_ok h
  obtain rfl := Except.ok.inj h
  exact ⟨hroot, hmanifest⟩

/-- The promise, in terms of the collection before the run: the manifest is as it was. -/
theorem neverRetargets_before (hsteps : PromoteSteps tools args disk disk' saved plan) :
    NeverRetargets urls captured world base args disk' saved ↔
      args.env.elim
        (∀ vars, RunVariables plan.collection disk'.environments vars →
          OnTarget urls captured world base vars saved.spec.url)
        fun name => ∀ environment, disk'.environments.environment name = .ok environment →
          OnTarget urls captured world base (plan.collection.variablesFor (some environment))
            saved.spec.url := by
  obtain ⟨hroot, hmanifest⟩ := load_eq_ok hsteps.planned.loaded
  -- After the run the collection has its manifest and root, with the requests that are there now.
  have hafter : disk'.load = .ok
      { plan.collection with
        requests := disk'.requests.files.filterMap (RequestFile.entry? plan.collection.root)
        problems := disk'.requests.files.filterMap
          (RequestFile.problem? plan.collection.root) } := by
    unfold Disk.load
    rw [hsteps.root, hsteps.manifest, hroot, hmanifest]
    rfl
  constructor
  · intro h
    have hall := h _ hafter
    exact hall
  -- Whatever collection is loaded then has this manifest.
  · intro h collection' hload
    have hmanifest' := (load_eq_ok hload).2
    rw [hsteps.manifest, hmanifest] at hmanifest'
    unfold RunVariables at h ⊢
    rw [variablesFor_congr (Except.ok.inj hmanifest').symm]
    exact h

/-- With an environment: it says after the run what it said, or what was recorded. -/
theorem retargets_named {name : Text} {u : AbsoluteUrl} (hlib : OriginAhead urls)
    (hsteps : PromoteSteps tools args disk disk' saved plan)
    (hurl : saved.spec.url = variableUrl u)
    (hvars : plan.promotion.vars = [(baseUrlVar, (originAndPath u).1)])
    (henv : args.env = some name) :
    (∀ environment, disk'.environments.environment name = .ok environment →
        OnTarget urls captured world base (plan.collection.variablesFor (some environment))
          saved.spec.url) ↔
      ∀ environment, environmentOrNew disk.environments name = .ok environment →
        LeadsBack urls captured world base
          (plan.collection.variablesFor (some (withOrigin environment u))) u := by
  have hrecorded := hsteps.environments
  rw [hurl]
  generalize disk'.environments = environments at hrecorded
  -- Something is recorded, since an environment is named and there is a variable.
  cases hrecorded with
  | nothing hnone =>
    rw [henv, hvars] at hnone
    exact absurd hnone (by simp)
  | @one name' key value environment henv' hvars' hread =>
    rw [henv] at henv'
    obtain rfl := Option.some.inj henv'
    rw [hvars, List.singleton_inj, Prod.mk.injEq] at hvars'
    obtain ⟨rfl, rfl⟩ := hvars'
    obtain ⟨label, hafter⟩ := environment_recorded u hread
    -- What the file says after the run is what it said before, with the origin added.
    constructor
    · intro h environment' hread'
      obtain rfl := Except.ok.inj (hread.symm.trans hread')
      have hon := h _ hafter
      rw [variablesFor_named] at hon
      exact (onTarget_variable_iff hlib).mp hon
    · intro h environment' hread'
      obtain rfl := Except.ok.inj (hafter.symm.trans hread')
      rw [variablesFor_named]
      exact (onTarget_variable_iff hlib).mpr (h environment hread)

/-- After a successful run the request leads to the captured server exactly when what the
collection said before leads back. `captured` stands for what the URL library reads the captured
URL as. -/
theorem neverRetargets_iff {fates : PromoteFates} {collection : Collection} {capture : Capture}
    {u : AbsoluteUrl} (hlib : OriginAhead urls) (hload : disk.load = .ok collection)
    (hget : CaptureStore.get tools.parse disk.captures args.id = some capture)
    (hurl : capture.request.url = u.text)
    (hrun : exec (promote tools fates args) disk = (.ok saved, disk')) :
    NeverRetargets urls captured world base args disk' saved ↔
      CollectionLeadsBack urls captured world base collection disk.environments args u := by
  obtain ⟨plan, hsteps⟩ := promote_ok hrun
  have hplanned := hsteps.planned
  obtain rfl : plan.collection = collection := Except.ok.inj (hplanned.loaded.symm.trans hload)
  obtain rfl : plan.capture = capture := Option.some.inj (hplanned.found.symm.trans hget)
  rw [neverRetargets_before hsteps]
  unfold CollectionLeadsBack
  cases henv : args.env with
  | some name =>
    rcases chosen_url hplanned hurl with ⟨hnone, -, -⟩ | ⟨-, hspec, hvars⟩
    · rw [henv] at hnone
      exact absurd hnone (by simp)
    · exact retargets_named hlib hsteps (hsteps.spec ▸ hspec) hvars henv
  | none =>
    -- Without an environment nothing is recorded.
    have hsame : disk'.environments = disk.environments := by
      have hrecorded := hsteps.environments
      generalize disk'.environments = environments at hrecorded
      cases hrecorded with
      | nothing hnone => rfl
      | one henv' hvars hread =>
        rw [henv] at henv'
        exact absurd henv' (by simp)
    rw [hsame]
    show (∀ vars, _ → _) ↔ ite _ _ _
    rcases chosen_url hplanned hurl with ⟨-, hconflict, hspec⟩ | ⟨hno, hspec, -⟩
    · rw [if_neg hconflict, hsteps.spec, hspec]
      exact forall_congr' fun vars => imp_congr_right fun _ => onTarget_url_iff hlib
    · rw [if_pos (hno.resolve_left (by simp [henv])), hsteps.spec, hspec]
      exact forall_congr' fun vars => imp_congr_right fun _ => onTarget_variable_iff hlib

end Command

/-! ### A staging server in the manifest -/

/-- Read the scheme and the authority of a URL. -/
def plainParse (t : Text) : Except Text (Text × Text) :=
  match splitOnce "://".toList t with
  | some (scheme, rest) => .ok (scheme, rest.takeWhile fun c => c ∉ "/?#".toList)
  | none => .error "relative URL without a base".toList

/-- A URL library that knows the scheme and the authority. -/
def plainUrls : UrlLib (Text × Text) where
  parse := plainParse
  join base _ := .ok base
  scheme := Prod.fst
  hostStr url := some url.2
  portOrKnownDefault url := if url.1 = "https".toList then some 443 else some 80
  path _ := "/".toList
  appendPairs url _ := url
  toText url := url.1 ++ "://".toList ++ url.2

/-- A path behind an authority is not part of it. -/
theorem plainUrls_originAhead : OriginAhead plainUrls := by
  intro server path hnames hpath
  unfold namesServer at hnames
  -- A server that is named has a scheme and an authority.
  cases hcut : splitOnce "://".toList server with
  | none =>
    rw [hcut] at hnames
    exact absurd hnames Bool.false_ne_true
  | some cut =>
    obtain ⟨scheme, rest⟩ := cut
    -- The scheme is the same, as the path comes behind it.
    have hlonger : splitOnce "://".toList (server ++ path) = some (scheme, rest ++ path) := by
      obtain ⟨hserver, hfirst⟩ := splitOnce_eq_some_iff.mp hcut
      rw [splitOnce_eq_some_iff]
      refine ⟨by rw [hserver, List.append_assoc], ?_⟩
      intro p s hps hs hpre
      refine hfirst p s hps hs ?_
      have hlong : "://".toList.length ≤ (s ++ "://".toList ++ rest).length := by
        simp only [List.length_append]
        omega
      rw [← List.append_assoc] at hpre
      exact List.prefix_of_prefix_length_le hpre (List.prefix_append _ path) hlong
    -- And so is the authority, which ends where the path begins.
    have hauthority : (rest ++ path).takeWhile (fun c => decide (c ∉ "/?#".toList))
        = rest.takeWhile fun c => decide (c ∉ "/?#".toList) := by
      rcases hpath with rfl | hslash
      · rw [List.append_nil]
      · obtain ⟨tail, rfl⟩ : ∃ tail, path = '/' :: tail := by
          cases path with
          | nil => exact absurd hslash (by simp)
          | cons c tail => exact ⟨tail, by rw [Option.some.inj hslash]⟩
        rw [List.takeWhile_append]
        split
        · rename_i hall
          rw [List.takeWhile_cons_of_neg (by decide), List.append_nil]
          exact ((List.takeWhile_prefix _).eq_of_length hall).symm
        · rfl
    unfold parsedOrigin
    show ((plainParse (server ++ path)).toOption.map _) = (plainParse server).toOption.map _
    unfold plainParse
    rw [hcut, hlonger]
    dsimp only
    rw [hauthority]

/-- The URL of the capture. -/
def capturedUrl : AbsoluteUrl := { anchorUrl with fragment := none }

/-- A world without an environment, where nothing is drawn. -/
def stillWorld : World := ⟨fun _ => none, fun _ => 0, fun _ => 0, fun _ => 0⟩

/-- Promote the capture for the environment `dev`. -/
def forDev : PromoteArgs := { id := "cap_1".toList, env := some "dev".toList }

/-- What promoting the capture plans. -/
def devPlan : PromotePlan :=
  let promotion := (choosePromotion (sampleTools [Capture.bearerCapture])
    (sampleDisk []).environments forDev Capture.bearerCapture).get (by decide +kernel)
  { collection := sampleCollection, capture := Capture.bearerCapture, promotion
    path := savePath forDev sampleCollection promotion }

/-- The origin is recorded in a new environment, and the request leads back. -/
theorem neverRetargets_iff_dev : ∃ saved disk',
    exec (promote (sampleTools [Capture.bearerCapture]) allDone forDev)
        (sampleDisk [Capture.bearerCapture]) = (.ok saved, disk') ∧
      NeverRetargets plainUrls ("https".toList, "api.test".toList) stillWorld Resolver.new forDev
        disk' saved := by
  have hplanned : Planned (sampleTools [Capture.bearerCapture])
      (sampleDisk [Capture.bearerCapture]) forDev devPlan :=
    planned_of_found rfl rfl (by decide +kernel) (Option.some_get _).symm (by decide +kernel)
  obtain ⟨id, hid⟩ : ∃ id, sanitizeRequestPath .unix devPlan.path = .ok id :=
    ⟨"get-v1".toList, by decide +kernel⟩
  have hread : environmentOrNew (sampleDisk [Capture.bearerCapture]).environments "dev".toList
      = .ok ⟨some "dev".toList, none, .empty, .empty⟩ := rfl
  obtain ⟨saved, disk', hrun, -⟩ := promote_done hplanned hid
    ⟨Or.inr rfl, fun name henv _ => ⟨_, Option.some.inj henv ▸ hread⟩⟩
  refine ⟨saved, disk', hrun, ?_⟩
  refine (neverRetargets_iff (u := capturedUrl) plainUrls_originAhead hplanned.loaded
    hplanned.found (by decide +kernel) hrun).mpr ?_
  intro environment hread'
  obtain rfl := Except.ok.inj (hread.symm.trans hread')
  exact leadsBack_origin plainUrls_originAhead (by decide +kernel) (by decide +kernel)
    (by decide +kernel)

/-- The collection with a staging server in its manifest. -/
def stagingDisk : Disk :=
  { sampleDisk [Capture.bearerCapture] with
    manifest := .ok
      { name := none, defaults := ⟨.empty, none, none⟩
        vars := SortedMap.ofList [(baseUrlVar, "https://staging.test".toList)] } }

/-- The collection that is loaded from it. -/
def stagingCollection : Collection :=
  { sampleCollection with
    manifest :=
      { name := none, defaults := ⟨.empty, none, none⟩
        vars := SortedMap.ofList [(baseUrlVar, "https://staging.test".toList)] } }

/-- Promote the capture without an environment. -/
def forNone : PromoteArgs := { id := "cap_1".toList }

/-- What promoting the capture plans. -/
def stagingPlan : PromotePlan :=
  let promotion := (choosePromotion (sampleTools [Capture.bearerCapture])
    stagingDisk.environments forNone Capture.bearerCapture).get (by decide +kernel)
  { collection := stagingCollection, capture := Capture.bearerCapture, promotion
    path := savePath forNone stagingCollection promotion }

/-- The request goes to the staging server, with the token of the captured one. -/
theorem not_neverRetargets_staging : ∃ saved disk',
    exec (promote (sampleTools [Capture.bearerCapture]) allDone forNone) stagingDisk
        = (.ok saved, disk') ∧
      ¬ NeverRetargets plainUrls ("https".toList, "api.test".toList) stillWorld Resolver.new
        forNone disk' saved := by
  have hplanned : Planned (sampleTools [Capture.bearerCapture]) stagingDisk forNone stagingPlan :=
    planned_of_found rfl rfl (by decide +kernel) (Option.some_get _).symm (by decide +kernel)
  obtain ⟨id, hid⟩ : ∃ id, sanitizeRequestPath .unix stagingPlan.path = .ok id :=
    ⟨"get-v1".toList, by decide +kernel⟩
  obtain ⟨saved, disk', hrun, -⟩ := promote_done hplanned hid
    ⟨Or.inr rfl, fun name henv => absurd henv (by simp [forNone])⟩
  refine ⟨saved, disk', hrun, ?_⟩
  intro hnever
  -- The plan of the run, and the manifest alone as variables.
  obtain ⟨plan, hsteps⟩ := promote_ok hrun
  obtain rfl := hsteps.planned.eq hplanned
  have hon := (neverRetargets_before hsteps).mp hnever
    (stagingPlan.collection.variablesFor none) (Or.inl rfl)
  have hurl : saved.spec.url = "\x7b\x7bbase_url\x7d\x7d/v1".toList := by
    rw [hsteps.spec]
    decide +kernel
  -- The manifest's `base_url` is the staging server.
  have hresolved : resolveWith stillWorld Resolver.new
      (stagingPlan.collection.variablesFor none) saved.spec.url
        = .ok "https://staging.test/v1".toList := by
    rw [hurl]
    decide +kernel
  rcases hon with ⟨name, herror⟩ | ⟨text, url, hok, hparse, hsame⟩
  · rw [hresolved] at herror
    exact absurd herror (by simp)
  · rw [hresolved] at hok
    obtain rfl := Except.ok.inj hok
    have hstaging : plainUrls.parse "https://staging.test/v1".toList
        = .ok ("https".toList, "staging.test".toList) := by decide +kernel
    obtain rfl := Except.ok.inj (hstaging.symm.trans hparse)
    exact absurd hsame (by decide +kernel)

end Gabriel.Cli
