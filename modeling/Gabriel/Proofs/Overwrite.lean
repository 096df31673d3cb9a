import Gabriel.Proofs.Collection
import Gabriel.Proofs.PromoteDone

/-!
# `Gabriel.Proofs.Overwrite`: does promotion overwrite a file?

Without `--force` the command asks `find` for the path it is about to write, and refuses when the
answer is a request with that id. The write goes to another spelling of the path, the one that
`sanitizeRequestPath` makes of it, and to a file that may not have been read: `find` knows only the
requests that were loaded.

The theorems:

* `replaces_isSome_iff` says when the check refuses, in terms of the ids of the requests that were
  loaded and of the path as it was typed (`Knows`).
* `neverOverwrites_iff` says which files the check protects: promotion never overwrites a file
  exactly when every file at the sanitized path is one that the check knows, in the runs that
  nothing else stops. A file that does not parse is none (`not_neverOverwrites_broken`).
-/

set_option autoImplicit false

namespace Gabriel.Cli

open Gabriel.Core Gabriel.Proxy Text Fallible

variable {tools : PromoteTools} {args : PromoteArgs} {disk : Disk}

/-! ### The promise -/

/-- Whatever becomes of the writes, a run fails, or it writes to a path at which no file existed. -/
def NeverOverwrites (tools : PromoteTools) (args : PromoteArgs) (disk : Disk) : Prop :=
  ∀ fates entry disk', exec (promote tools fates args) disk = (.ok entry, disk') →
    disk.requests.has entry.id = false

/-- What the command would save, without the check. -/
structure Target (tools : PromoteTools) (disk : Disk) (args : PromoteArgs) (plan : PromotePlan) :
    Prop where
  loaded : disk.load = .ok plan.collection
  found : CaptureStore.get tools.parse disk.captures args.id = some plan.capture
  chosen : choosePromotion tools disk.environments args plan.capture = some plan.promotion
  path : plan.path = savePath args plan.collection plan.promotion

/-- The path as it was typed, without slashes around it and without `.toml`. The check compares the
id of what it finds with this. -/
def typedId (path : Text) : Text := trimEndMatches tomlSuffix (trimMatches '/' path)

/-- The requests that were loaded have one that the typed path means: it has the id that was typed,
or no request has the id and it is the only one that a search for the path comes up with, by a part
of its id or by its name. -/
def Knows (lower : Text → Text) (collection : Collection) (path : Text) : Prop :=
  (typedId path = normalised path ∧ ∃ entry ∈ collection.requests, entry.id = typedId path) ∨
  (NotExact path collection ∧
    ∃ entry, candidates lower path collection.requests = [entry] ∧ entry.id = typedId path)

/-- The check refuses a path exactly when it knows it. -/
theorem replaces_isSome_iff {lower : Text → Text} {collection : Collection} {path : Text} :
    (replaces lower collection path).isSome = true ↔ Knows lower collection path := by
  -- The search answers with an entry, and the check compares its id with the typed path.
  have hreplaces : ∀ {entry}, collection.find lower path = .ok entry →
      ((replaces lower collection path).isSome = true ↔ entry.id = typedId path) := by
    intro entry hfind
    unfold replaces typedId
    rw [hfind]
    dsimp only
    split
    · exact iff_of_true rfl ‹_›
    · exact iff_of_false Bool.false_ne_true ‹_›
  by_cases hexact : ∃ entry ∈ collection.requests, entry.id = normalised path
  · -- The search returns a request with the id that it looks for.
    obtain ⟨entry, hmem, hid⟩ := hexact
    obtain ⟨found, hfound, hsame, hfind⟩ := @find_of_exact lower _ _ _ hmem hid
    rw [hreplaces hfind]
    constructor
    · intro htyped
      exact Or.inl ⟨htyped.symm.trans hsame, found, hfound, htyped⟩
    · rintro (⟨htyped, -⟩ | ⟨hnone, -⟩)
      · rw [hsame, htyped]
      · exact absurd hid (hnone entry hmem)
  -- Without an exact id the one candidate is what the search returns.
  · have hnone : NotExact path collection := fun entry hmem hid => hexact ⟨entry, hmem, hid⟩
    constructor
    · intro hsome
      cases hfind : collection.find lower path with
      | ok entry =>
        exact Or.inr ⟨hnone, entry, candidates_of_find hnone hfind, (hreplaces hfind).mp hsome⟩
      | error error =>
        unfold replaces at hsome
        rw [hfind] at hsome
        exact absurd hsome Bool.false_ne_true
    · rintro (⟨htyped, entry, hmem, hid⟩ | ⟨-, entry, hone, hid⟩)
      · exact absurd ⟨entry, hmem, hid.trans htyped⟩ hexact
      · exact (hreplaces (find_of_one hnone hone)).mpr hid

/-- The check knows every file at the path that is written. -/
def CheckFinds (tools : PromoteTools) (args : PromoteArgs) (disk : Disk) : Prop :=
  ∀ plan id, Target tools disk args plan → CanFinish args disk plan.promotion →
    sanitizeRequestPath tools.rules plan.path = .ok id → disk.requests.has id = true →
      Knows tools.lower plan.collection plan.path

/-- Without `--force`, promotion never overwrites a file exactly when the check finds every file
that is at the sanitized path, in the runs that nothing else stops. -/
theorem neverOverwrites_iff (hforce : args.force = false) :
    NeverOverwrites tools args disk ↔ CheckFinds tools args disk := by
  constructor
  · intro hnever plan id htarget hfinish hid hhas
    -- If the check did not know the id, the promotion would go through and overwrite the file.
    rw [← replaces_isSome_iff, Option.isSome_iff_ne_none]
    intro hnone
    have hplanned : Planned tools disk args plan :=
      ⟨htarget.loaded, htarget.found, htarget.chosen, htarget.path, fun _ => hnone⟩
    obtain ⟨entry, disk', hrun, rfl⟩ := promote_done hplanned hid hfinish
    exact absurd (hnever allDone entry disk' hrun) (by simp [hhas])
  -- A run that was done had a plan, and its check let the path through.
  · intro hfinds fates entry disk' hrun
    obtain ⟨plan, hsteps⟩ := promote_ok hrun
    have hplanned := hsteps.planned
    by_contra hhas
    have htarget : Target tools disk args plan :=
      ⟨hplanned.loaded, hplanned.found, hplanned.chosen, hplanned.path⟩
    -- The run shows that the vault and the environment could be written.
    have hfinish : CanFinish args disk plan.promotion := by
      refine ⟨hsteps.opened, ?_⟩
      intro name henv hvars
      have hrecorded := hsteps.environments
      generalize disk'.environments = environments at hrecorded
      cases hrecorded with
      | nothing hnone =>
        rcases hnone with hnone | hnil
        · rw [henv] at hnone
          exact absurd hnone (by simp)
        · exact absurd hnil hvars
      | one henv' hvar hread =>
        rw [henv] at henv'
        exact ⟨_, Option.some.inj henv' ▸ hread⟩
    have hfound := hfinds plan entry.id htarget hfinish hsteps.path (by simpa using hhas)
    rw [← replaces_isSome_iff, hplanned.free hforce] at hfound
    exact absurd hfound (by simp)

/-- Save a capture as `users`. -/
def toUsers : PromoteArgs := { id := "cap_1".toList, saveTo := some "users".toList }

/-- The collection with a file `users.toml`. -/
def usersDisk (content : Except Text RequestSpec) : Disk :=
  { sampleDisk [Capture.bearerCapture] with
    requests := ⟨[⟨"users".toList, content⟩], List.nodup_singleton _⟩ }

/-- A file with a request in it is not overwritten. -/
theorem neverOverwrites_iff_users :
    NeverOverwrites (sampleTools [Capture.bearerCapture]) toUsers
      (usersDisk (.ok (RequestSpec.new asciiUpper "GET".toList "https://api.test/".toList))) := by
  refine (neverOverwrites_iff rfl).mpr ?_
  intro plan id htarget hfinish hid hhas
  have hpath : plan.path = "users".toList := htarget.path
  rw [hpath, ← Except.ok.inj htarget.loaded]
  exact Or.inl ⟨by decide, _, List.mem_singleton_self _, by decide⟩

/-- The collection that is loaded when the file does not parse. -/
def brokenCollection : Collection :=
  { sampleCollection with
    problems := [⟨requestPath "gabriel".toList "users".toList, "users".toList,
      "expected `=`".toList⟩] }

/-- What promoting the capture plans. -/
def usersPromotion : Promotion :=
  (choosePromotion (sampleTools [Capture.bearerCapture]) (sampleDisk []).environments toUsers
    Capture.bearerCapture).get (by decide +kernel)

/-- A file that does not parse is overwritten. -/
theorem not_neverOverwrites_broken :
    ¬ NeverOverwrites (sampleTools [Capture.bearerCapture]) toUsers
      (usersDisk (.error "expected `=`".toList)) := by
  intro hnever
  have hplanned : Planned (sampleTools [Capture.bearerCapture])
      (usersDisk (.error "expected `=`".toList)) toUsers
      ⟨brokenCollection, Capture.bearerCapture, usersPromotion, "users".toList⟩ :=
    planned_of_found rfl rfl (by decide +kernel) (Option.some_get _).symm (by decide +kernel)
  have hfinish : CanFinish toUsers (usersDisk (.error "expected `=`".toList)) usersPromotion :=
    ⟨Or.inr rfl, fun name henv => absurd henv (by simp [toUsers])⟩
  obtain ⟨entry, disk', hrun, hid⟩ := promote_done hplanned
    (show sanitizeRequestPath .unix "users".toList = .ok "users".toList by decide +kernel) hfinish
  have hfree := hnever allDone entry disk' hrun
  rw [hid] at hfree
  exact absurd hfree (by decide)

end Gabriel.Cli
