import Gabriel.Cli.Ledger
import Gabriel.Proofs.Consent

/-!
# `Gabriel.Proofs.Ledger`: does a green run account for every request file?

A run of `--all` can skip a request, fail to send one, and not see a file that cannot be read. The
question is what a green run and its report say about the files of the collection.

`runReported` is `runRequests` with its results in a `Ledger`. The two go in lockstep, so that what
is known of the one holds of the other. `gate` is what the prompt says of a request, as a function
of the lines that are left to read. `Booked` is the invariant of the loop: the fates are those of
the targets in order, the counters count them, and the entries of the report belong to the targets
that were sent or could not be. A file that cannot be read is no target, so it is in none of these.
The theorems:

* `runReported_run`: the run with its results is the run.
* `reportTarget_booking`: a round that succeeds books its request.
* `booked_of_rounds`: so after some rounds every request of them is booked, by induction over them.
* `runReported_all`: a run of all requests that puts a report together or succeeds goes through its
  loop and comes to its end.
* `load_ids`: the requests of a collection are the files that can be read.
* `accountsForAll_iff`: the exit code speaks for all files, and the report has an entry for each,
  exactly when every file could be read, and the gate stopped none that the report needs.
-/

set_option autoImplicit false

namespace Gabriel.Cli

open Gabriel.Core Gabriel.Engine Text Fallible

/-! ### The run in the ledger -/

section Run

variable {Url : Type}

/-- A ledger of a run. -/
def OfRun (l : Ledger Url) (s : RunState Url) : Prop := l.run = s

/-- A call of the run goes in lockstep with the call. -/
theorem lockstep_inRun {α : Type} (call : RunM Url α) : Lockstep OfRun Eq (inRun call) call := by
  intro l s h
  obtain rfl : l.run = s := h
  unfold inRun
  rw [exec_zoom]
  rcases exec call l.run with ⟨result, t⟩
  cases result with
  | ok a => exact ⟨rfl, rfl⟩
  | error e => exact ⟨rfl, rfl⟩

/-- What the ledger does after a call, and the run does not. -/
theorem lockstep_then {α β γ : Type} {A : α → β → Prop} {B : γ → β → Prop} {m : LedgerM Url α}
    {n : RunM Url β} {f : α → LedgerM Url γ} (hm : Lockstep OfRun A m n)
    (hf : ∀ a b, A a b → Lockstep OfRun B (f a) (pure b)) : Lockstep OfRun B (m >>= f) n := by
  have hpure : n = n >>= pure := (bind_pure n).symm
  rw [hpure]
  exact lockstep_bind hm hf

/-- What the ledger does before a call, and the run does not. -/
theorem lockstep_after {α β γ : Type} {B : γ → β → Prop} {m : LedgerM Url α} {n : RunM Url β}
    {f : α → LedgerM Url γ}
    (hm : Lockstep OfRun (fun _ _ => True) m (pure () : RunM Url Unit))
    (hf : ∀ a, Lockstep OfRun B (f a) n) : Lockstep OfRun B (m >>= f) n := by
  have hpure : (pure () : RunM Url Unit) >>= (fun _ => n) = n := pure_bind _ _
  rw [← hpure]
  exact lockstep_bind hm fun a _ _ => hf a

/-- A change of the ledger that does not touch the run. -/
theorem lockstep_ledger {f : Ledger Url → Ledger Url} (hf : ∀ l, (f l).run = l.run) :
    Lockstep OfRun (fun _ _ => True) (modify f : LedgerM Url Unit) (pure ()) :=
  fun l _ h => ⟨trivial, (hf l).trans h⟩

variable (around : Surroundings Url) (judging : Judging) (args : RunArgs)

/-- A round of the loop with its entry in the report does to the run what the round does. -/
theorem reportTarget_run (collection : Collection) (ctx : RunContext) (target : Nat)
    (entry : RequestEntry) :
    Lockstep OfRun (fun _ _ => True) (reportTarget around judging collection ctx args target entry)
      (runTarget around collection ctx args target entry) := by
  unfold reportTarget runTarget
  -- Both begin with the gate, which is a call of the run.
  refine lockstep_bind (lockstep_inRun _) ?_
  rintro proceed _ rfl
  cases proceed with
  | skipped =>
    exact lockstep_then (lockstep_inRun _) fun _ _ _ => lockstep_ledger fun _ => rfl
  | send =>
    -- Behind the gate the ledger only adds entries, which the run does not see.
    by_cases hdry : args.dryRun = true
    · simp only [hdry, if_true]
      refine lockstep_bind (lockstep_inRun _) ?_
      rintro result _ rfl
      cases result with
      | error error => exact lockstep_throw _ _
      | ok prepared => exact lockstep_ledger fun _ => rfl
    · simp only [hdry]
      refine lockstep_bind (lockstep_inRun _) ?_
      rintro result _ rfl
      cases result with
      | ok outcome => exact lockstep_ledger fun _ => rfl
      | error error =>
        -- With `--all` a failure is counted by the run and entered in the ledger.
        by_cases hall : args.all = true
        · simp only [hall, if_true]
          refine lockstep_then (lockstep_inRun _) fun _ _ _ => ?_
          exact fun l _ h => ⟨trivial, h⟩
        · simp only [hall]
          exact lockstep_throw _ _

/-- So does the whole loop. -/
theorem reportTargets_run (collection : Collection) (ctx : RunContext) (target : Nat)
    (targets : List RequestEntry) :
    Lockstep OfRun (fun _ _ => True)
      (reportTargets around judging collection ctx args target targets)
      (runTargets around collection ctx args target targets) := by
  induction targets generalizing target with
  | nil => exact lockstep_pure trivial
  | cons entry targets ih =>
    exact lockstep_bind (reportTarget_run around judging args collection ctx target entry)
      fun _ _ _ => ih (target + 1)

/-- And so does the end of the run, with the report written. -/
theorem finishReported_run (collection : Collection) (targets : Nat) :
    Lockstep OfRun (fun _ _ => True)
      (finishReported around judging collection args targets) (finishRun around args targets) := by
  -- Putting the report together is the ledger's alone.
  have hput : Lockstep OfRun (fun _ _ => True)
      (putReport around judging collection args : LedgerM Url Unit) (pure ()) := by
    unfold putReport
    split
    · exact lockstep_ledger fun _ => rfl
    · exact lockstep_pure trivial
  unfold finishReported finishRun
  refine lockstep_bind (lockstep_inRun _) ?_
  rintro _ _ rfl
  refine lockstep_after hput fun _ => ?_
  refine lockstep_bind (lockstep_inRun _) ?_
  rintro _ _ rfl
  refine lockstep_bind (lockstep_inRun _) ?_
  rintro _ _ rfl
  refine lockstep_after (lockstep_ledger fun _ => rfl) fun _ => ?_
  -- The result is read from the fields of the run, and both have the same run.
  intro l s h
  obtain rfl : l.run = s := h
  rw [exec_bind_ok (exec_get l), exec_bind_ok (exec_get l.run)]
  dsimp only
  split
  · exact ⟨rfl, rfl⟩
  · exact ⟨trivial, rfl⟩

/-- **The run with its results is the run**: it fails with the same error or succeeds with it, and
leaves the run in the same state. -/
theorem runReported_run :
    Lockstep OfRun (fun _ _ => True) (runReported around judging args)
      (runRequests around args) := by
  unfold runReported runRequests
  cases openRun around args with
  | error error => exact lockstep_throw _ _
  | ok opened =>
    refine lockstep_bind (lockstep_inRun _) ?_
    rintro _ _ rfl
    cases args.stream with
    | true =>
      cases opened.targets with
      | nil => exact lockstep_pure trivial
      | cons entry rest =>
        refine lockstep_bind (lockstep_inRun _) ?_
        rintro _ _ rfl
        exact lockstep_then (lockstep_inRun _) fun _ _ _ => lockstep_pure trivial
    | false =>
      exact lockstep_bind (reportTargets_run around judging args opened.collection opened.ctx 0
        opened.targets) fun _ _ _ => finishReported_run around judging args opened.collection _

end Run

/-! ### The gate, on its inputs -/

section Gate

variable {Url : Type} (around : Surroundings Url) (args : RunArgs)

/-- What the gate says of a request for the lines that are left to read, and the lines after it.
There is none when it ends the run. -/
def gate (spec : RequestSpec) (stdin : List (Except Text Text)) :
    Option (Proceed × List (Except Text Text)) :=
  if !spec.effect.needsConfirmation || args.dryRun || args.yes then some (.send, stdin)
  else if around.terminal then
    match stdin with
    | .error _ :: _ => none
    | .ok line :: rest => some (if saysYes line then .send else .skipped, rest)
    | [] => some (.skipped, [])
  else if args.all then some (.skipped, stdin)
  else none

/-- Whether the gate stops one of some requests. -/
def stopsOne (collection : Collection) :
    List RequestEntry → List (Except Text Text) → Bool
  | [], _ => false
  | entry :: rest, stdin =>
    match gate around args (collection.applyDefaults entry.spec) stdin with
    | some (.send, stdin) => stopsOne collection rest stdin
    | some (.skipped, _) => true
    | none => false

/-- The gate reads what stands on the input, and neither skips nor fails anything. -/
theorem confirmEffect_ok {spec : RequestSpec} {target : Nat} {id : Text} {s t : RunState Url}
    {proceed : Proceed}
    (h : exec (confirmEffect around spec target id args) s = (.ok proceed, t)) :
    gate around args spec s.stdin = some (proceed, t.stdin)
      ∧ t.skipped = s.skipped ∧ t.errors = s.errors := by
  unfold confirmEffect at h
  unfold gate
  -- The gate of the source and `gate` ask the same questions in the same order.
  split at h
  · rename_i hpass
    rw [if_pos hpass]
    obtain ⟨hproceed, rfl⟩ := Prod.mk.inj h
    obtain rfl := Except.ok.inj hproceed
    exact ⟨rfl, rfl, rfl⟩
  · rename_i hpass
    rw [if_neg hpass]
    split at h
    · rename_i hterminal
      rw [if_pos hterminal]
      obtain ⟨line, hread, rfl⟩ := exec_bind_pure_eq_ok.mp h
      unfold readLine at hread
      rw [exec_bind_ok (exec_get s)] at hread
      -- No line, a line that cannot be read, or an answer.
      cases hstdin : s.stdin with
      | nil =>
        rw [hstdin] at hread
        obtain ⟨hline, rfl⟩ := Prod.mk.inj hread
        obtain rfl := Except.ok.inj hline
        refine ⟨?_, rfl, rfl⟩
        show _ = some (_, s.stdin)
        rw [hstdin]
        rfl
      | cons answer rest =>
        rw [hstdin] at hread
        cases answer with
        | error message =>
          have hfail : (Except.error (.io "reading the answer".toList message) :
              Except CliError Text) = .ok line := congrArg Prod.fst hread
          exact nomatch hfail
        | ok answer =>
          obtain ⟨hline, rfl⟩ := Prod.mk.inj hread
          obtain rfl := Except.ok.inj hline
          exact ⟨rfl, rfl, rfl⟩
    · rename_i hterminal
      rw [if_neg hterminal]
      split at h
      · rename_i hall
        rw [if_pos hall]
        obtain ⟨hproceed, rfl⟩ := Prod.mk.inj h
        obtain rfl := Except.ok.inj hproceed
        exact ⟨rfl, rfl, rfl⟩
      · exact absurd (congrArg Prod.fst h) (by simp)

end Gate

/-! ### One round -/

/-- The entry that goes with a fate. -/
def EntryOf (id : Text) : Fate → Option CaseResult → Prop
  | .sent passed, case => ∃ c, case = some c ∧ c.id = id ∧ (c.outcome = .passed ↔ passed = true)
  | .unsent, case => ∃ c, case = some c ∧ c.id = id ∧ c.outcome ≠ .passed
  | .skipped, case => case = none
  | .shown, case => case = none

section Round

variable {Url : Type} {around : Surroundings Url} {judging : Judging} {args : RunArgs}

variable (around args) in
/-- What a round of the loop does: the gate is asked, and what became of the target is written
down. -/
structure Booking (spec : RequestSpec) (id : Text) (l l' : Ledger Url) (fate : Fate)
    (case : Option CaseResult) : Prop where
  asked : gate around args spec l.run.stdin
    = some (if fate = .skipped then .skipped else .send, l'.run.stdin)
  dry : fate = .shown ↔ args.dryRun = true
  entry : EntryOf id fate case
  skipped : l'.run.skipped = l.run.skipped + if fate = .skipped then 1 else 0
  errors : l'.run.errors = l.run.errors + if fate = .unsent then 1 else 0
  recorded : l' = { l with
    run := l'.run
    allPassed := l.allPassed && fate != .sent false && fate != .unsent
    cases := if args.wantsReport then l.cases ++ case.toList else l.cases
    fates := l.fates ++ [(id, fate)] }

/-- A dry run is let through. -/
theorem gate_dry {spec : RequestSpec} {stdin : List (Except Text Text)} {proceed : Proceed}
    {rest : List (Except Text Text)} (hdry : args.dryRun = true)
    (h : gate around args spec stdin = some (proceed, rest)) : proceed = .send := by
  unfold gate at h
  rw [if_pos (by rw [hdry, Bool.or_true, Bool.true_or])] at h
  exact (Prod.mk.inj (Option.some.inj h)).1.symm

/-- An entry for a request that was sent passes when its assertions hold. -/
theorem entryOf_sent (entry : RequestEntry) (outcome : FinishedRun) :
    EntryOf entry.id (.sent outcome.assertionsPassed) (some (sentCase entry outcome)) := by
  refine ⟨_, rfl, rfl, ?_⟩
  show (if outcome.assertionsPassed then CaseOutcome.passed else .failed) = .passed ↔ _
  cases outcome.assertionsPassed <;> decide

/-- A round that succeeds books its request: the fate of the request, and its entry. -/
theorem reportTarget_booking (hall : args.all = true) {collection : Collection} {ctx : RunContext}
    {target : Nat} {entry : RequestEntry} {l l' : Ledger Url}
    (h : exec (reportTarget around judging collection ctx args target entry) l = (.ok (), l')) :
    ∃ fate case, Booking around args (collection.applyDefaults entry.spec) entry.id l l' fate
      case := by
  unfold reportTarget at h
  obtain ⟨proceed, m, hgate, hnext⟩ := exec_bind_eq_ok.mp h
  -- What the gate leaves of the ledger.
  rcases hconfirm : exec (confirmEffect around (collection.applyDefaults entry.spec) target
    entry.id args) l.run with ⟨result, t⟩
  have hm : result = .ok proceed ∧ m = { l with run := t } := by
    unfold inRun at hgate
    rw [exec_zoom, hconfirm] at hgate
    exact ⟨congrArg Prod.fst hgate, (congrArg Prod.snd hgate).symm⟩
  obtain ⟨rfl, rfl⟩ := hm
  obtain ⟨hasked, hskipped, herrors⟩ := confirmEffect_ok around args hconfirm
  cases proceed with
  | skipped =>
    have hwet : args.dryRun ≠ true := fun hdry => nomatch gate_dry hdry hasked
    obtain ⟨-, rfl⟩ := Prod.mk.inj hnext
    refine ⟨.skipped, none, ⟨hasked, ?_, rfl, ?_, ?_, rfl⟩⟩
    · exact iff_of_false nofun hwet
    · show t.skipped + 1 = _
      rw [hskipped]
      rfl
    · exact herrors
  | send =>
    by_cases hdry : args.dryRun = true
    · simp only [hdry, if_true] at hnext
      obtain ⟨prepared, n, hprepare, hrecord⟩ := exec_bind_eq_ok.mp hnext
      cases prepared with
      | error error => exact absurd (congrArg Prod.fst hrecord) (by simp)
      | ok prepared =>
        obtain ⟨-, rfl⟩ := Prod.mk.inj hprepare
        obtain ⟨-, rfl⟩ := Prod.mk.inj hrecord
        exact ⟨.shown, none, ⟨hasked, iff_of_true rfl hdry, rfl, hskipped, herrors, rfl⟩⟩
    · simp only [hdry] at hnext
      obtain ⟨result, n, hexecute, hrecord⟩ := exec_bind_eq_ok.mp hnext
      obtain ⟨-, rfl⟩ := Prod.mk.inj hexecute
      cases result with
      | ok outcome =>
        obtain ⟨-, rfl⟩ := Prod.mk.inj hrecord
        exact ⟨.sent (judge around judging target entry outcome).assertionsPassed,
          some (sentCase entry (judge around judging target entry outcome)),
          ⟨hasked, iff_of_false nofun hdry, entryOf_sent entry _, hskipped, herrors, rfl⟩⟩
      | error error =>
        simp only [hall, if_true] at hrecord
        obtain ⟨-, rfl⟩ := Prod.mk.inj hrecord
        refine ⟨.unsent, _, ⟨hasked, iff_of_false nofun hdry,
          ⟨_, rfl, rfl, fun hpassed => CaseOutcome.noConfusion hpassed⟩, hskipped, ?_, rfl⟩⟩
        show t.errors + 1 = _
        rw [herrors]
        rfl

end Round

/-! ### All rounds -/

section Rounds

variable {Url : Type} (around : Surroundings Url) (args : RunArgs) (collection : Collection)

/-- The rounds of the loop, one after another. -/
inductive Rounds : List RequestEntry → Ledger Url → Ledger Url → Prop where
  | nil (l : Ledger Url) : Rounds [] l l
  | cons {entry : RequestEntry} {rest : List RequestEntry} {l m l' : Ledger Url} {fate : Fate}
      {case : Option CaseResult}
      (booking : Booking around args (collection.applyDefaults entry.spec) entry.id l m fate case)
      (rounds : Rounds rest m l') : Rounds (entry :: rest) l l'

/-- The loop goes round after round. -/
theorem reportTargets_rounds {judging : Judging} (hall : args.all = true) {ctx : RunContext}
    {targets : List RequestEntry} {target : Nat} {l l' : Ledger Url}
    (h : exec (reportTargets around judging collection ctx args target targets) l = (.ok (), l')) :
    Rounds around args collection targets l l' := by
  induction targets generalizing target l with
  | nil =>
    obtain ⟨-, rfl⟩ := Prod.mk.inj h
    exact .nil l
  | cons entry rest ih =>
    obtain ⟨⟨⟩, m, hround, hrest⟩ := exec_bind_eq_ok.mp h
    obtain ⟨fate, case, booking⟩ := reportTarget_booking hall hround
    exact .cons booking (ih hrest)

/-- Whether a request of this fate has an entry in the report. -/
def Fate.entered : Fate → Bool
  | .sent _ => true
  | .unsent => true
  | .skipped => false
  | .shown => false

/-- What the rounds leave: the fates of the targets, and what is counted of them. -/
structure Booked (targets : List RequestEntry) (l l' : Ledger Url)
    (fates : List (Text × Fate)) (cases : List CaseResult) : Prop where
  booked : l'.fates = l.fates ++ fates
  ids : fates.map Prod.fst = targets.map (·.id)
  skipped : l'.run.skipped = l.run.skipped + fates.countP (·.2 = .skipped)
  errors : l'.run.errors = l.run.errors + fates.countP (·.2 = .unsent)
  allPassed : l'.allPassed
    = (l.allPassed && fates.all fun f => f.2 != .sent false && f.2 != .unsent)
  entered : l'.cases = if args.wantsReport then l.cases ++ cases else l.cases
  entries : cases.map (·.id) = (fates.filter (·.2.entered)).map Prod.fst
  passes : ∀ c ∈ cases, c.outcome = .passed → (c.id, Fate.sent true) ∈ fates
  dry : ∀ f ∈ fates, f.2 = .shown ↔ args.dryRun = true
  stops : (∃ f ∈ fates, f.2 = .skipped)
    ↔ stopsOne around args collection targets l.run.stdin = true
  notes : l'.notes = l.notes

/-- After some rounds every request of them is booked. -/
theorem booked_of_rounds {targets : List RequestEntry} {l l' : Ledger Url}
    (h : Rounds around args collection targets l l') :
    ∃ fates cases, Booked around args collection targets l l' fates cases := by
  -- One round after the other; each clause adds the entry of the round to those of the rest.
  induction h with
  | nil l =>
    refine ⟨[], [], ?_⟩
    constructor
    · exact (List.append_nil _).symm
    · rfl
    · rfl
    · rfl
    · exact (Bool.and_true _).symm
    · rw [List.append_nil, ite_self]
    · rfl
    · exact fun c hc => absurd hc List.not_mem_nil
    · exact fun f hf => absurd hf List.not_mem_nil
    -- No round was skipped, so that the gate has stopped none.
    · refine iff_of_false ?_ Bool.false_ne_true
      rintro ⟨f, hf, -⟩
      exact List.not_mem_nil hf
    · rfl
  | @cons entry rest l m l' fate case booking rounds ih =>
    obtain ⟨fates, cases, hbooked⟩ := ih
    have hrecorded := booking.recorded
    refine ⟨(entry.id, fate) :: fates, case.toList ++ cases, ?_⟩
    constructor
    · rw [hbooked.booked, hrecorded, List.append_assoc]
      rfl
    · rw [List.map_cons, List.map_cons, hbooked.ids]
    · rw [hbooked.skipped, booking.skipped, List.countP_cons]
      simp only [decide_eq_true_eq]
      omega
    · rw [hbooked.errors, booking.errors, List.countP_cons]
      simp only [decide_eq_true_eq]
      omega
    · rw [hbooked.allPassed, hrecorded, List.all_cons]
      simp only [Bool.and_assoc]
    · rw [hbooked.entered, hrecorded]
      by_cases hwants : args.wantsReport = true
      · simp only [hwants, if_true, List.append_assoc]
      · simp only [hwants]
        rfl
    -- Only a request that was sent or failed has an entry in the report, under its own id.
    · have hentry := booking.entry
      rw [List.map_append, hbooked.entries, List.filter_cons]
      cases fate with
      | sent passed =>
        obtain ⟨c, rfl, hid, -⟩ := hentry
        show c.id :: _ = entry.id :: _
        rw [hid]
        rfl
      | unsent =>
        obtain ⟨c, rfl, hid, -⟩ := hentry
        show c.id :: _ = entry.id :: _
        rw [hid]
        rfl
      | skipped =>
        obtain rfl : case = none := hentry
        rfl
      | shown =>
        obtain rfl : case = none := hentry
        rfl
    -- A case that passed is one of the first round, with its fate, or of the rest.
    · intro c hc hpassed
      rcases List.mem_append.mp hc with hcase | hrest
      · have hentry := booking.entry
        cases fate with
        | sent passed =>
          obtain ⟨c', rfl, hid, hpass⟩ := hentry
          obtain rfl := List.mem_singleton.mp hcase
          rw [hid, hpass.mp hpassed]
          exact List.mem_cons_self
        | unsent =>
          obtain ⟨c', rfl, -, hno⟩ := hentry
          obtain rfl := List.mem_singleton.mp hcase
          exact absurd hpassed hno
        | skipped =>
          obtain rfl : case = none := hentry
          exact absurd hcase List.not_mem_nil
        | shown =>
          obtain rfl : case = none := hentry
          exact absurd hcase List.not_mem_nil
      · exact List.mem_cons_of_mem _ (hbooked.passes c hrest hpassed)
    · intro f hf
      rcases List.mem_cons.mp hf with rfl | hf
      · exact booking.dry
      · exact hbooked.dry f hf
    -- The gate stops a request of the list when it stops the first one or one of the rest.
    · unfold stopsOne
      rw [booking.asked]
      by_cases hskipped : fate = .skipped
      · rw [if_pos hskipped]
        exact iff_of_true ⟨(entry.id, fate), List.mem_cons_self, hskipped⟩ rfl
      · rw [if_neg hskipped]
        show _ ↔ stopsOne around args collection rest m.run.stdin = true
        rw [← hbooked.stops]
        simp only [List.exists_mem_cons_iff, hskipped, false_or]
    · rw [hbooked.notes, hrecorded]

end Rounds

/-! ### The end -/

section Finish

variable {Url : Type} {around : Surroundings Url} {judging : Judging} {args : RunArgs}

/-- Saving the sessions leaves the run as it is. -/
theorem saveSessions_state (around : Surroundings Url) (s : RunState Url) :
    (exec (saveSessions around) s).2 = s := by
  unfold saveSessions
  rw [exec_bind_ok (exec_get s)]
  split
  · rfl
  · rfl

/-- So does writing a report. -/
theorem writeReport_state (around : Surroundings Url) (path : Option Text) (s : RunState Url) :
    (exec (writeReport around path) s).2 = s := by
  unfold writeReport
  split
  · rfl
  · rfl

/-- A call that leaves the run as it is leaves the ledger. -/
theorem inRun_state {call : RunM Url Unit} (hcall : ∀ s, (exec call s).2 = s) (l : Ledger Url) :
    (exec (inRun call) l).2 = l := by
  unfold inRun
  rw [exec_zoom]
  show { l with run := (exec call l.run).2 } = l
  rw [hcall]

/-- The ledger with its report put together. -/
def withReport (around : Surroundings Url) (judging : Judging) (args : RunArgs)
    (collection : Collection) (l : Ledger Url) : Ledger Url :=
  (exec (putReport around judging collection args) l).2

/-- Putting the report together leaves everything else as it is. -/
theorem withReport_fields (collection : Collection) (l : Ledger Url) :
    (withReport around judging args collection l).run = l.run
      ∧ (withReport around judging args collection l).allPassed = l.allPassed
      ∧ (withReport around judging args collection l).notes = l.notes
      ∧ (withReport around judging args collection l).fates = l.fates := by
  unfold withReport putReport
  split
  · exact ⟨rfl, rfl, rfl, rfl⟩
  · exact ⟨rfl, rfl, rfl, rfl⟩

/-- The report that is put together has the entries of the run. -/
theorem withReport_report {collection : Collection} {l : Ledger Url} {report : RunReport}
    (hnone : l.report = none)
    (h : (withReport around judging args collection l).report = some report) :
    args.wantsReport = true ∧ report.cases = l.cases := by
  unfold withReport putReport at h
  split at h
  · rename_i hwants
    obtain rfl := Option.some.inj h
    exact ⟨hwants, rfl⟩
  · have hsome : l.report = some report := h
    rw [hnone] at hsome
    exact nomatch hsome

variable (around judging args) in
/-- What the end of a run leaves: the ledger as it is, or with its report, or with its notes too.
It succeeds when nothing was left unsent and all assertions hold. -/
inductive Finished (collection : Collection) (targets : Nat) (l : Ledger Url) :
    Except CliError Outcome → Ledger Url → Prop where
  | unsaved (error : CliError) : Finished collection targets l (.error error) l
  | unwritten (error : CliError) :
      Finished collection targets l (.error error) (withReport around judging args collection l)
  | noted (result : Except CliError Outcome) (m : Ledger Url)
      (reported : m = withReport around judging args collection l)
      (success : result = .ok .success → m.run.errors = 0 ∧ m.allPassed = true) :
      Finished collection targets l result
        { m with notes := m.notes ++ skippedNote m.run.skipped targets }

/-- The end of a run is one of these. -/
theorem finishReported_finished (collection : Collection) (targets : Nat) (l : Ledger Url) :
    Finished around judging args collection targets l
      (exec (finishReported around judging collection args targets) l).1
      (exec (finishReported around judging collection args targets) l).2 := by
  unfold finishReported
  -- Each of the three calls leaves the ledger as it was: only its error can end the run here.
  have hsaved := inRun_state (saveSessions_state around) l
  rcases hsave : exec (inRun (saveSessions around)) l with ⟨saved, m⟩
  rw [hsave] at hsaved
  obtain rfl : m = l := hsaved
  cases saved with
  | error error =>
    rw [exec_bind_error hsave]
    exact .unsaved error
  | ok _ =>
    rw [exec_bind_ok hsave]
    have hput : exec (putReport around judging collection args) m
        = (.ok (), withReport around judging args collection m) := by
      unfold withReport putReport
      split
      · rfl
      · rfl
    rw [exec_bind_ok hput]
    have hjunit := inRun_state (writeReport_state around args.junit)
      (withReport around judging args collection m)
    rcases hwrite : exec (inRun (writeReport around args.junit))
      (withReport around judging args collection m) with ⟨written, n⟩
    rw [hwrite] at hjunit
    obtain rfl : n = withReport around judging args collection m := hjunit
    -- The JUnit file is not written, or it is and the HTML file comes next.
    cases written with
    | error error =>
      rw [exec_bind_error hwrite]
      exact .unwritten error
    | ok _ =>
      rw [exec_bind_ok hwrite]
      have hhtml := inRun_state (writeReport_state around args.html)
        (withReport around judging args collection m)
      rcases hwrite' : exec (inRun (writeReport around args.html))
        (withReport around judging args collection m) with ⟨written, n⟩
      rw [hwrite'] at hhtml
      obtain rfl : n = withReport around judging args collection m := hhtml
      cases written with
      | error error =>
        rw [exec_bind_error hwrite']
        exact .unwritten error
      | ok _ =>
        rw [exec_bind_ok hwrite', exec_bind_ok (exec_modify _ _), exec_bind_ok (exec_get _)]
        generalize hreported : withReport around judging args collection m = n
        dsimp only
        -- With an error the result is an error; without one, success says that all has passed.
        by_cases herrors : 0 < n.run.errors
        · rw [if_pos herrors]
          exact .noted _ n hreported.symm fun hsuccess => nomatch hsuccess
        · rw [if_neg herrors]
          refine .noted _ n hreported.symm fun hsuccess => ⟨by omega, ?_⟩
          by_cases hall : n.allPassed = true
          · exact hall
          · rw [if_neg hall] at hsuccess
            exact nomatch Except.ok.inj hsuccess

/-- The report of a run is the same. -/
def SameReport (l l' : Ledger Url) : Prop := l'.report = l.report

/-- No round puts a report together. -/
theorem reportTargets_sameReport (collection : Collection) (ctx : RunContext) (target : Nat)
    (targets : List RequestEntry) :
    Keeps SameReport (reportTargets around judging collection ctx args target targets) := by
  have hrefl : ∀ l : Ledger Url, SameReport l l := fun _ => rfl
  have htrans : ∀ l m n : Ledger Url, SameReport l m → SameReport m n → SameReport l n :=
    fun _ _ _ hlm hmn => hmn.trans hlm
  have hinRun : ∀ {α : Type} (call : RunM Url α), Keeps SameReport (inRun call) := by
    intro α call l
    -- A call of the run leaves the report of the ledger.
    unfold inRun
    rw [exec_zoom]
    rfl
  have hrecord : ∀ id fate case, Keeps SameReport (record args id fate case : LedgerM Url Unit) :=
    fun _ _ _ _ => rfl
  induction targets generalizing target with
  | nil => exact keeps_pure hrefl ()
  | cons entry rest ih =>
    -- The entries of a round change the fates and the cases, never the report.
    refine keeps_bind htrans ?_ fun _ => ih (target + 1)
    unfold reportTarget
    refine keeps_bind htrans (hinRun _) fun proceed => ?_
    cases proceed with
    | skipped => exact keeps_bind htrans (hinRun _) fun _ => hrecord _ _ _
    | send =>
      by_cases hdry : args.dryRun = true
      · simp only [hdry, if_true]
        refine keeps_bind htrans (hinRun _) fun prepared => ?_
        cases prepared with
        | error error => exact keeps_throw hrefl _
        | ok prepared => exact hrecord _ _ _
      · simp only [hdry]
        refine keeps_bind htrans (hinRun _) fun result => ?_
        cases result with
        | ok outcome => exact hrecord _ _ _
        | error error =>
          by_cases hall : args.all = true
          · simp only [hall, if_true]
            refine keeps_bind htrans (hinRun _) fun _ => ?_
            exact keeps_bind htrans (keeps_get hrefl) fun _ => hrecord _ _ _
          · simp only [hall]
            exact keeps_throw hrefl _

end Finish

/-! ### The command -/

section Command

variable {Url : Type} {around : Surroundings Url} {judging : Judging} {args : RunArgs}
  {collection : Collection} {stdin : List (Except Text Text)} {result : Except CliError Outcome}
  {l : Ledger Url}

/-- `--all` runs every request of the collection. -/
theorem openRun_all (hall : args.all = true) (haround : around.collection = .ok collection)
    {opened : Opened Url} (h : openRun around args = .ok opened) :
    opened.collection = collection ∧ opened.targets = collection.requests := by
  unfold openRun at h
  rw [haround] at h
  obtain ⟨collection', hcollection, h⟩ := bind_eq_ok h
  obtain rfl : collection = collection' := Except.ok.inj hcollection
  obtain ⟨environment, -, h⟩ := bind_eq_ok h
  obtain ⟨targets, htargets, h⟩ := bind_eq_ok h
  obtain ⟨assignments, -, h⟩ := bind_eq_ok h
  obtain ⟨sessions, -, h⟩ := bind_eq_ok h
  have hrequests : targets = collection.requests := by
    unfold chooseTargets at htargets
    rw [if_pos hall] at htargets
    exact (Except.ok.inj htargets).symm
  split at h
  · exact nomatch h
  · obtain rfl := Except.ok.inj h
    exact ⟨rfl, hrequests⟩

/-- A run of all requests that puts a report together or succeeds goes through its loop and comes
to its end. -/
theorem runReported_all (hall : args.all = true) (haround : around.collection = .ok collection)
    (h : exec (runReported around judging args) (.start stdin) = (result, l))
    (hdone : result = .ok .success ∨ l.report.isSome) :
    ∃ s m : Ledger Url, ∃ fates cases,
      s.run.stdin = stdin ∧ s.run.errors = 0 ∧ s.run.skipped = 0 ∧ s.allPassed = true
        ∧ s.fates = [] ∧ s.cases = [] ∧ s.notes = [] ∧ m.report = none
        ∧ Booked around args collection collection.requests s m fates cases
        ∧ Finished around judging args collection collection.requests.length m result l := by
  unfold runReported at h
  -- An end before the loop has no report and no success, and so has an error in the loop.
  cases hopen : openRun around args with
  | error error =>
    rw [hopen] at h
    obtain ⟨rfl, rfl⟩ := Prod.mk.inj h
    rcases hdone with hsuccess | hsome
    · exact nomatch hsuccess
    · exact absurd hsome Bool.false_ne_true
  | ok opened =>
    rw [hopen] at h
    obtain ⟨hcollection, htargets⟩ := openRun_all hall haround hopen
    -- `--stream` is for a single request, and `--all` was given.
    have hstream : args.stream = false := by
      cases hstream : args.stream with
      | false => rfl
      | true => exact absurd (args.single hstream) (by rw [hall]; exact Bool.noConfusion)
    dsimp only at h
    rw [hcollection, htargets, hstream] at h
    have hbegin : exec (inRun (modify fun s : RunState Url => { s with engine := opened.engine }))
        (Ledger.start stdin : Ledger Url)
        = (.ok (), { (Ledger.start stdin : Ledger Url) with
            run := { RunState.start stdin with engine := opened.engine } }) := rfl
    rw [exec_bind_ok hbegin] at h
    -- The loop starts from the run as it was opened, with a ledger that has no entries.
    have hreport := (show Keeps SameReport (reportTargets around judging collection opened.ctx args
      0 collection.requests) from reportTargets_sameReport collection opened.ctx 0 _)
      { (Ledger.start stdin : Ledger Url) with
        run := { RunState.start stdin with engine := opened.engine } }
    rcases hloop : exec (reportTargets around judging collection opened.ctx args 0
      collection.requests) { (Ledger.start stdin : Ledger Url) with
        run := { RunState.start stdin with engine := opened.engine } } with ⟨looped, m⟩
    rw [hloop] at hreport
    have hnone : m.report = none := hreport
    cases looped with
    | error error =>
      rw [exec_bind_error hloop] at h
      obtain ⟨rfl, rfl⟩ := Prod.mk.inj h
      rcases hdone with hsuccess | hsome
      · exact nomatch hsuccess
      · rw [hnone] at hsome
        exact absurd hsome Bool.false_ne_true
    | ok _ =>
      rw [exec_bind_ok hloop] at h
      obtain ⟨fates, cases, hbooked⟩ :=
        booked_of_rounds around args collection (reportTargets_rounds around args collection hall
          hloop)
      have hfinished : Finished around judging args collection collection.requests.length m _ _ :=
        finishReported_finished collection collection.requests.length m
      rw [h] at hfinished
      exact ⟨_, m, fates, cases, rfl, rfl, rfl, rfl, rfl, rfl, rfl, hnone, hbooked, hfinished⟩

end Command

/-! ### Accounting for the files -/

section Files

variable {Url : Type}

/-- Every request file holds a request. -/
def AllReadable (disk : Disk) : Prop := ∀ file ∈ disk.requests.files, file.content.toOption.isSome

/-- A run accounts for all files: each was sent with its assertions holding, or was skipped, and
the note at the end has the number of those that were. -/
structure AccountsForAll (disk : Disk) (l : Ledger Url) : Prop where
  accounted : ∀ file ∈ disk.requests.files,
    (file.id, Fate.sent true) ∈ l.fates ∨ (file.id, Fate.skipped) ∈ l.fates
  counted : l.notes = skippedNote (l.fates.countP (·.2 = .skipped)) l.fates.length

/-- A report has one entry for each file, and only what was sent with its assertions holding
passes. -/
structure ReportsAll (disk : Disk) (l : Ledger Url) (report : RunReport) : Prop where
  entries : (report.cases.map (·.id)).Perm (disk.requests.files.map (·.id))
  passes : ∀ c ∈ report.cases, c.outcome = .passed → (c.id, Fate.sent true) ∈ l.fates

variable {disk : Disk} {collection : Collection}

/-- The requests of a collection are the files that can be read. -/
theorem load_requests (h : disk.load = .ok collection) :
    collection.requests = disk.requests.files.filterMap (RequestFile.entry? collection.root) := by
  unfold Disk.load at h
  obtain ⟨root, -, h⟩ := bind_eq_ok h
  obtain ⟨manifest, -, h⟩ := bind_eq_ok h
  obtain rfl := Except.ok.inj h
  rfl

/-- The requests of a collection have the ids of the files that hold one. -/
theorem load_ids (h : disk.load = .ok collection) :
    collection.requests.map (·.id)
      = (disk.requests.files.filter (·.content.toOption.isSome)).map (·.id) := by
  rw [load_requests h]
  generalize disk.requests.files = files
  induction files with
  | nil => rfl
  | cons file files ih =>
    rw [List.filterMap_cons, List.filter_cons]
    unfold RequestFile.entry? at ih ⊢
    cases hcontent : file.content with
    | error message => exact ih
    | ok spec => exact congrArg (file.id :: ·) ih

/-- Their ids are those of all files, when every file can be read. -/
theorem load_ids_eq (h : disk.load = .ok collection) (hreadable : AllReadable disk) :
    collection.requests.map (·.id) = disk.requests.files.map (·.id) := by
  rw [load_ids h, List.filter_eq_self.mpr hreadable]

/-- When every file is among the requests, every file holds one: an id has one file. -/
theorem allReadable_of_ids (h : disk.load = .ok collection)
    (hids : ∀ file ∈ disk.requests.files, file.id ∈ collection.requests.map (·.id)) :
    AllReadable disk := by
  intro file hfile
  have hid := hids file hfile
  rw [load_ids h] at hid
  obtain ⟨file', hfile', hsame⟩ := List.mem_map.mp hid
  obtain ⟨hmem, hsome⟩ := List.mem_filter.mp hfile'
  obtain rfl : file' = file := List.inj_on_of_nodup_map disk.requests.nodup hmem hfile hsame
  exact hsome

variable {around : Surroundings Url} {args : RunArgs} {s l : Ledger Url}
  {fates : List (Text × Fate)} {cases : List CaseResult}

/-- Without requests there are no fates. -/
theorem fates_nil_of_files (h : disk.load = .ok collection)
    (hbooked : Booked around args collection collection.requests s l fates cases)
    (hfiles : disk.requests.files = []) : fates = [] := by
  have hids := hbooked.ids
  rw [load_ids h, hfiles] at hids
  exact List.map_eq_nil_iff.mp hids

/-- A dry run of all files that leaves no fate has no files. -/
theorem files_nil_of_fates (h : disk.load = .ok collection) (hreadable : AllReadable disk)
    (hbooked : Booked around args collection collection.requests s l fates cases)
    (hfates : fates = []) : disk.requests.files = [] := by
  have hids := hbooked.ids
  rw [load_ids_eq h hreadable, hfates] at hids
  exact List.map_eq_nil_iff.mp hids.symm

/-- When all went well, a run accounts for all files when it could read them all, and sent what
it could read. -/
theorem accounted_iff (h : disk.load = .ok collection)
    (hbooked : Booked around args collection collection.requests s l fates cases)
    (hpassed : fates.all (fun f => f.2 != .sent false && f.2 != .unsent) = true) :
    (∀ file ∈ disk.requests.files,
        (file.id, Fate.sent true) ∈ fates ∨ (file.id, Fate.skipped) ∈ fates)
      ↔ AllReadable disk ∧ (args.dryRun = true → disk.requests.files = []) := by
  constructor
  -- Every file has a fate, so that every file was read and given a request of the collection.
  · intro haccounted
    have hreadable : AllReadable disk := by
      refine allReadable_of_ids h fun file hfile => ?_
      rw [← hbooked.ids]
      rcases haccounted file hfile with hsent | hskipped
      · exact List.mem_map_of_mem hsent
      · exact List.mem_map_of_mem hskipped
    -- A dry run shows its requests, which is none of the two fates of the claim.
    refine ⟨hreadable, fun hdry => ?_⟩
    refine List.eq_nil_iff_forall_not_mem.mpr fun file hfile => ?_
    rcases haccounted file hfile with hsent | hskipped
    · exact nomatch (hbooked.dry _ hsent).mpr hdry
    · exact nomatch (hbooked.dry _ hskipped).mpr hdry
  · rintro ⟨hreadable, hdry⟩ file hfile
    have hid : file.id ∈ fates.map Prod.fst := by
      rw [hbooked.ids, load_ids_eq h hreadable]
      exact List.mem_map_of_mem hfile
    obtain ⟨⟨id, fate⟩, hfate, rfl⟩ := List.mem_map.mp hid
    have hgood := List.all_eq_true.mp hpassed _ hfate
    -- Of the four fates two did not pass, and the third belongs to a dry run.
    cases fate with
    | sent passed =>
      cases passed with
      | true => exact .inl hfate
      | false => exact absurd hgood Bool.false_ne_true
    | unsent => exact absurd hgood Bool.false_ne_true
    | skipped => exact .inr hfate
    | shown =>
      have hnil := hdry ((hbooked.dry _ hfate).mp rfl)
      rw [hnil] at hfile
      exact absurd hfile List.not_mem_nil

/-- The entries of a run are one for each file when it could read them all, and the gate stopped
none of them. -/
theorem entered_iff (h : disk.load = .ok collection)
    (hbooked : Booked around args collection collection.requests s l fates cases) :
    (cases.map (·.id)).Perm (disk.requests.files.map (·.id))
      ↔ AllReadable disk ∧ (args.dryRun = true → disk.requests.files = [])
        ∧ stopsOne around args collection collection.requests s.run.stdin = false := by
  rw [hbooked.entries]
  constructor
  · intro hperm
    have hreadable : AllReadable disk := by
      refine allReadable_of_ids h fun file hfile => ?_
      have hid := hperm.mem_iff.mpr (List.mem_map_of_mem hfile)
      obtain ⟨f, hf, hsame⟩ := List.mem_map.mp hid
      rw [← hbooked.ids, ← hsame]
      exact List.mem_map_of_mem (List.mem_of_mem_filter hf)
    -- There are as many entries as fates, so every fate has one.
    have hlength := hperm.length_eq
    rw [← load_ids_eq h hreadable, ← hbooked.ids, List.length_map, List.length_map] at hlength
    have hentered : ∀ f ∈ fates, f.2.entered = true := List.length_filter_eq_length_iff.mp hlength
    refine ⟨hreadable, fun hdry => ?_, ?_⟩
    · refine files_nil_of_fates h hreadable hbooked ?_
      refine List.eq_nil_iff_forall_not_mem.mpr fun f hf => ?_
      have hshown := hentered f hf
      rw [(hbooked.dry f hf).mpr hdry] at hshown
      exact absurd hshown Bool.false_ne_true
    · refine Bool.eq_false_iff.mpr fun hstops => ?_
      obtain ⟨f, hf, hskipped⟩ := hbooked.stops.mpr hstops
      have hno := hentered f hf
      rw [hskipped] at hno
      exact absurd hno Bool.false_ne_true
  · rintro ⟨hreadable, hdry, hstops⟩
    have hentered : ∀ f ∈ fates, f.2.entered = true := by
      intro f hf
      cases hfate : f.2 with
      | sent passed => rfl
      | unsent => rfl
      | skipped =>
        rw [hbooked.stops.mp ⟨f, hf, hfate⟩] at hstops
        exact absurd hstops.symm Bool.false_ne_true
      | shown =>
        have hnil := fates_nil_of_files h hbooked (hdry ((hbooked.dry f hf).mp hfate))
        rw [hnil] at hf
        exact absurd hf List.not_mem_nil
    rw [List.filter_eq_self.mpr hentered, hbooked.ids, load_ids_eq h hreadable]

end Files

section Account

variable {Url : Type} {around : Surroundings Url} {judging : Judging} {args : RunArgs}
  {disk : Disk} {collection : Collection} {stdin : List (Except Text Text)}
  {result : Except CliError Outcome} {l : Ledger Url}

/-- **When a run of all requests accounts for every file**: one that succeeds does when every file
could be read, and it was no dry run of any. Its report has one entry for each file when the gate
stopped none besides. -/
theorem accountsForAll_iff (hall : args.all = true) (hload : disk.load = .ok collection)
    (haround : around.collection = .ok collection)
    (h : exec (runReported around judging args) (.start stdin) = (result, l)) :
    (result = .ok .success →
        (AccountsForAll disk l
          ↔ AllReadable disk ∧ (args.dryRun = true → disk.requests.files = [])))
      ∧ ∀ report, l.report = some report →
        (ReportsAll disk l report
          ↔ AllReadable disk ∧ (args.dryRun = true → disk.requests.files = [])
            ∧ stopsOne around args collection collection.requests stdin = false) := by
  constructor
  -- Success comes from the last arm of the end of the run alone.
  · intro hsuccess
    obtain ⟨s, m, fates, cases, -, -, hskipped, hpassed, hfates, -, hnotes, -, hbooked,
      hfinished⟩ := runReported_all hall haround h (.inl hsuccess)
    cases hfinished with
    | unsaved error => exact nomatch hsuccess
    | unwritten error => exact nomatch hsuccess
    | noted result n hreported hgood =>
      obtain ⟨hrun, hpassed', hnotes', hfates'⟩ :=
        @withReport_fields Url around judging args collection m
      rw [← hreported] at hrun hpassed' hnotes' hfates'
      have hallPassed := (hgood hsuccess).2
      rw [hpassed', hbooked.allPassed, hpassed, Bool.true_and] at hallPassed
      rw [hbooked.booked, hfates, List.nil_append] at hfates'
      rw [← accounted_iff hload hbooked hallPassed, ← hfates']
      constructor
      · exact fun haccounts => haccounts.accounted
      · intro haccounted
        -- The note about what was skipped counts the fates, of which there is one for each request.
        refine ⟨haccounted, ?_⟩
        show n.notes ++ skippedNote n.run.skipped collection.requests.length
          = skippedNote (n.fates.countP (·.2 = .skipped)) n.fates.length
        rw [hnotes', hbooked.notes, hnotes, hrun, hbooked.skipped, hskipped, Nat.zero_add,
          List.nil_append, hfates']
        have hlength := congrArg List.length hbooked.ids
        rw [List.length_map, List.length_map] at hlength
        rw [hlength]
  · intro report hreport
    obtain ⟨s, m, fates, cases, hstdin, -, -, -, hfates, hcases, -, hnone, hbooked, hfinished⟩ :=
      runReported_all hall haround h (.inr (by rw [hreport]; rfl))
    -- The report that the run kept is the one that was put together at its end.
    have hput : (withReport around judging args collection m).report = some report
        ∧ l.fates = m.fates := by
      cases hfinished with
      | unsaved error =>
        rw [hnone] at hreport
        exact nomatch hreport
      | unwritten error => exact ⟨hreport, (withReport_fields collection m).2.2.2⟩
      | noted result n hreported =>
        obtain rfl := hreported
        exact ⟨hreport, (withReport_fields collection m).2.2.2⟩
    obtain ⟨hwants, hentries⟩ := withReport_report hnone hput.1
    rw [hbooked.entered, if_pos hwants, hcases, List.nil_append] at hentries
    -- Its entries are those of the fates, and the gate decides which fates have one.
    rw [← hstdin, ← entered_iff hload hbooked, ← hentries]
    constructor
    · exact fun hreports => hreports.entries
    · intro hperm
      refine ⟨hperm, fun c hc hpassed => ?_⟩
      rw [hput.2, hbooked.booked, hfates, List.nil_append]
      rw [hentries] at hc
      exact hbooked.passes c hc hpassed

end Account

/-- A file that reads a list of orders. -/
def ordersFile : Except Text RequestSpec :=
  .ok (RequestSpec.new id "GET".toList "https://app.test/orders".toList)

/-- The two files of the sample have different ids. -/
theorem nodup_twoFiles (orders users : Except Text RequestSpec) :
    ([⟨"orders/list".toList, orders⟩, ⟨"users".toList, users⟩].map RequestFile.id).Nodup := by
  show ["orders/list".toList, "users".toList].Nodup
  decide

/-- A disk with two request files. -/
def twoFilesDisk (users : Except Text RequestSpec) : Disk :=
  { root := .ok "gabriel".toList, manifest := .ok (plainCollection []).manifest
    requests := { files := [⟨"orders/list".toList, ordersFile⟩, ⟨"users".toList, users⟩]
                  nodup := nodup_twoFiles _ _ }
    environments := { names := [], file := fun _ => none }, captures := none, vault := none }

/-- The network that answers, and the collection of a disk. -/
def onDisk (disk : Disk) : Surroundings (Text × Text) :=
  { plainSurroundings (plainCollection []) with collection := disk.load }

/-- Requests without assertions. -/
def noAssertions : Judging :=
  { json := { render := fun _ => [], pretty := fun _ => [], valuesEqual := fun _ _ => false,
              less := fun _ _ => false }
    assertions := fun _ => [], totalMs := fun _ => 0, osError := id, startedMs := 0 }

/-- `run --all --junit report.xml`. -/
def runAllJunit : RunArgs :=
  { all := true, junit := some "report.xml".toList
    named := fun h => Bool.noConfusion h, single := fun h => Bool.noConfusion h }

/-- A file that reads a list of users. -/
def usersFile : Except Text RequestSpec :=
  .ok (RequestSpec.new id "GET".toList "https://app.test/users".toList)

/-- A file that breaks off. -/
def brokenFile : Except Text RequestSpec := .error "expected a value".toList

/-- With two files that can be read, the run accounts for both and so does the report. -/
theorem accountsForAll_iff_users :
    ∃ result l, exec (runReported (onDisk (twoFilesDisk usersFile)) noAssertions runAllJunit)
        (.start []) = (result, l) ∧
      AccountsForAll (twoFilesDisk usersFile) l ∧
      ∃ report, l.report = some report ∧ ReportsAll (twoFilesDisk usersFile) l report := by
  have hload : ∃ collection, (twoFilesDisk usersFile).load = .ok collection := ⟨_, rfl⟩
  obtain ⟨collection, hload⟩ := hload
  -- Both files parse, and nothing is asked for, since they only read.
  have hreadable : AllReadable (twoFilesDisk usersFile) := by
    intro file hfile
    rcases List.mem_cons.mp hfile with rfl | hfile
    · rfl
    · obtain rfl := List.mem_singleton.mp hfile
      rfl
  have hwet : runAllJunit.dryRun = true → (twoFilesDisk usersFile).requests.files = [] := nofun
  have hrun : okWith (fun outcome l => decide (outcome = .success) && l.report.isSome)
      (exec (runReported (onDisk (twoFilesDisk usersFile)) noAssertions runAllJunit)
        (.start [])) = true := by decide +kernel
  obtain ⟨outcome, l, hdone, htest⟩ := exists_of_okWith hrun
  obtain ⟨hsuccess, hsome⟩ := (Bool.and_eq_true _ _).mp htest
  obtain ⟨report, hreport⟩ := Option.isSome_iff_exists.mp hsome
  have hgate : stopsOne (onDisk (twoFilesDisk usersFile)) runAllJunit collection
      collection.requests [] = false := by
    obtain rfl := Except.ok.inj hload
    decide +kernel
  obtain ⟨haccounts, hreports⟩ := accountsForAll_iff rfl hload hload hdone
  refine ⟨_, l, hdone, ?_, report, hreport, ?_⟩
  · exact (haccounts (congrArg Except.ok (of_decide_eq_true hsuccess))).mpr ⟨hreadable, hwet⟩
  · exact (hreports report hreport).mpr ⟨hreadable, hwet, hgate⟩

/-- With a file that cannot be read, the run succeeds, and neither it nor the report accounts for
that file. -/
theorem not_accountsForAll_broken :
    ∃ l, exec (runReported (onDisk (twoFilesDisk brokenFile)) noAssertions runAllJunit)
        (.start []) = (.ok .success, l) ∧
      ¬ AccountsForAll (twoFilesDisk brokenFile) l ∧
      ∃ report, l.report = some report ∧ ¬ ReportsAll (twoFilesDisk brokenFile) l report := by
  have hrun : okWith (fun outcome l => decide (outcome = .success)
        && l.fates.all (·.1 ≠ "users".toList) && l.report.any (·.cases.length = 1))
      (exec (runReported (onDisk (twoFilesDisk brokenFile)) noAssertions runAllJunit)
        (.start [])) = true := by decide +kernel
  obtain ⟨outcome, l, hdone, htest⟩ := exists_of_okWith hrun
  obtain ⟨htest, hone⟩ := (Bool.and_eq_true _ _).mp htest
  obtain ⟨hsuccess, hfates⟩ := (Bool.and_eq_true _ _).mp htest
  obtain rfl : outcome = .success := of_decide_eq_true hsuccess
  obtain ⟨report, hreport, hcases⟩ := (Option.any_eq_true _ _).mp hone
  refine ⟨l, hdone, ?_, report, hreport, ?_⟩
  · intro haccounts
    have haccounted := haccounts.accounted _ (List.mem_cons_of_mem _ List.mem_cons_self)
    rcases haccounted with hsent | hskipped
    · exact absurd rfl (of_decide_eq_true (List.all_eq_true.mp hfates _ hsent))
    · exact absurd rfl (of_decide_eq_true (List.all_eq_true.mp hfates _ hskipped))
  · intro hreports
    have hlength := hreports.entries.length_eq
    rw [List.length_map, of_decide_eq_true hcases] at hlength
    exact absurd hlength (by decide)

end Gabriel.Cli
