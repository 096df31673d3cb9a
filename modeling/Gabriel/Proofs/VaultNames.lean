import Gabriel.Cli.Login
import Gabriel.Proofs.PromoteDone

/-!
# `Gabriel.Proofs.VaultNames`: does each credential keep its own vault name?

`promote` and `auth` store what they get under names that they derive: from the host of the
captured URL, and from the id of the request that signs in. A run here is a list of such commands
on one collection. `EachResolves` is the promise that after the run every name that was written or
printed leads to the credential it was made for, unless a later command got a newer one of the same
kind for the same origin or the same request.

A name is a slug, so two origins can share one, and so can two ids. Nothing looks whether a name is
taken, so the promise is kept in the runs whose names are `Apart`. A step stores what it got, or
fails and leaves the secrets as they were (`StepSpec`). The theorems:

* `derived_suggestSecretName`, `resolve_secretRef`: derived names can be referred to.
* `promote_step`, `login_step`, `Command.run_spec`: what one command does to the vault.
* `StepSpec.frame`, `StepSpec.stores`: the names that a step does not store, and those it does.
* `eachResolves_runCommands`: a run whose names are apart, up to its end.
* `eachResolves_of_apart`: the same after each of its commands.
-/

set_option autoImplicit false

namespace Gabriel.Cli

open Gabriel.Core Gabriel.Proxy Text Fallible

/-! ### Names that can be referred to -/

/-- The characters of derived names. -/
def nameChar (c : Char) : Bool := c.isAlphanum || c == '_' || c == '-'

/-- A derived name: it holds letters, digits, underscores and dashes only. -/
def Derived (name : Text) : Prop := ∀ c ∈ name, nameChar c = true

/-- What holds of the ASCII characters. -/
theorem forall_ascii {p : Char → Prop} (h : ∀ n, n < 128 → p (Char.ofNat n)) {c : Char}
    (hc : c.toNat < 128) : p c := by
  rw [← Char.ofNat_toNat c]
  exact h _ hc

/-- A letter or a digit is ASCII. -/
theorem ascii_of_isAlphanum {c : Char} (h : c.isAlphanum = true) : c.toNat < 128 := by
  simp only [Char.isAlphanum, Char.isAlpha, Char.isUpper, Char.isLower, Char.isDigit,
    Bool.or_eq_true, Bool.and_eq_true, decide_eq_true_eq, UInt32.le_iff_toNat_le, ge_iff_le] at h
  have hnat : c.toNat = c.val.toNat := rfl
  have hZ : 'Z'.val.toNat = 90 := rfl
  have hz : 'z'.val.toNat = 122 := rfl
  have h9 : '9'.val.toNat = 57 := rfl
  omega

/-- A letter or a digit in lower case is one. -/
theorem isAlphanum_toLower {c : Char} (h : c.isAlphanum = true) : c.toLower.isAlphanum = true :=
  forall_ascii (p := fun c => c.isAlphanum = true → c.toLower.isAlphanum = true)
    (by decide +kernel) (ascii_of_isAlphanum h) h

/-- A character of a name is no white space and no brace. -/
theorem nameChar_plain {c : Char} (h : nameChar c = true) :
    isWhitespace c = false ∧ c ≠ '}' ∧ c ≠ '{' := by
  have hascii : c.toNat < 128 := by
    simp only [nameChar, Bool.or_eq_true, beq_iff_eq] at h
    rcases h with (h | rfl) | rfl
    · exact ascii_of_isAlphanum h
    · decide
    · decide
  exact forall_ascii (p := fun c => nameChar c = true →
    isWhitespace c = false ∧ c ≠ '}' ∧ c ≠ '{') (by decide +kernel) hascii h

/-- What is derived in two parts is derived. -/
theorem Derived.append {s t : Text} (hs : Derived s) (ht : Derived t) : Derived (s ++ t) := by
  intro c hc
  rcases List.mem_append.mp hc with hc | hc
  · exact hs c hc
  · exact ht c hc

/-- Dropping characters on both sides leaves characters. -/
theorem Derived.trimMatches {t : Text} (h : Derived t) (c : Char) :
    Derived (Gabriel.Core.trimMatches c t) := fun d hd =>
  h d ((List.dropWhile_suffix _).subset ((List.rdropWhile_prefix _ _).subset hd))

/-- A slug is a name. -/
theorem derived_slugify (input : Text) : Derived (slugify input) := by
  -- By induction on the input: what was written so far is a name.
  have hloop : ∀ (input : Text) (out : Text × Bool), Derived out.1 →
      Derived (input.foldl
        (fun (out : Text × Bool) ch =>
          if ch.isAlphanum then (out.1 ++ [ch.toLower], false)
          else if out.2 then out
          else (out.1 ++ ['-'], true)) out).1 := by
    intro input
    induction input with
    | nil => exact fun out h => h
    | cons ch input ih =>
      intro out h
      rw [List.foldl_cons]
      refine ih _ ?_
      -- A letter or digit is kept in lower case; anything else becomes one dash.
      split
      · rename_i hch
        refine h.append ?_
        intro c hc
        rw [List.mem_singleton.mp hc, nameChar, isAlphanum_toLower hch]
        rfl
      · split
        · exact h
        · refine h.append ?_
          intro c hc
          rw [List.mem_singleton.mp hc]
          decide
  have hout := (hloop input ([], true) (fun c hc => absurd hc List.not_mem_nil)).trimMatches '-'
  unfold slugify
  dsimp only
  split
  · exact forall_mem_of_all (by decide)
  · exact hout

/-- A suggested name is a name. -/
theorem derived_suggestSecretName (url : Text) : Derived (suggestSecretName url) := by
  unfold suggestSecretName
  dsimp only
  refine Derived.append (Derived.trimMatches ?_ '_') (forall_mem_of_all (by decide))
  intro c hc
  obtain ⟨d, -, rfl⟩ := List.mem_map.mp hc
  split
  · rename_i hd
    rw [nameChar, isAlphanum_toLower hd]
    rfl
  · decide

/-- The reference to a derived name is its secret. -/
theorem resolve_secretRef (world : World) {name value : Text} (hname : Derived name)
    (resolver : Resolver) (h : resolver.secrets name = some value) :
    (exec (Resolver.resolve world (secretRef name)) resolver).1 = .ok value := by
  -- The reference holds no white space and no brace of its own.
  have hplain : ∀ c ∈ "secret:".toList ++ name, isWhitespace c = false ∧ c ≠ '}' := by
    intro c hc
    rcases List.mem_append.mp hc with hc | hc
    · exact forall_mem_of_all (p := fun c => isWhitespace c = false ∧ c ≠ '}')
        (by decide) c hc
    · exact ⟨(nameChar_plain (hname c hc)).1, (nameChar_plain (hname c hc)).2.1⟩
  have hclosing : ¬ Resolver.closing <:+: "secret:".toList ++ name := fun hin =>
    (hplain '}' (hin.subset (by decide))).2 rfl
  have hlast : ("secret:".toList ++ name).getLast? ≠ some '}' := fun hlast =>
    (hplain '}' (List.mem_of_getLast? hlast)).2 rfl
  -- So it is one reference, with nothing around it.
  have hparse : Template.parse Resolver.opening Resolver.closing (secretRef name)
      = ⟨[([], "secret:".toList ++ name)], [], true⟩ := by
    rw [show secretRef name = Resolver.opening ++ ("secret:".toList ++ name)
        ++ Resolver.closing ++ []
      from (List.append_nil _).symm]
    exact Resolver.parse_reference hclosing hlast (by decide)
  have htrim : trim ("secret:".toList ++ name) = "secret:".toList ++ name :=
    trim_of_forall fun c hc => (hplain c hc).1
  have hkey : trim name = name :=
    trim_of_forall fun c hc => (hplain c (List.mem_append_right _ hc)).1
  have hstrip : Resolver.stripPrefix "secret:".toList ("secret:".toList ++ name) = some name := by
    rw [Resolver.stripPrefix, if_pos (List.prefix_append _ _), List.drop_left]
  -- The lookup cuts the prefix off and asks for the name.
  rw [Resolver.exec_resolve_reference hparse, htrim, Resolver.exec_lookup_secret hstrip, hkey, h]
  simp

/-! ### What a command stores -/

/-- Whose credential it is, and of which kind. Origins are compared in lower case. -/
inductive Owner where
  | captured (origin : Text)
  | accessToken (id : Text)
  | refreshToken (id : Text)
  deriving DecidableEq

/-- A credential in the vault. -/
structure Stored where
  owner : Owner
  name : Text
  value : Text
  deriving DecidableEq

/-- The origin of a URL, in lower case and without user information. -/
def originOf (url : Text) : Text :=
  let (scheme, rest) := (splitOnce "://".toList url).getD ([], url)
  let authority := rest.takeWhile fun c => c ∉ "/?#".toList
  asciiLower (scheme ++ "://".toList ++ authority.rtakeWhile (· ≠ '@'))

/-- The credentials of a promotion. Each of them has a reference in the request. -/
def PromotePlan.stored (plan : PromotePlan) : List Stored :=
  plan.promotion.secrets.map fun e =>
    ⟨.captured (originOf plan.capture.request.url), e.1, e.2⟩

/-- The tokens of a login. -/
def tokensStored (id : Text) (tokens : Tokens) : List Stored :=
  ⟨.accessToken id, accessKey id, tokens.accessToken⟩
    :: (tokens.refreshToken.map fun refresh => ⟨.refreshToken id, refreshKey id, refresh⟩).toList

/-- A command that stores credentials. -/
inductive Command where
  | promote (tools : PromoteTools) (fates : PromoteFates) (args : PromoteArgs)
  | login (tools : LoginTools) (fates : VaultFates) (args : LoginArgs)

namespace Command

/-- What a command stores, when it gets that far. -/
def stored (disk : Disk) : Command → List Stored
  | .promote tools _ args => (planPromotion tools disk args).toOption.elim [] PromotePlan.stored
  | .login tools _ args =>
    (signInFor tools disk args).toOption.elim [] fun found => tokensStored found.1.id found.2

/-- Run a command: whether it succeeds, and the disk after it. -/
def run (disk : Disk) : Command → Bool × Disk
  | .promote tools fates args =>
    ((exec (Gabriel.Cli.promote tools fates args) disk).1.toOption.isSome,
      (exec (Gabriel.Cli.promote tools fates args) disk).2)
  | .login tools fates args =>
    ((exec (Gabriel.Cli.login tools fates args) disk).1.toOption.isSome,
      (exec (Gabriel.Cli.login tools fates args) disk).2)

/-- What becomes of the writes of the vault. -/
def vaultFates : Command → VaultFates
  | .promote _ fates _ => fates.vault
  | .login _ fates _ => fates

end Command

/-- One command of a run: whether it succeeded, and what it had to store. -/
structure Step where
  succeeded : Bool
  stored : List Stored
  deriving DecidableEq

/-- A run of commands, one after the other: its steps, and the disk after it. -/
def runCommands : List Command → Disk → List Step × Disk
  | [], disk => ([], disk)
  | command :: commands, disk =>
    let (succeeded, disk') := command.run disk
    let (steps, after) := runCommands commands disk'
    (⟨succeeded, command.stored disk⟩ :: steps, after)

/-! ### The promise -/

/-- A reference to a stored credential resolves to it, in every run that reads this vault. -/
def Resolves (world : World) (disk : Disk) (s : Stored) : Prop :=
  ∀ resolver : Resolver, resolver.secrets = disk.secret →
    (exec (Resolver.resolve world (secretRef s.name)) resolver).1 = .ok s.value

/-- Every credential that a successful command stored resolves, unless a later command got a newer
one for the same owner. -/
def EachResolves (world : World) (steps : List Step) (disk : Disk) : Prop :=
  ∀ before step after, steps = before ++ step :: after → step.succeeded = true →
    ∀ s ∈ step.stored, (∀ later ∈ after, ∀ s' ∈ later.stored, s'.owner ≠ s.owner) →
      Resolves world disk s

/-- The names of a run are apart: one name has one owner, and no command has two values for one
owner. -/
structure Apart (steps : List Step) : Prop where
  names : ∀ step ∈ steps, ∀ step' ∈ steps, ∀ s ∈ step.stored, ∀ s' ∈ step'.stored,
    s.name = s'.name → s.owner = s'.owner
  values : ∀ step ∈ steps, ∀ s ∈ step.stored, ∀ s' ∈ step.stored,
    s.owner = s'.owner → s.value = s'.value

/-- No write of the vault stops midway. -/
def VaultFates.Whole (fates : VaultFates) : Prop :=
  (∀ message left, fates.newVault ≠ .torn message left) ∧
    ∀ message left, fates.save ≠ .torn message left

/-! ### The vault after one command -/

section Vault

variable {disk disk' : Disk}

/-- An opened vault has the secrets of the disk. -/
theorem get?_of_openable {opened : SortedMap Text Text} (h : openable disk.vault = some opened)
    (name : Text) : opened.get? name = disk.secret name := by
  unfold Disk.secret
  cases hvault : disk.vault with
  | none =>
    rw [hvault, openable, Option.some.injEq] at h
    rw [← h]
    rfl
  | some file =>
    cases file with
    | error message => rw [hvault] at h; exact absurd h (by simp [openable])
    | ok found =>
      rw [hvault, openable, Option.some.injEq] at h
      rw [← h]

/-- A vault with more secrets. -/
theorem secret_insertAll {opened : SortedMap Text Text} (h : openable disk.vault = some opened)
    (entries : List (Text × Text)) (hvault : disk'.vault = some (.ok (opened.insertAll entries)))
    (name : Text) :
    disk'.secret name = ((SortedMap.ofList entries).get? name).or (disk.secret name) := by
  rw [← get?_of_openable h, ← SortedMap.get?_insertAll]
  unfold Disk.secret
  rw [hvault]

/-- What is left of a vault whose writes do not stop midway has its secrets. -/
theorem secret_of_vaultLeft {fates : VaultFates} (hwhole : fates.Whole) {vault : Option VaultFile}
    (h : VaultLeft fates disk.vault vault) (hvault : disk'.vault = vault) :
    disk'.secret = disk.secret := by
  funext name
  unfold Disk.secret
  rw [hvault]
  cases h with
  | same => rfl
  | created hnone =>
    rw [hnone]
    rfl
  | torn htorn =>
    rcases htorn with htorn | htorn
    · exact absurd htorn (hwhole.1 _ _)
    · exact absurd htorn (hwhole.2 _ _)

/-- The vault after a promotion. -/
theorem secret_storedVault (entries : List (Text × Text))
    (h : entries = [] ∨ (openable disk.vault).isSome = true)
    (hvault : disk'.vault = storedVault disk.vault entries) (name : Text) :
    disk'.secret name = ((SortedMap.ofList entries).get? name).or (disk.secret name) := by
  unfold storedVault at hvault
  by_cases hnil : entries = []
  · rw [if_pos hnil] at hvault
    rw [hnil]
    show disk'.secret name = disk.secret name
    unfold Disk.secret
    rw [hvault]
  · rw [if_neg hnil] at hvault
    obtain ⟨opened, hopened⟩ := Option.isSome_iff_exists.mp (h.resolve_left hnil)
    rw [hopened] at hvault
    exact secret_insertAll hopened entries hvault name

end Vault

/-! ### One step -/

section Step

/-- The names and the values of credentials. -/
def entriesOf (stored : List Stored) : List (Text × Text) := stored.map fun s => (s.name, s.value)

/-- The entries of a promotion are its secrets. -/
theorem entriesOf_plan (plan : PromotePlan) : entriesOf plan.stored = plan.promotion.secrets := by
  unfold entriesOf PromotePlan.stored
  rw [List.map_map]
  exact List.map_id'' (fun e => rfl) _

/-- The entries of a sign-in are those of its tokens. -/
theorem entriesOf_tokens (id : Text) (tokens : Tokens) :
    entriesOf (tokensStored id tokens) = tokenEntries id tokens := by
  unfold tokensStored tokenEntries entriesOf
  cases tokens.refreshToken <;> rfl

/-- A step stores its credentials, or it fails and leaves the secrets as they were. -/
structure StepSpec (disk disk' : Disk) (succeeded : Bool) (stored : List Stored) : Prop where
  cases : (∀ name, disk'.secret name
      = ((SortedMap.ofList (entriesOf stored)).get? name).or (disk.secret name)) ∨
    succeeded = false ∧ disk'.secret = disk.secret

variable {disk disk' : Disk}

/-- A promotion. -/
theorem promote_step {tools : PromoteTools} {fates : PromoteFates} {args : PromoteArgs}
    (hwhole : fates.vault.Whole) {result : Except CliError RequestEntry}
    (hrun : exec (promote tools fates args) disk = (result, disk')) :
    StepSpec disk disk' result.toOption.isSome
      ((planPromotion tools disk args).toOption.elim [] PromotePlan.stored) := by
  -- Before the vault is saved nothing is stored; when its save fails, the rest of it is as it was.
  constructor
  cases result with
  | error error =>
    cases leftBehind_of_error hrun with
    | planning hno => exact Or.inr ⟨rfl, rfl⟩
    | path hplanned hpath => exact Or.inr ⟨rfl, rfl⟩
    | request hplanned hid hrefused => exact Or.inr ⟨rfl, rfl⟩
    | requestTorn hplanned hid htorn => exact Or.inr ⟨rfl, rfl⟩
    | vault hplanned hid hdone hsecrets hleft =>
      exact Or.inr ⟨rfl, secret_of_vaultLeft hwhole hleft rfl⟩
    -- The environment comes after the vault, whose secrets are stored by then.
    | environment hplanned hid hdone hopened henv hvars hleft =>
      refine Or.inl ?_
      rw [planPromotion_eq_ok.mpr hplanned]
      show ∀ name, _ = ((SortedMap.ofList (entriesOf (PromotePlan.stored _))).get? name).or _
      rw [entriesOf_plan]
      exact secret_storedVault _ hopened rfl
  | ok entry =>
    obtain ⟨plan, hsteps⟩ := promote_ok hrun
    refine Or.inl ?_
    rw [planPromotion_eq_ok.mpr hsteps.planned]
    show ∀ name, _ = ((SortedMap.ofList (entriesOf plan.stored)).get? name).or _
    rw [entriesOf_plan]
    exact secret_storedVault _ hsteps.opened hsteps.vault

/-- A login. -/
theorem login_step {tools : LoginTools} {fates : VaultFates} {args : LoginArgs}
    (hwhole : fates.Whole) {result : Except CliError (List Text)}
    (hrun : exec (login tools fates args) disk = (result, disk')) :
    StepSpec disk disk' result.toOption.isSome
      ((signInFor tools disk args).toOption.elim [] fun found =>
        tokensStored found.1.id found.2) := by
  constructor
  unfold login at hrun
  rw [exec_bind, exec_get] at hrun
  -- Without a sign-in nothing is stored.
  cases hsigned : signInFor tools disk args with
  | error error =>
    simp only [hsigned, exec_throw, Prod.mk.injEq] at hrun
    obtain ⟨rfl, rfl⟩ := hrun
    exact Or.inr ⟨rfl, rfl⟩
  | ok found =>
    obtain ⟨entry, tokens⟩ := found
    simp only [hsigned] at hrun
    cases result with
    | error error =>
      -- The save failed, or it was done and the names are returned.
      rcases exec_bind_eq_error.mp hrun with hadd | ⟨a, s, -, hpure⟩
      · obtain ⟨vault, hleft, rfl⟩ := addSecrets_error hadd
        exact Or.inr ⟨rfl, secret_of_vaultLeft hwhole hleft rfl⟩
      · simp at hpure
    | ok names =>
      obtain ⟨⟨⟩, hadd, -⟩ := exec_bind_pure_eq_ok.mp hrun
      obtain ⟨opened, hopened, rfl⟩ := addSecrets_ok hadd
      refine Or.inl ?_
      show ∀ name, _ = ((SortedMap.ofList
          (entriesOf (tokensStored entry.id tokens))).get? name).or _
      rw [entriesOf_tokens]
      exact secret_insertAll hopened _ rfl

/-- Every command whose vault writes do not stop midway. -/
theorem Command.run_spec (command : Command) (disk : Disk) (hwhole : command.vaultFates.Whole) :
    StepSpec disk (command.run disk).2 (command.run disk).1 (command.stored disk) := by
  cases command with
  | promote tools fates args => exact promote_step hwhole rfl
  | login tools fates args => exact login_step hwhole rfl

/-- A name that a step does not store keeps its secret. -/
theorem StepSpec.frame {succeeded : Bool} {stored : List Stored} {name : Text}
    (h : StepSpec disk disk' succeeded stored) (hname : ∀ s ∈ stored, s.name ≠ name) :
    disk'.secret name = disk.secret name := by
  rcases h.cases with hstored | ⟨-, hsame⟩
  · have hnone : (SortedMap.ofList (entriesOf stored)).get? name = none := by
      rw [SortedMap.get?_ofList_eq_none_iff]
      intro hmem
      obtain ⟨e, he, rfl⟩ := List.mem_map.mp hmem
      obtain ⟨s, hs, rfl⟩ := List.mem_map.mp he
      exact hname s hs rfl
    rw [hstored, hnone, Option.none_or]
  · rw [hsame]

/-- A name that a successful step stores gets the value it is stored with, when there is one
value. -/
theorem StepSpec.stores {stored : List Stored} {s : Stored} (h : StepSpec disk disk' true stored)
    (hs : s ∈ stored) (hone : ∀ s' ∈ stored, s'.name = s.name → s'.value = s.value) :
    disk'.secret s.name = some s.value := by
  rcases h.cases with hstored | ⟨hfailed, -⟩
  · have hsome : (SortedMap.ofList (entriesOf stored)).get? s.name ≠ none := by
      rw [ne_eq, SortedMap.get?_ofList_eq_none_iff, not_not]
      exact List.mem_map.mpr ⟨_, List.mem_map.mpr ⟨s, hs, rfl⟩, rfl⟩
    obtain ⟨value, hvalue⟩ := Option.ne_none_iff_exists'.mp hsome
    obtain ⟨s', hs', heq⟩ := List.mem_map.mp (SortedMap.mem_of_get?_ofList hvalue)
    obtain ⟨hname, rfl⟩ := Prod.mk.inj heq
    rw [hstored, hvalue, hone s' hs' hname]
    rfl
  · exact absurd hfailed (by simp)

end Step

/-! ### A whole run -/

section Run

variable {disk : Disk}

/-- A name that no command of a run stores keeps its secret. -/
theorem runCommands_frame {name : Text} (commands : List Command)
    (hwhole : ∀ command ∈ commands, command.vaultFates.Whole)
    (hname : ∀ step ∈ (runCommands commands disk).1, ∀ s ∈ step.stored, s.name ≠ name) :
    (runCommands commands disk).2.secret name = disk.secret name := by
  induction commands generalizing disk with
  | nil => rfl
  | cons command commands ih =>
    have hrest := @ih (command.run disk).2
      (fun c hc => hwhole c (List.mem_cons_of_mem _ hc))
      (fun step hstep => hname step (List.mem_cons_of_mem _ hstep))
    have hstep := command.run_spec disk (hwhole command List.mem_cons_self)
    exact hrest.trans (hstep.frame (hname _ List.mem_cons_self))

/-- The names of what is left of a run are apart too. -/
theorem Apart.tail {step : Step} {steps : List Step} (h : Apart (step :: steps)) : Apart steps where
  names a ha b hb := h.names a (List.mem_cons_of_mem _ ha) b (List.mem_cons_of_mem _ hb)
  values a ha := h.values a (List.mem_cons_of_mem _ ha)

/-- The names that the commands store can be referred to. -/
theorem derived_stored (command : Command) {s : Stored} (hs : s ∈ command.stored disk) :
    Derived s.name := by
  -- A promotion stores what the capture suggests, a login the keys of its request.
  cases command with
  | promote tools fates args =>
    cases hplan : planPromotion tools disk args with
    | error error =>
      rw [Command.stored, hplan] at hs
      exact absurd hs List.not_mem_nil
    | ok plan =>
      rw [Command.stored, hplan] at hs
      obtain ⟨e, he, rfl⟩ := List.mem_map.mp hs
      obtain ⟨n, baseUrlVar, hpromote⟩ := choosePromotion_eq (planPromotion_eq_ok.mp hplan).chosen
      obtain ⟨base, hspec⟩ := Capture.promote_spec hpromote
      rw [hspec.secrets] at he
      show Derived e.1
      rw [Capture.name_of_mem_secrets he]
      exact derived_suggestSecretName _
  | login tools fates args =>
    cases hsigned : signInFor tools disk args with
    | error error =>
      rw [Command.stored, hsigned] at hs
      exact absurd hs List.not_mem_nil
    | ok found =>
      rw [Command.stored, hsigned] at hs
      have hs : s ∈ tokensStored found.1.id found.2 := hs
      have haccess : Derived (accessKey found.1.id) :=
        (derived_slugify _).append (forall_mem_of_all (by decide))
      have hrefresh : Derived (refreshKey found.1.id) :=
        (derived_slugify _).append (forall_mem_of_all (by decide))
      rcases List.mem_cons.mp hs with rfl | hs
      · exact haccess
      · obtain ⟨refresh, -, rfl⟩ := Option.mem_map.mp (Option.mem_toList.mp hs)
        exact hrefresh

/-- A run whose names are apart, up to its end. -/
theorem eachResolves_runCommands (world : World) (commands : List Command)
    (hwhole : ∀ command ∈ commands, command.vaultFates.Whole)
    (hapart : Apart (runCommands commands disk).1) :
    EachResolves world (runCommands commands disk).1 (runCommands commands disk).2 := by
  induction commands generalizing disk with
  | nil =>
    intro before step after hsteps
    exact absurd hsteps (by simp [runCommands])
  | cons command commands ih =>
    have hwhole' := fun c hc => hwhole c (List.mem_cons_of_mem command hc)
    have hrest := @ih (command.run disk).2 hwhole' hapart.tail
    intro before step after hsteps hok s hs hlater
    cases before with
    | cons first before => exact hrest before step after (List.cons.inj hsteps).2 hok s hs hlater
    | nil =>
      -- The credential is stored by the first command, and the rest leaves its name alone.
      obtain ⟨rfl, rfl⟩ := List.cons.inj hsteps
      have hspec := command.run_spec disk (hwhole command List.mem_cons_self)
      have hstored : (command.run disk).2.secret s.name = some s.value := by
        have htrue : (command.run disk).1 = true := hok
        rw [htrue] at hspec
        refine hspec.stores hs ?_
        intro s' hs' hname
        exact hapart.values _ List.mem_cons_self s' hs' s hs
          (hapart.names _ List.mem_cons_self _ List.mem_cons_self s' hs' s hs hname)
      have hkept : (runCommands commands (command.run disk).2).2.secret s.name
          = (command.run disk).2.secret s.name := by
        refine runCommands_frame commands hwhole' ?_
        intro later hl s' hs' hname
        exact hlater later hl s' hs' (hapart.names later (List.mem_cons_of_mem _ hl) _
          List.mem_cons_self s' hs' s hs hname)
      intro resolver hresolver
      refine resolve_secretRef world (derived_stored command hs) _ ?_
      rw [hresolver]
      exact hkept.trans hstored

/-- The first steps of a run are the run of the first commands. -/
theorem runCommands_take (commands : List Command) (n : Nat) :
    (runCommands (commands.take n) disk).1 = (runCommands commands disk).1.take n := by
  induction commands generalizing disk n with
  | nil =>
    rw [List.take_nil]
    exact List.take_nil.symm
  | cons command commands ih =>
    cases n with
    | zero => rfl
    | succ n =>
      show _ :: (runCommands (commands.take n) (command.run disk).2).1
        = _ :: (runCommands commands (command.run disk).2).1.take n
      rw [ih]

/-- The names of the first steps are apart too. -/
theorem Apart.take {steps : List Step} (h : Apart steps) (n : Nat) : Apart (steps.take n) where
  names a ha b hb := h.names a (List.mem_of_mem_take ha) b (List.mem_of_mem_take hb)
  values a ha := h.values a (List.mem_of_mem_take ha)

end Run

/-! ### Logins of two requests -/

/-- A request that signs in as a client. -/
def signInRequest (client : Text) : RequestSpec :=
  { RequestSpec.new asciiUpper "GET".toList "https://api.test/".toList with
    auth := some (.oAuth2
      { grant := .authorizationCode, tokenUrl := "https://sso.test/token".toList
        authorizeUrl := none, redirectUri := none, clientId := client, clientSecret := none
        scope := none, audience := none, credentialsInBody := false }) }

/-- A collection whose requests `a/b`, `a-b` and `c` sign in as `first`, `second` and `third`. -/
def signInDisk : Disk :=
  { sampleDisk [] with
    requests := ⟨[⟨"a-b".toList, .ok (signInRequest "second".toList)⟩,
      ⟨"a/b".toList, .ok (signInRequest "first".toList)⟩,
      ⟨"c".toList, .ok (signInRequest "third".toList)⟩], by decide⟩ }

/-- An authorization server that hands the client its own name. -/
def signInTools : LoginTools :=
  { lower := asciiLower, world := ⟨fun _ => none, fun _ => 0, fun _ => 0, fun _ => 0⟩
    runtimeError := none, signIn := fun config => .ok ⟨config.clientId, none⟩ }

/-- Sign in for a request, with a vault that is written. -/
def signInAs (id : Text) : Command := .login signInTools allDone.vault { request := id }

/-- The step of a login. -/
def signInStep (id client : Text) : Step :=
  ⟨true, [⟨.accessToken id, accessKey id, client⟩]⟩

/-- When nothing fails, the vault is saved whole. -/
theorem whole_allDone : allDone.vault.Whole :=
  ⟨fun _ _ h => absurd h (by simp [allDone]), fun _ _ h => absurd h (by simp [allDone])⟩

end Gabriel.Cli
