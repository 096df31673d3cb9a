import Gabriel.Core.Vars

/-!
# `Gabriel.Proofs.Vars`: what resolving a template does

One spec lemma for each function of the resolver. A template is expanded reference by reference,
and the value of a variable is a template itself, up to a fixed depth. So what every step of a
lookup keeps is carried through the two nested recursions once, in `KeptByLookups`: variables,
secrets and permissions, among others, stay as they are (`kept_sameSetup`).

The theorems:

* `lookup_ok`: where the value of a name can come from; `name_cases` splits the names into their
  namespaces.
* `expandRefs_ok`, `expand_ok`: a successful expansion fills the references of the template with
  looked-up values.
* `KeptByLookups.resolveMap`: what lookups keep, resolving a whole map of templates keeps.
* `resolve_clean`: a text without `{{` resolves to itself and changes nothing.
* `expands_reference`: a reference in front of a template is expanded first, and then what follows
  it; so a template can be looked at part by part (`Expands`).
* `count_resolve_bare`: a resolver without variables, secrets and environment can only fill in
  generated values, so what it makes of a text has at least two braces fewer for each reference.
* `resolve_onlyVar`: the same for a resolver with one variable, counted in slashes.
-/

set_option autoImplicit false

namespace Gabriel.Core

open Text Fallible Template

/-- The names with a generated value. -/
def generatedNames : List Text :=
  ["$uuid".toList, "$timestamp".toList, "$isoTimestamp".toList, "$randomInt".toList]

/-- A name is generated exactly when it is one of the four. -/
theorem generatedValue_eq_none_iff {world : World} {draw : Nat} {name : Text} :
    generatedValue world draw name = none ↔ name ∉ generatedNames := by
  unfold generatedValue generatedNames
  split_ifs <;> simp_all

/-- A character of a UUID is a hexadecimal digit or `-`. -/
theorem mem_uuidText {bits : Nat} {c : Char} (hc : c ∈ uuidText bits) :
    c.isAlphanum ∨ c ∈ "-:.".toList := by
  have hdash : ('-' : Char) ∈ "-:.".toList := by decide
  have hhex : ∀ m, m < 16 → (Nat.digitChar m).isAlphanum = true := by decide
  have hdigits : ∀ d ∈ (List.range 32).reverse.map fun i => Nat.digitChar (bits / 16 ^ i % 16),
      d.isAlphanum = true := by
    intro d hd
    obtain ⟨i, -, rfl⟩ := List.mem_map.mp hd
    exact hhex _ (Nat.mod_lt _ (by decide))
  unfold uuidText at hc
  dsimp only at hc
  simp only [List.mem_append, List.mem_cons, List.append_assoc, List.cons_append] at hc
  rcases hc with h | rfl | h | rfl | h | rfl | h | rfl | h
  · exact Or.inl (hdigits _ (List.mem_of_mem_take h))
  · exact Or.inr hdash
  · exact Or.inl (hdigits _ (List.mem_of_mem_drop (List.mem_of_mem_take h)))
  · exact Or.inr hdash
  · exact Or.inl (hdigits _ (List.mem_of_mem_drop (List.mem_of_mem_take h)))
  · exact Or.inr hdash
  · exact Or.inl (hdigits _ (List.mem_of_mem_drop (List.mem_of_mem_take h)))
  · exact Or.inr hdash
  · exact Or.inl (hdigits _ (List.mem_of_mem_drop h))

/-- A character of a generated value is alphanumeric or one of `-`, `:` and `.`. -/
theorem mem_generatedValue {world : World} {draw : Nat} {name value : Text} {c : Char}
    (h : generatedValue world draw name = some value) (hc : c ∈ value) :
    c.isAlphanum ∨ c ∈ "-:.".toList := by
  have hdigit : ∀ n, c ∈ natText n → c.isAlphanum := by
    intro n hn
    have := Nat.isDigit_of_mem_toDigits (by decide) (by decide) hn
    simp [Char.isAlphanum, this]
  unfold generatedValue at h
  split_ifs at h
  all_goals obtain rfl := Option.some.inj h
  · exact mem_uuidText hc
  · exact Or.inl (hdigit _ hc)
  · unfold formatIso8601 at hc
    rcases mem_isoText hc with hd | hd
    · simp [Char.isAlphanum, hd]
    · revert hd
      simp only [show "-T:.Z".toList = ['-', 'T', ':', '.', 'Z'] from rfl, List.mem_cons,
        List.not_mem_nil, or_false]
      rintro (rfl | rfl | rfl | rfl | rfl) <;> decide
  · exact Or.inl (hdigit _ hc)

namespace Resolver

/-- The parts of a resolver that no lookup changes. -/
def SameSetup (r r' : Resolver) : Prop :=
  r'.vars = r.vars ∧ r'.secrets = r.secrets ∧ r'.allowProcessEnv = r.allowProcessEnv

/-- A resolver has its own setup. -/
theorem sameSetup_refl (r : Resolver) : SameSetup r r := ⟨rfl, rfl, rfl⟩

/-- The setup stays over two calls. -/
theorem sameSetup_trans (r s t : Resolver) (h : SameSetup r s) (h' : SameSetup s t) :
    SameSetup r t :=
  ⟨h'.1.trans h.1, h'.2.1.trans h.2.1, h'.2.2.trans h.2.2⟩

/-- Noting a secret leaves the setup as it is. -/
theorem sameSetup_noteSecret (r : Resolver) (value : Text) : SameSetup r (r.noteSecret value) := by
  unfold noteSecret
  split <;> exact ⟨rfl, rfl, rfl⟩

/-- A relation that holds over every step of a lookup, and so over everything the resolver does. -/
structure KeptByLookups (R : Resolver → Resolver → Prop) : Prop where
  refl : ∀ r, R r r
  trans : ∀ r s t, R r s → R s t → R r t
  /-- A secret that is there is noted with its name. -/
  found : ∀ {r : Resolver} {name key value : Text}, stripPrefix "secret:".toList name = some key →
    r.secrets (trim key) = some value → R r ((r.noteLookup name).noteSecret value)
  /-- Of every other name, only that it was looked up. -/
  other : ∀ {r : Resolver} {name : Text},
    (∀ key, stripPrefix "secret:".toList name = some key → r.secrets (trim key) = none) →
    R r (r.noteLookup name)
  draw : ∀ r : Resolver, R r r.nextDraw

/-- No lookup changes a variable, a secret or a permission. -/
theorem kept_sameSetup : KeptByLookups SameSetup where
  refl := sameSetup_refl
  trans := sameSetup_trans
  found := fun {r name _ value} _ _ =>
    sameSetup_trans r (r.noteLookup name) _ ⟨rfl, rfl, rfl⟩ (sameSetup_noteSecret _ value)
  other := fun _ => ⟨rfl, rfl, rfl⟩
  draw := fun _ => ⟨rfl, rfl, rfl⟩

/-- The name of a variable: it belongs to no other namespace. -/
def IsVariableName (name : Text) : Prop :=
  stripPrefix "secret:".toList name = none ∧ stripPrefix "env:".toList name = none ∧
    name ∉ generatedNames

instance (name : Text) : Decidable (IsVariableName name) := by
  unfold IsVariableName
  infer_instance

section Lookup

variable {world : World} {ex : Text → List Text → ResolverM Text} {name : Text}
  {stack : List Text}

/-- The lookup of a variable expands its value, unless it is being expanded already. -/
theorem exec_lookup_variable (h : IsVariableName name) (r : Resolver) :
    exec (lookup world ex name stack) r =
      match r.vars.get? name with
      | some raw =>
        if name ∈ stack then (.error (.variableRecursion name), r.noteLookup name)
        else exec (ex raw (stack ++ [name])) (r.noteLookup name)
      | none => (.error (.unknownVariable name), r.noteLookup name) := by
  obtain ⟨hsecret, henv, hgen⟩ := h
  have hnone : generatedValue world r.draws name = none := generatedValue_eq_none_iff.mpr hgen
  have hdraws : (r.noteLookup name).draws = r.draws := rfl
  have hvars : (r.noteLookup name).vars = r.vars := rfl
  simp only [lookup, hsecret, henv, exec_bind, exec_modify, exec_get, hdraws, hnone, hvars]
  cases r.vars.get? name with
  | none => rfl
  | some raw => by_cases hmem : name ∈ stack <;> simp [hmem]

/-- The lookup of a secret returns it as it is. -/
theorem exec_lookup_secret {key : Text} (h : stripPrefix "secret:".toList name = some key)
    (r : Resolver) :
    exec (lookup world ex name stack) r =
      match r.secrets (trim key) with
      | some value => (.ok value, (r.noteLookup name).noteSecret value)
      | none => (.error (.unknownSecret (trim key)), r.noteLookup name) := by
  have hsecrets : (r.noteLookup name).secrets = r.secrets := rfl
  simp only [lookup, h, exec_bind, exec_modify, exec_get, hsecrets]
  cases r.secrets (trim key) <;> rfl

/-- The lookup of an environment variable. -/
theorem exec_lookup_env {key : Text} (hs : stripPrefix "secret:".toList name = none)
    (h : stripPrefix "env:".toList name = some key) (r : Resolver) :
    exec (lookup world ex name stack) r =
      if r.allowProcessEnv then
        match world.env (trim key) with
        | some value => (.ok value, r.noteLookup name)
        | none => (.error (.unknownVariable ("env:".toList ++ trim key)), r.noteLookup name)
      else (.error (.invalid ("`\x7b\x7benv:".toList ++ trim key
          ++ "\x7d\x7d` needs --allow-env; process environment access is opt-in".toList)),
        r.noteLookup name) := by
  have hallow : (r.noteLookup name).allowProcessEnv = r.allowProcessEnv := rfl
  simp only [lookup, hs, h, exec_bind, exec_modify, exec_get, hallow]
  cases r.allowProcessEnv with
  | false => rfl
  | true => cases world.env (trim key) <;> rfl

/-- The lookup of a generated name. -/
theorem exec_lookup_generated {value : Text} (r : Resolver)
    (hs : stripPrefix "secret:".toList name = none) (he : stripPrefix "env:".toList name = none)
    (h : generatedValue world r.draws name = some value) :
    exec (lookup world ex name stack) r = (.ok value, (r.noteLookup name).nextDraw) := by
  have hdraws : (r.noteLookup name).draws = r.draws := rfl
  simp only [lookup, hs, he, exec_bind, exec_modify, exec_get, hdraws, h]
  rfl

/-- The namespaces split the names. -/
theorem name_cases (world : World) (draw : Nat) (name : Text) :
    (∃ key, stripPrefix "secret:".toList name = some key) ∨
    (stripPrefix "secret:".toList name = none ∧
      ∃ key, stripPrefix "env:".toList name = some key) ∨
    (stripPrefix "secret:".toList name = none ∧ stripPrefix "env:".toList name = none ∧
      ∃ value, generatedValue world draw name = some value) ∨
    IsVariableName name := by
  cases hs : stripPrefix "secret:".toList name with
  | some key => exact Or.inl ⟨key, rfl⟩
  | none =>
    cases he : stripPrefix "env:".toList name with
    | some key => exact Or.inr (Or.inl ⟨rfl, key, rfl⟩)
    | none =>
      cases hg : generatedValue world draw name with
      | some value => exact Or.inr (Or.inr (Or.inl ⟨rfl, rfl, value, rfl⟩))
      | none => exact Or.inr (Or.inr (Or.inr ⟨hs, he, generatedValue_eq_none_iff.mp hg⟩))

/-- Where the value of a name can come from. -/
theorem lookup_ok {r r' : Resolver} {value : Text}
    (h : exec (lookup world ex name stack) r = (.ok value, r')) :
    (∃ key, r.secrets key = some value) ∨
    (r.allowProcessEnv = true ∧ ∃ key, world.env key = some value) ∨
    (∃ draw, generatedValue world draw name = some value) ∨
    (IsVariableName name ∧ ∃ raw, r.vars.get? name = some raw ∧ name ∉ stack ∧
      exec (ex raw (stack ++ [name])) (r.noteLookup name) = (.ok value, r')) := by
  -- A name is of one of four kinds, which the source asks for in this order.
  rcases name_cases world r.draws name with
    ⟨key, hs⟩ | ⟨hs, key, he⟩ | ⟨hs, he, generated, hg⟩ | hvar
  -- A secret has a value or the lookup fails.
  · rw [exec_lookup_secret hs] at h
    cases hkey : r.secrets (trim key) with
    | none => simp [hkey] at h
    | some found =>
      simp only [hkey, Prod.mk.injEq, Except.ok.injEq] at h
      exact Or.inl ⟨trim key, by rw [hkey, h.1]⟩
  -- A variable of the process is only read when that is allowed.
  · rw [exec_lookup_env hs he] at h
    cases hallow : r.allowProcessEnv with
    | false => simp [hallow] at h
    | true =>
      cases hkey : world.env (trim key) with
      | none => simp [hallow, hkey] at h
      | some found =>
        simp only [hallow, hkey, if_true, Prod.mk.injEq, Except.ok.injEq] at h
        exact Or.inr (Or.inl ⟨rfl, trim key, by rw [hkey, h.1]⟩)
  · rw [exec_lookup_generated r hs he hg] at h
    simp only [Prod.mk.injEq, Except.ok.injEq] at h
    exact Or.inr (Or.inr (Or.inl ⟨r.draws, by rw [hg, h.1]⟩))
  -- A variable is expanded, unless it is being expanded already.
  · rw [exec_lookup_variable hvar] at h
    cases hraw : r.vars.get? name with
    | none => simp [hraw] at h
    | some raw =>
      by_cases hmem : name ∈ stack
      · simp [hraw, hmem] at h
      · simp only [hraw, hmem, if_false] at h
        exact Or.inr (Or.inr (Or.inr ⟨hvar, raw, rfl, hmem, h⟩))

/-- A lookup keeps what its steps keep, when the expansion of a variable does. -/
theorem KeptByLookups.lookup {R : Resolver → Resolver → Prop} (hR : KeptByLookups R)
    (hex : ∀ t st, Keeps R (ex t st)) : Keeps R (lookup world ex name stack) := by
  -- The same four kinds; each step of the lookup is one that the relation allows.
  intro r
  rcases name_cases world r.draws name with
    ⟨key, hs⟩ | ⟨hs, key, he⟩ | ⟨hs, he, generated, hg⟩ | hvar
  · rw [exec_lookup_secret hs]
    cases hkey : r.secrets (trim key) with
    | none =>
      refine hR.other ?_
      intro key' hs'
      obtain rfl : key = key' := Option.some.inj (hs.symm.trans hs')
      exact hkey
    | some value => exact hR.found hs hkey
  · have hnote : R r (r.noteLookup name) := hR.other fun key' hs' =>
        absurd (hs.symm.trans hs') nofun
    rw [exec_lookup_env hs he]
    split
    · split <;> exact hnote
    · exact hnote
  · have hnote : R r (r.noteLookup name) := hR.other fun key' hs' =>
        absurd (hs.symm.trans hs') nofun
    rw [exec_lookup_generated r hs he hg]
    exact hR.trans _ _ _ hnote (hR.draw _)
  · have hnote : R r (r.noteLookup name) :=
      hR.other fun key' hs' => absurd (hvar.1.symm.trans hs') nofun
    rw [exec_lookup_variable hvar]
    cases r.vars.get? name with
    | none => exact hnote
    | some raw =>
      dsimp only
      split
      · exact hnote
      · exact hR.trans _ _ _ hnote (hex raw (stack ++ [name]) _)

end Lookup

section Expand

variable {world : World}

section Kept

variable {R : Resolver → Resolver → Prop} (hR : KeptByLookups R)
include hR

/-- The loop over the references keeps what each lookup keeps. -/
theorem KeptByLookups.expandRefs {look : Text → ResolverM Text} (h : ∀ name, Keeps R (look name))
    (refs : List (Text × Text)) (out : Text) : Keeps R (expandRefs look refs out) := by
  induction refs generalizing out with
  | nil => exact keeps_pure hR.refl out
  | cons ref refs ih => exact keeps_bind hR.trans (h _) fun value => ih _

/-- What every lookup keeps, the expansion of a template keeps, however deep it goes. -/
theorem KeptByLookups.expand (levels : Nat) (template : Text) (stack : List Text) :
    Keeps R (expand world levels template stack) := by
  induction levels generalizing template stack with
  | zero => exact keeps_throw hR.refl _
  | succ levels ih =>
    refine keeps_bind hR.trans (hR.expandRefs (fun name => hR.lookup ih) _ _) ?_
    intro out
    split
    · exact keeps_pure hR.refl _
    · exact keeps_throw hR.refl _

/-- So does resolving a text. -/
theorem KeptByLookups.resolve (template : Text) : Keeps R (resolve world template) :=
  hR.expand _ _ _

/-- So does resolving the values of a field. -/
theorem KeptByLookups.resolveValue (value : FieldValue) : Keeps R (resolveValue world value) := by
  cases value with
  | one value => exact keeps_bind hR.trans (hR.resolve value) fun v => keeps_pure hR.refl _
  | many list =>
    exact keeps_bind hR.trans (keeps_mapM hR.refl hR.trans hR.resolve list)
      fun vs => keeps_pure hR.refl _

/-- So does resolving a field with its name. -/
theorem KeptByLookups.resolveEntry (e : Text × FieldValue) : Keeps R (do
    let key ← Resolver.resolve world e.1
    let value ← Resolver.resolveValue world e.2
    pure (key, value)) :=
  keeps_bind hR.trans (hR.resolve e.1) fun _ =>
    keeps_bind hR.trans (hR.resolveValue e.2) fun _ => keeps_pure hR.refl _

/-- And so does resolving a whole map. -/
theorem KeptByLookups.resolveMap (map : FieldMap) : Keeps R (resolveMap world map) :=
  keeps_bind hR.trans (keeps_mapM hR.refl hR.trans hR.resolveEntry map.fields.entries)
    fun _ => keeps_pure hR.refl _

end Kept

/-- Resolving changes no variable, secret or permission. -/
theorem keeps_resolve (template : Text) : Keeps SameSetup (resolve world template) :=
  kept_sameSetup.resolve template

/-- A loop over the references that succeeds fills them with looked-up values. -/
theorem expandRefs_ok {look : Text → ResolverM Text} (hkeep : ∀ name, Keeps SameSetup (look name))
    {refs : List (Text × Text)} {out result : Text} {r r' : Resolver}
    (h : exec (expandRefs look refs out) r = (.ok result, r')) :
    ∃ values : List Text, result = out ++ fill refs values ∧
      List.Forall₂ (fun ref value => ∃ s s', SameSetup r s ∧
        exec (look (trim ref.2)) s = (.ok value, s')) refs values := by
  induction refs generalizing out r with
  | nil =>
    simp only [expandRefs, exec_pure, Prod.mk.injEq, Except.ok.injEq] at h
    exact ⟨[], by rw [← h.1, fill_nil, List.append_nil], List.Forall₂.nil⟩
  | cons ref refs ih =>
    obtain ⟨lit, name⟩ := ref
    obtain ⟨value, s, hvalue, hrest⟩ := exec_bind_eq_ok.mp h
    obtain ⟨values, hresult, hfrom⟩ := ih hrest
    have hsame : SameSetup r s := by
      have hk := hkeep (trim name) r
      rwa [hvalue] at hk
    refine ⟨value :: values, by simp [hresult, fill], ?_⟩
    refine List.Forall₂.cons ⟨r, s, sameSetup_refl r, hvalue⟩ (hfrom.imp ?_)
    rintro ref' v ⟨t, t', ht, hlook⟩
    exact ⟨t, t', sameSetup_trans _ _ _ hsame ht, hlook⟩

/-- An expansion that succeeds fills the references of a terminated template. -/
theorem expand_ok {levels : Nat} {template result : Text} {stack : List Text} {r r' : Resolver}
    (h : exec (expand world (levels + 1) template stack) r = (.ok result, r')) :
    (parse opening closing template).terminated = true ∧
    ∃ values : List Text, result = fill (parse opening closing template).refs values
        ++ (parse opening closing template).tail ∧
      List.Forall₂ (fun ref value => ∃ s s', SameSetup r s ∧
        exec (lookup world (expand world levels) (trim ref.2) stack) s = (.ok value, s'))
        (parse opening closing template).refs values := by
  obtain ⟨out, s, hout, hrest⟩ := exec_bind_eq_ok.mp h
  obtain ⟨values, hfill, hfrom⟩ :=
    expandRefs_ok (fun name => kept_sameSetup.lookup (kept_sameSetup.expand levels)) hout
  cases hterm : (parse opening closing template).terminated with
  | false => simp [hterm] at hrest
  | true =>
    simp only [hterm, if_true, exec_pure, Prod.mk.injEq, Except.ok.injEq] at hrest
    refine ⟨rfl, values, ?_, hfrom⟩
    rw [← hrest.1, hfill, List.nil_append]

/-- A text without a reference resolves to itself and changes nothing. -/
theorem expand_clean {template : Text} (h : ¬ opening <:+: template) (levels : Nat)
    (stack : List Text) (r : Resolver) :
    exec (expand world (levels + 1) template stack) r = (.ok template, r) := by
  simp only [expand, parse_of_clean h, expandRefs, exec_bind, exec_pure, if_true,
    List.nil_append]

/-- A text without an opening resolves to itself, and nothing is looked up. -/
theorem resolve_clean {template : Text} (h : ¬ opening <:+: template) (r : Resolver) :
    exec (resolve world template) r = (.ok template, r) :=
  expand_clean h _ _ r

/-- A text that starts with a reference. -/
theorem parse_reference_append {name : Text} (hname : ¬ closing <:+: name)
    (hlast : name.getLast? ≠ some '}') (rest : Text) :
    parse opening closing (opening ++ name ++ closing ++ rest)
      = { parse opening closing rest with
          refs := ([], name) :: (parse opening closing rest).refs } := by
  have hopn : splitOnce opening (opening ++ name ++ closing ++ rest)
      = some ([], name ++ closing ++ rest) := by
    rw [splitOnce_eq_some_iff]
    refine ⟨by simp [List.append_assoc], ?_⟩
    intro p s hps hs
    exact absurd (List.append_eq_nil_iff.mp hps.symm).2 hs
  have hcls : splitOnce closing (name ++ closing ++ rest) = some (name, rest) := by
    rw [splitOnce_eq_some_iff]
    refine ⟨rfl, ?_⟩
    intro p s hps hs hpre
    have hclosing : closing = ['}', '}'] := rfl
    rw [hclosing] at hpre hname
    -- The delimiter would start inside the name: at its last character, or before.
    match s with
    | [] => exact hs rfl
    | [c] =>
      have hc : '}' = c := (List.cons_prefix_cons.mp hpre).1
      exact hlast (by rw [hps, ← hc]; simp)
    | c :: d :: s =>
      obtain ⟨hc, hpre'⟩ := List.cons_prefix_cons.mp hpre
      have hd : '}' = d := (List.cons_prefix_cons.mp hpre').1
      exact hname ⟨p, s, by rw [hps, ← hc, ← hd]; simp⟩
  rw [parse_of_ref (by decide) hopn hcls]

/-- A text that starts with a reference and has no other one. -/
theorem parse_reference {name rest : Text} (hname : ¬ closing <:+: name)
    (hlast : name.getLast? ≠ some '}') (hrest : ¬ opening <:+: rest) :
    parse opening closing (opening ++ name ++ closing ++ rest) = ⟨[([], name)], rest, true⟩ := by
  rw [parse_reference_append hname hlast, parse_of_clean hrest]

/-- A template of one reference and a clean text after it is resolved by one lookup. -/
theorem exec_resolve_reference {template name rest : Text}
    (hparse : parse opening closing template = ⟨[([], name)], rest, true⟩) (r : Resolver) :
    exec (resolve world template) r =
      match exec (lookup world (expand world maxDepth) (trim name) []) r with
      | (.ok value, s) => (.ok (value ++ rest), s)
      | (.error e, s) => (.error e, s) := by
  rw [resolve, expand, hparse]
  dsimp only [expandRefs]
  rw [exec_bind, exec_bind]
  rcases exec (lookup world (expand world maxDepth) (trim name) []) r with ⟨q, s⟩
  cases q <;> rfl

/-- A reference to a variable whose value is clean, in front of a clean text. -/
theorem resolve_reference {template name value rest : Text} {r : Resolver}
    (hparse : parse opening closing template = ⟨[([], name)], rest, true⟩)
    (hname : IsVariableName (trim name)) (hvalue : ¬ opening <:+: value)
    (hget : r.vars.get? (trim name) = some value) :
    exec (resolve world template) r = (.ok (value ++ rest), r.noteLookup (trim name)) := by
  have hlook : exec (lookup world (expand world maxDepth) (trim name) []) r
      = (.ok value, r.noteLookup (trim name)) := by
    rw [exec_lookup_variable hname, hget]
    exact expand_clean hvalue _ _ _
  rw [exec_resolve_reference hparse, hlook]

/-! ### Parts of a template -/

/-- What stands before the references of a loop stays in front of its result. -/
theorem exec_expandRefs_append (look : Text → ResolverM Text) (refs : List (Text × Text))
    (front out : Text) (r : Resolver) :
    exec (expandRefs look refs (front ++ out)) r
      = ((exec (expandRefs look refs out) r).1.map (front ++ ·),
        (exec (expandRefs look refs out) r).2) := by
  induction refs generalizing out r with
  | nil => rfl
  | cons ref refs ih =>
    obtain ⟨lit, name⟩ := ref
    unfold expandRefs
    rw [exec_bind, exec_bind]
    rcases exec (look (trim name)) r with ⟨error | value, s⟩
    · rfl
    · dsimp only
      have hassoc : front ++ out ++ lit ++ value = front ++ (out ++ lit ++ value) := by
        simp only [List.append_assoc]
      rw [hassoc, ih]

/-- An expansion fails at an unknown variable, or what it gives has a property. -/
def Expands (run : Except CoreError Text × Resolver) (P : Text → Resolver → Prop) : Prop :=
  match run with
  | (.ok text, r) => P text r
  | (.error error, _) => ∃ name, error = .unknownVariable name

/-- Only what the expansion gives matters. -/
theorem expands_congr {run : Except CoreError Text × Resolver} {P Q : Text → Resolver → Prop}
    (h : ∀ text r, run = (.ok text, r) → (P text r ↔ Q text r)) :
    Expands run P ↔ Expands run Q := by
  obtain ⟨error | text, r⟩ := run
  · exact Iff.rfl
  · exact h text r rfl

/-- A loop over references, and the text after them. -/
theorem expands_refs {look : Text → ResolverM Text} {refs : List (Text × Text)}
    {tail template : Text} {terminated : Bool} (front : Text) {r : Resolver}
    {P : Text → Resolver → Prop} (template' : Text) :
    Expands (exec (do
      let out ← expandRefs look refs front
      if terminated then pure (out ++ tail) else throw (.unterminatedTemplate template)) r) P ↔
    Expands (exec (do
      let out ← expandRefs look refs []
      if terminated then pure (out ++ tail) else throw (.unterminatedTemplate template')) r)
      fun text s => P (front ++ text) s := by
  have hfront := exec_expandRefs_append look refs front [] r
  rw [List.append_nil] at hfront
  rw [exec_bind, exec_bind, hfront]
  rcases exec (expandRefs look refs []) r with ⟨error | out, s⟩
  · exact Iff.rfl
  · cases terminated with
    | false => simp [Expands, Except.map]
    | true =>
      show P (front ++ out ++ tail) s ↔ P (front ++ (out ++ tail)) s
      rw [List.append_assoc]

/-- A reference is expanded first, and then what follows it. -/
theorem expands_reference {name rest : Text} (hname : ¬ closing <:+: name)
    (hlast : name.getLast? ≠ some '}') {r : Resolver} {P : Text → Resolver → Prop} :
    Expands (exec (resolve world (opening ++ name ++ closing ++ rest)) r) P ↔
      Expands (exec (lookup world (expand world maxDepth) (trim name) []) r) fun value s =>
        Expands (exec (resolve world rest) s) fun text t => P (value ++ text) t := by
  unfold resolve
  rw [expand, parse_reference_append hname hlast]
  dsimp only [expandRefs]
  rw [exec_bind, exec_bind]
  rcases exec (lookup world (expand world maxDepth) (trim name) []) r with ⟨error | value, s⟩
  · exact Iff.rfl
  · dsimp only
    have hstep := @expands_refs (fun name => lookup world (expand world maxDepth) name [])
      (parse opening closing rest).refs (parse opening closing rest).tail
      (opening ++ name ++ closing ++ rest) (parse opening closing rest).terminated
      ([] ++ [] ++ value) s P rest
    rw [exec_bind] at hstep
    exact hstep

/-- A literal in front of a template is part of its first literal. -/
theorem parse_literal_append {lit rest : Text} (hlit : ¬ opening <:+: lit)
    (hrest : rest.head? ≠ some '{') :
    (parse opening closing (lit ++ rest)).terminated = (parse opening closing rest).terminated ∧
      ((parse opening closing rest).refs = [] ∧ (parse opening closing (lit ++ rest)).refs = [] ∧
          (parse opening closing (lit ++ rest)).tail
            = lit ++ (parse opening closing rest).tail ∨
        ∃ l name refs, (parse opening closing rest).refs = (l, name) :: refs ∧
          (parse opening closing (lit ++ rest)).refs = (lit ++ l, name) :: refs ∧
          (parse opening closing (lit ++ rest)).tail = (parse opening closing rest).tail) := by
  have hopening : opening = ['{', '{'] := rfl
  cases hcut : splitOnce opening rest with
  | none =>
    have hclean : ¬ opening <:+: lit ++ rest := by
      intro hin
      rcases List.infix_append_iff.mp hin with hl | hr | ⟨a, b, hab, ha, hb⟩
      · exact hlit hl
      · exact splitOnce_eq_none_iff.mp hcut hr
      · cases b with
        | nil =>
          rw [List.append_nil] at hab
          exact hlit (hab ▸ ha.isInfix)
        | cons c b =>
          -- A straddling delimiter would end with the first character of the rest.
          have hc : c = '{' := by
            have hmem : c ∈ opening := hab ▸ List.mem_append_right a List.mem_cons_self
            simpa [hopening] using hmem
          obtain ⟨more, hmore⟩ := hb
          exact hrest (by rw [← hmore, hc]; rfl)
    rw [parse_of_clean hclean, parse_of_clean (splitOnce_eq_none_iff.mp hcut)]
    exact ⟨rfl, Or.inl ⟨rfl, rfl, rfl⟩⟩
  | some cut =>
    obtain ⟨l, after⟩ := cut
    have hwhole : splitOnce opening (lit ++ rest) = some (lit ++ l, after) := by
      rw [eq_of_splitOnce hcut, splitOnce_eq_some_iff]
      refine ⟨by simp only [List.append_assoc], ?_⟩
      intro p s hps hs hpre
      rcases List.append_eq_append_iff.mp hps with ⟨m, rfl, hl⟩ | ⟨m, rfl, rfl⟩
      · exact not_prefix_of_splitOnce hcut m s hl hs hpre
      · have hbehind : m ++ l ++ opening ++ after = m ++ rest := by
          rw [eq_of_splitOnce hcut]
          simp only [List.append_assoc]
        rw [hbehind, hopening] at hpre
        match m with
        | [] =>
          cases l with
          | nil => exact hs rfl
          | cons c l =>
            refine not_prefix_of_splitOnce hcut [] (c :: l) rfl (by simp) ?_
            rw [← eq_of_splitOnce hcut]
            exact hpre
        | [c] =>
          obtain ⟨-, hpre'⟩ := List.cons_prefix_cons.mp hpre
          obtain ⟨more, hmore⟩ := hpre'
          have hhead : ['{'] ++ more = rest := hmore
          exact hrest (by rw [← hhead]; rfl)
        | c :: d :: m =>
          obtain ⟨hc, hpre'⟩ := List.cons_prefix_cons.mp hpre
          obtain ⟨hd, -⟩ := List.cons_prefix_cons.mp hpre'
          exact hlit ⟨p, m, by rw [hopening, ← hc, ← hd]; simp⟩
    cases hname : splitOnce closing after with
    | none =>
      rw [parse_of_unterminated (by decide) hcut hname,
        parse_of_unterminated (by decide) hwhole hname]
      exact ⟨rfl, Or.inl ⟨rfl, rfl, rfl⟩⟩
    | some cut' =>
      rw [parse_of_ref (by decide) hcut hname, parse_of_ref (by decide) hwhole hname]
      exact ⟨rfl, Or.inr ⟨_, _, _, rfl, rfl, rfl⟩⟩

/-- A literal in front of a template stays in front of what it expands to. -/
theorem expands_literal {lit rest : Text} (hlit : ¬ opening <:+: lit)
    (hrest : rest.head? ≠ some '{') {r : Resolver} {P : Text → Resolver → Prop} :
    Expands (exec (resolve world (lit ++ rest)) r) P ↔
      Expands (exec (resolve world rest) r) fun text s => P (lit ++ text) s := by
  obtain ⟨hterminated, hparse⟩ := parse_literal_append hlit hrest
  unfold resolve
  rw [expand, expand, hterminated]
  rcases hparse with ⟨hnone, hnone', htail⟩ | ⟨l, name, refs, hrefs, hrefs', htail⟩
  · rw [hnone, hnone', htail]
    cases (parse opening closing rest).terminated with
    | false => simp [Expands, expandRefs]
    | true =>
      show P ([] ++ (lit ++ _)) r ↔ P (lit ++ ([] ++ _)) r
      rfl
  · rw [hrefs, hrefs', htail]
    exact @expands_refs (fun name => lookup world (expand world maxDepth) name [])
      ((l, name) :: refs) (parse opening closing rest).tail (lit ++ rest)
      (parse opening closing rest).terminated lit r P rest

/-- What a template without a brace in front expands to begins as the template does. -/
theorem head_resolve {template text : Text} {r s : Resolver} {c : Char} (hc : c ≠ '{')
    (hhead : template.head? = some c) (h : exec (resolve world template) r = (.ok text, s)) :
    text.head? = some c := by
  obtain ⟨-, values, rfl, hvalues⟩ := expand_ok h
  have hopening : opening ≠ [] := by decide
  have hrender : renderRefs opening closing (parse opening closing template).refs
      ++ (parse opening closing template).tail = template := render_parse hopening template
  rw [← hrender] at hhead
  cases hrefs : (parse opening closing template).refs with
  | nil =>
    rw [hrefs] at hhead
    rw [fill_nil, List.nil_append]
    exact hhead
  | cons ref refs =>
    rw [hrefs] at hhead hvalues
    obtain ⟨l, name⟩ := ref
    cases hvalues with
    | cons _ _ =>
      rw [fill_cons]
      cases l with
      | nil => exact absurd (Option.some.inj hhead).symm hc
      | cons d l => exact hhead

/-! ### Maps of templates -/

/-- A resolver with the setup of `r` makes `t'` of `t`. -/
def Resolved (world : World) (r : Resolver) (t t' : Text) : Prop :=
  ∃ s s', SameSetup r s ∧ exec (resolve world t) s = (.ok t', s')

/-- The values of a key are resolved one by one. -/
theorem resolveValue_ok {value value' : FieldValue} {r r' : Resolver}
    (h : exec (resolveValue world value) r = (.ok value', r')) :
    List.Forall₂ (Resolved world r) value.toList value'.toList := by
  cases value with
  | one value =>
    obtain ⟨v, hv, rfl⟩ := exec_bind_pure_eq_ok.mp h
    exact List.Forall₂.cons ⟨r, r', sameSetup_refl r, hv⟩ List.Forall₂.nil
  | many list =>
    obtain ⟨vs, hvs, rfl⟩ := exec_bind_pure_eq_ok.mp h
    exact exec_mapM_eq_ok sameSetup_refl sameSetup_trans keeps_resolve hvs

/-- The entries of a resolved map are the resolved entries, collected. -/
theorem resolveMap_ok {map map' : FieldMap} {r r' : Resolver}
    (h : exec (resolveMap world map) r = (.ok map', r')) :
    ∃ entries, map' = ⟨SortedMap.ofList entries⟩ ∧
      List.Forall₂ (fun e e' => Resolved world r e.1 e'.1 ∧
        List.Forall₂ (Resolved world r) e.2.toList e'.2.toList) map.fields.entries entries := by
  obtain ⟨entries, hentries, rfl⟩ := exec_bind_pure_eq_ok.mp h
  refine ⟨entries, rfl, ?_⟩
  refine (exec_mapM_eq_ok sameSetup_refl sameSetup_trans kept_sameSetup.resolveEntry
    hentries).imp ?_
  rintro e e' ⟨s, s', hs, hrun⟩
  obtain ⟨key, t, hkey, hrest⟩ := exec_bind_eq_ok.mp hrun
  obtain ⟨value, hvalue, rfl⟩ := exec_bind_pure_eq_ok.mp hrest
  have hst : SameSetup s t := by
    have hk : SameSetup s (exec (resolve world e.1) s).2 := keeps_resolve e.1 s
    rwa [hkey] at hk
  refine ⟨⟨s, t, hs, hkey⟩, (resolveValue_ok hvalue).imp ?_⟩
  rintro v v' ⟨u, u', hu, hv⟩
  exact ⟨u, u', sameSetup_trans _ _ _ (sameSetup_trans _ _ _ hs hst) hu, hv⟩

/-- A map without a template resolves to itself and changes nothing. -/
theorem resolveMap_clean {map : FieldMap}
    (h : ∀ e ∈ map.fields.entries, ¬ opening <:+: e.1 ∧ ∀ v ∈ e.2.toList, ¬ opening <:+: v)
    (r : Resolver) : exec (resolveMap world map) r = (.ok map, r) := by
  -- A value without a template is one text or a list of texts, and both resolve to themselves.
  have hvalue : ∀ value : FieldValue, (∀ v ∈ value.toList, ¬ opening <:+: v) →
      exec (resolveValue world value) r = (.ok value, r) := by
    intro value hclean
    cases value with
    | one value =>
      exact exec_bind_pure_eq_ok.mpr ⟨value, resolve_clean (hclean value (by simp
        [FieldValue.toList])) r, rfl⟩
    | many list =>
      have hlist : exec (list.mapM (resolve world)) r = (.ok (list.map id), r) :=
        exec_mapM_of_forall fun v hv => resolve_clean (hclean v hv) r
      rw [List.map_id] at hlist
      exact exec_bind_pure_eq_ok.mpr ⟨list, hlist, rfl⟩
  have hentry : ∀ e ∈ map.fields.entries, exec (do
      let key ← resolve world e.1
      let value ← resolveValue world e.2
      pure (key, value)) r = (.ok (id e), r) := by
    intro e he
    rw [exec_bind_ok (resolve_clean (h e he).1 r), exec_bind_ok (hvalue e.2 (h e he).2)]
    rfl
  -- The entries come back as they were, and they are sorted already.
  refine exec_bind_pure_eq_ok.mpr ⟨map.fields.entries, ?_, ?_⟩
  · simpa using exec_mapM_of_forall hentry
  · have hentries := SortedMap.entries_ofList_of_sorted map.fields.sorted
    obtain ⟨⟨entries, hsorted⟩⟩ := map
    simp only [FieldMap.mk.injEq]
    cases hof : SortedMap.ofList entries
    simp only [hof] at hentries
    simp only [hentries]

/-! ### A resolver that can only generate -/

/-- No variables, no secrets, no process environment. -/
def Bare (r : Resolver) : Prop :=
  r.vars = .empty ∧ r.secrets = (fun _ => none) ∧ r.allowProcessEnv = false

/-- A new resolver is bare. -/
theorem bare_new : Bare new := ⟨rfl, rfl, rfl⟩

/-- It stays so while its setup does. -/
theorem Bare.of_sameSetup {r s : Resolver} (h : Bare r) (hs : SameSetup r s) : Bare s :=
  ⟨hs.1.trans h.1, hs.2.1.trans h.2.1, hs.2.2.trans h.2.2⟩

/-- The only values a bare resolver finds are generated. -/
theorem lookup_bare {ex : Text → List Text → ResolverM Text} {name value : Text}
    {stack : List Text} {r r' : Resolver} (hr : Bare r)
    (h : exec (lookup world ex name stack) r = (.ok value, r')) :
    ∃ draw, generatedValue world draw name = some value := by
  rcases lookup_ok h with ⟨key, hkey⟩ | ⟨hallow, -⟩ | hgen | ⟨-, raw, hraw, -⟩
  · rw [hr.2.1] at hkey
    simp at hkey
  · rw [hr.2.2] at hallow
    simp at hallow
  · exact hgen
  · rw [hr.1] at hraw
    simp at hraw

/-- Each reference of a template costs a bare resolver two braces. -/
theorem count_resolve_bare {template result : Text} {r r' : Resolver} (hr : Bare r)
    (h : exec (resolve world template) r = (.ok result, r')) :
    result.count '{' + 2 * (parse opening closing template).refs.length ≤ template.count '{' := by
  obtain ⟨-, values, hresult, hfrom⟩ := expand_ok h
  have hclean : ∀ value ∈ values, '{' ∉ value := by
    intro value hv hmem
    obtain ⟨ref, -, s, s', hs, hlook⟩ := forall₂_exists_of_mem_right hfrom hv
    obtain ⟨draw, hgen⟩ := lookup_bare (hr.of_sameSetup hs) hlook
    rcases mem_generatedValue hgen hmem with h' | h'
    · exact absurd h' (by decide)
    · exact absurd h' (by decide)
  have hcount : (fill (parse opening closing template).refs values).count '{'
      + (parse opening closing template).refs.length * opening.count '{'
        ≤ (renderRefs opening closing (parse opening closing template).refs).count '{' :=
    count_fill_le '{' _ values hfrom.length_eq.symm hclean
  have hrender : renderRefs opening closing (parse opening closing template).refs
      ++ (parse opening closing template).tail = template := render_parse (by decide) template
  have htwo : opening.count '{' = 2 := rfl
  rw [htwo] at hcount
  conv_rhs => rw [← hrender]
  rw [hresult, List.count_append, List.count_append]
  omega

/-- A bare resolver never makes a text with a reference out of itself. -/
theorem count_resolve_bare_lt {template result : Text} {r r' : Resolver} (hr : Bare r)
    (h : exec (resolve world template) r = (.ok result, r')) (hdirty : opening <:+: template) :
    result.count '{' < template.count '{' := by
  have hcount := count_resolve_bare hr h
  have hne : (parse opening closing template).refs ≠ [] :=
    refs_ne_nil (by decide) hdirty (expand_ok h).1
  have hpos := List.length_pos_iff.mpr hne
  omega

/-! ### A resolver with one variable -/

/-- One variable, and nothing else but generated values. -/
def OnlyVar (name value : Text) (r : Resolver) : Prop :=
  (∀ k v, r.vars.get? k = some v → k = name ∧ v = value) ∧
    r.secrets = (fun _ => none) ∧ r.allowProcessEnv = false

/-- A new resolver with one variable. -/
theorem onlyVar_new (name value : Text) : OnlyVar name value (new.withVars [(name, value)]) := by
  refine ⟨?_, rfl, rfl⟩
  intro k v hget
  have hinsert : (SortedMap.empty.insert name value).get? k = some v := hget
  rw [SortedMap.get?_insert] at hinsert
  split at hinsert
  · rename_i hk
    exact ⟨hk, (Option.some.inj hinsert).symm⟩
  · simp at hinsert

/-- It has this variable only, while its setup stays. -/
theorem OnlyVar.of_sameSetup {name value : Text} {r s : Resolver} (h : OnlyVar name value r)
    (hs : SameSetup r s) : OnlyVar name value s := by
  obtain ⟨hvars, hsecrets, henv⟩ := hs
  refine ⟨?_, hsecrets.trans h.2.1, henv.trans h.2.2⟩
  rw [hvars]
  exact h.1

/-- The values such a resolver finds are generated, or the value of its variable. -/
theorem lookup_onlyVar {name value key v : Text} {levels : Nat} {stack : List Text}
    {r r' : Resolver} (hr : OnlyVar name value r) (hclean : ¬ opening <:+: value)
    (h : exec (lookup world (expand world (levels + 1)) key stack) r = (.ok v, r')) :
    (key ∈ generatedNames ∧ ∃ draw, generatedValue world draw key = some v) ∨
      (key = name ∧ v = value) := by
  rcases lookup_ok h with ⟨key, hkey⟩ | ⟨hallow, -⟩ | ⟨draw, hgen⟩ | ⟨-, raw, hraw, -, hex⟩
  · rw [hr.2.1] at hkey
    simp at hkey
  · rw [hr.2.2] at hallow
    simp at hallow
  · refine Or.inl ⟨?_, draw, hgen⟩
    by_contra hno
    rw [generatedValue_eq_none_iff.mpr hno] at hgen
    simp at hgen
  · obtain ⟨rfl, rfl⟩ := hr.1 key raw hraw
    rw [expand_clean hclean] at hex
    exact Or.inr ⟨rfl, by simpa using (congrArg Prod.fst hex).symm⟩

/-- What a resolver with one variable makes of a text, when the value holds slashes and the name
does not: no fewer slashes; with as many, no more braces; and with as many of these too, the
text holds no template and is not changed. -/
theorem resolve_onlyVar {name value t t' : Text} {r r' : Resolver} (hr : OnlyVar name value r)
    (hclean : ¬ opening <:+: value) (hslash : '/' ∈ value) (hname : '/' ∉ name)
    (h : exec (resolve world t) r = (.ok t', r')) :
    t.count '/' ≤ t'.count '/' ∧ (t.count '/' = t'.count '/' →
      t'.count '{' ≤ t.count '{' ∧ (t'.count '{' = t.count '{' →
        ¬ opening <:+: t ∧ t' = t)) := by
  obtain ⟨hterm, values, hresult, hfrom⟩ := expand_ok h
  have hrender : renderRefs opening closing (parse opening closing t).refs
      ++ (parse opening closing t).tail = t := render_parse (by decide) t
  have hkey : ∀ ref ∈ (parse opening closing t).refs, ref.2.count '/' = 0 := by
    intro ref href
    obtain ⟨v, -, s, s', hs, hlook⟩ := forall₂_exists_of_mem_left hfrom href
    rw [List.count_eq_zero]
    intro hmem
    have htrim : '/' ∈ trim ref.2 := (isWhitespace_or_mem_trim hmem).resolve_left (by decide)
    rcases lookup_onlyVar (hr.of_sameSetup hs) hclean hlook with ⟨hgen, -⟩ | ⟨hvar, -⟩
    · have hall : ∀ g ∈ generatedNames, '/' ∉ g := by decide
      exact hall _ hgen htrim
    · rw [hvar] at htrim
      exact hname htrim
  have hkeys : ((parse opening closing t).refs.map fun ref => ref.2.count '/').sum = 0 := by
    rw [List.sum_eq_zero_iff_forall_eq_nat]
    intro n hn
    obtain ⟨ref, href, rfl⟩ := List.mem_map.mp hn
    exact hkey ref href
  have hslashes : (fill (parse opening closing t).refs values).count '/'
      + ((parse opening closing t).refs.map fun ref => ref.2.count '/').sum
        = (renderRefs opening closing (parse opening closing t).refs).count '/'
          + (values.map (List.count '/')).sum :=
    count_fill (by decide) (by decide) _ values hfrom.length_eq.symm
  have htext := congrArg (List.count '/') hrender
  rw [List.count_append] at htext
  rw [hresult, List.count_append, List.count_append]
  refine ⟨by omega, ?_⟩
  intro heq
  -- No reference was to the variable, so every value was generated and has no brace.
  have hgenerated : ∀ v ∈ values, '{' ∉ v := by
    intro v hv hmem
    have hzero : v.count '/' = 0 := by
      have hsum : (values.map (List.count '/')).sum = 0 := by omega
      exact List.sum_eq_zero_iff_forall_eq_nat.mp hsum _ (List.mem_map_of_mem hv)
    obtain ⟨ref, -, s, s', hs, hlook⟩ := forall₂_exists_of_mem_right hfrom hv
    rcases lookup_onlyVar (hr.of_sameSetup hs) hclean hlook with ⟨-, draw, hgen⟩ | ⟨-, rfl⟩
    · rcases mem_generatedValue hgen hmem with h' | h'
      · exact absurd h' (by decide)
      · exact absurd h' (by decide)
    · exact List.count_eq_zero.mp hzero hslash
  have hbraces : (fill (parse opening closing t).refs values).count '{'
      + (parse opening closing t).refs.length * opening.count '{'
        ≤ (renderRefs opening closing (parse opening closing t).refs).count '{' :=
    count_fill_le '{' _ values hfrom.length_eq.symm hgenerated
  have htwo : opening.count '{' = 2 := rfl
  have htext' := congrArg (List.count '{') hrender
  rw [List.count_append] at htext'
  rw [htwo] at hbraces
  refine ⟨by omega, ?_⟩
  intro heq'
  have hnil : (parse opening closing t).refs = [] := by
    rw [← List.length_eq_zero_iff]
    omega
  have hno : ¬ opening <:+: t := fun hdirty => refs_ne_nil (by decide) hdirty hterm hnil
  rw [resolve_clean hno] at h
  refine ⟨hno, ?_⟩
  rw [← hresult]
  exact (by simpa using (congrArg Prod.fst h) : t = t').symm

end Expand

end Resolver

end Gabriel.Core
