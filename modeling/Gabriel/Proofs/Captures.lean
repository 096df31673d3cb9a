import Gabriel.Engine.Captures
import Gabriel.Proofs.Vars

/-!
# `Gabriel.Proofs.Captures`: is response data ever a template?

`apply_captures` stores the captured texts in the variable map, and the resolver expands the
value of every variable. So a captured text is data exactly when it is no template.

A name is readable when some reference reads it: it belongs to no namespace, it has no white
space around it and it does not hold `}}`. Texts under other names are never looked up.

For clean texts the two runs go in lockstep: the resolvers differ in the captured texts only
(`Alike`), and none of these looks anything up. For the other direction, take a captured text with a
`{{`. If it resolves, then some captured text with a `{{` has references to clean texts only, by
induction on the levels left, and such a text never resolves to itself. The theorems:

* `applyCaptures_eq`, `get?_applyCaptures`: what the captures add to the variables.
* `lockstep_expand`: the expansion of one template from resolvers that are alike looks up the same
  names; `alike_resolveAll`: so do any later templates.
* `exists_shallow`, `expand_ne_of_shallow`: the two steps of the other direction.
* `responseIsData_iff`: for two responses that bind the same variables, every reference to a
  captured variable gives the captured text, and no later template looks anything up that depends on
  the text, exactly when no captured text with a readable name holds a `{{`.
-/

set_option autoImplicit false

namespace Gabriel.Engine

open Gabriel.Core Gabriel.Core.Resolver Text Fallible

/-- The text that a variable is bound to in the end. -/
def boundText (platform : Platform) (captures : List VarCapture) (response : ExecutedResponse)
    (v : Text) : Option Text :=
  (SortedMap.ofList (capturedTexts platform captures response)).get? v

/-- A variable that a reference can name. -/
def Readable (v : Text) : Prop := IsVariableName v ∧ trim v = v ∧ ¬ closing <:+: v

/-- A template that is one reference to a variable, white space inside the braces allowed. -/
def IsReferenceTo (template v : Text) : Prop :=
  IsVariableName v ∧ ∃ name, trim name = v ∧
    Template.parse opening closing template = ⟨[([], name)], [], true⟩

/-- The resolver after a list of templates, one after the other, failed ones included. -/
def resolveAll (world : World) (templates : List Text) (r : Resolver) : Resolver :=
  templates.foldl (fun s template => (exec (resolve world template) s).2) r

/-- The captured texts of two responses are data: every reference to a captured variable gives
the captured text, and later templates look up the same names after both. -/
def ResponseIsData (platform : Platform) (spec : RequestSpec)
    (response₁ response₂ : ExecutedResponse) : Prop :=
  ∀ (world : World) (r : Resolver),
    (∀ response ∈ [response₁, response₂], ∀ v text,
      boundText platform spec.captures response v = some text →
      ∀ template, IsReferenceTo template v →
        (exec (resolve world template) (applyCaptures platform spec response r).1).1
          = .ok text) ∧
    ∀ templates,
      (resolveAll world templates (applyCaptures platform spec response₁ r).1).lookups
        = (resolveAll world templates (applyCaptures platform spec response₂ r).1).lookups

/-- No captured text with a readable name holds a `{{`. -/
def TextsClean (platform : Platform) (captures : List VarCapture)
    (response : ExecutedResponse) : Prop :=
  ∀ v text, boundText platform captures response v = some text → Readable v →
    ¬ opening <:+: text

/-! ### Binding the texts -/

/-- One more binding. -/
theorem withVars_concat (r : Resolver) (vars : List (Text × Text)) (name value : Text) :
    r.withVars (vars ++ [(name, value)]) = (r.withVars vars).set name value := by
  unfold withVars Resolver.set SortedMap.insertAll
  rw [List.foldl_append]
  rfl

/-- Binding the captures adds the captured texts to the variables. -/
theorem applyCaptures_eq (platform : Platform) (spec : RequestSpec) (response : ExecutedResponse)
    (r : Resolver) :
    applyCaptures platform spec response r
      = (r.withVars (capturedTexts platform spec.captures response),
        capturedTexts platform spec.captures response) := by
  unfold applyCaptures capturedTexts
  -- The loop has bound and listed what it has seen: induct on the captures from the last one back.
  generalize spec.captures = captures
  induction captures using List.reverseRecOn with
  | nil => rfl
  | append_singleton captures capture ih =>
    rw [List.foldl_append, List.foldl_cons, List.foldl_nil, ih, List.filterMap_append]
    cases hvalue : captureValue platform response capture with
    | none =>
      rw [List.filterMap_cons_none (by rw [hvalue]; rfl), List.filterMap_nil, List.append_nil]
    | some value =>
      rw [List.filterMap_cons_some (by rw [hvalue]; rfl), List.filterMap_nil]
      dsimp only
      rw [withVars_concat]

/-- A variable after the captures: the captured text, or the value it had. -/
theorem get?_applyCaptures (platform : Platform) (spec : RequestSpec)
    (response : ExecutedResponse) (r : Resolver) (v : Text) :
    (applyCaptures platform spec response r).1.vars.get? v
      = (boundText platform spec.captures response v).or (r.vars.get? v) := by
  rw [applyCaptures_eq]
  exact SortedMap.get?_insertAll _ _ _

/-- A reference names a readable variable. -/
theorem readable_of_reference {template v : Text} (h : IsReferenceTo template v) : Readable v := by
  obtain ⟨hvar, name, rfl, hparse⟩ := h
  refine ⟨hvar, trim_trim name, ?_⟩
  have hno : ∀ ref ∈ (Template.parse opening closing template).refs, ¬ closing <:+: ref.2 :=
    Template.not_closing_of_ref (by decide) (by decide) template
  rw [hparse] at hno
  exact fun hdirty => hno _ List.mem_cons_self (hdirty.trans (isInfix_trim name))

/-- Every readable variable has a reference. -/
theorem exists_reference {v : Text} (h : Readable v) : ∃ template, IsReferenceTo template v := by
  obtain ⟨hvar, htrim, hno⟩ := h
  have hpad : ¬ closing <:+: ' ' :: v ++ [' '] := by
    have hspace : ' ' ∉ closing := by decide
    have hnil : ¬ closing <:+: [] := by decide
    have hright : ¬ closing <:+: v ++ ' ' :: [] := by
      rw [infix_append_cons_iff hspace, not_or]
      exact ⟨hno, hnil⟩
    show ¬ closing <:+: [] ++ ' ' :: (v ++ ' ' :: [])
    rw [infix_append_cons_iff hspace, not_or]
    exact ⟨hnil, hright⟩
  refine ⟨_, hvar, ' ' :: v ++ [' '], by rw [trim_pad, htrim], parse_reference hpad ?_ ?_⟩
  · rw [List.getLast?_concat]
    decide
  · exact (by decide : ¬ opening <:+: [])

/-! ### Clean texts: two runs in lockstep -/

section Lockstep

/-- Two resolvers that differ in the clean values of some readable variables only. -/
structure Alike (r s : Resolver) : Prop where
  secrets : r.secrets = s.secrets
  allowProcessEnv : r.allowProcessEnv = s.allowProcessEnv
  usedSecrets : r.usedSecrets = s.usedSecrets
  draws : r.draws = s.draws
  lookups : r.lookups = s.lookups
  vars : ∀ v, Readable v → r.vars.get? v = s.vars.get? v ∨
    ∃ a b, r.vars.get? v = some a ∧ s.vars.get? v = some b ∧ ¬ opening <:+: a ∧ ¬ opening <:+: b

/-- A lookup that is noted on both sides leaves them alike. -/
theorem Alike.noteLookup {r s : Resolver} (h : Alike r s) (name : Text) :
    Alike (r.noteLookup name) (s.noteLookup name) :=
  ⟨h.secrets, h.allowProcessEnv, h.usedSecrets, h.draws,
    congrArg (· ++ [name]) h.lookups, h.vars⟩

/-- So does a secret that is noted. -/
theorem Alike.noteSecret {r s : Resolver} (h : Alike r s) (value : Text) :
    Alike (r.noteSecret value) (s.noteSecret value) := by
  unfold Resolver.noteSecret
  split
  · exact h
  · exact ⟨h.secrets, h.allowProcessEnv, congrArg (·.insert value ()) h.usedSecrets, h.draws,
      h.lookups, h.vars⟩

/-- And so does a draw. -/
theorem Alike.nextDraw {r s : Resolver} (h : Alike r s) : Alike r.nextDraw s.nextDraw :=
  ⟨h.secrets, h.allowProcessEnv, h.usedSecrets, congrArg (· + 1) h.draws, h.lookups, h.vars⟩

variable {world : World}

/-- The results of the two runs may be any texts. -/
def AnyTexts (_ _ : Text) : Prop := True

/-- One lookup, when the expansions it starts go in lockstep. -/
theorem lockstep_lookup {ex : Text → List Text → ResolverM Text} {name : Text}
    {stack : List Text} (hname : ¬ closing <:+: name)
    (hsame : ∀ t st, Lockstep Alike AnyTexts (ex t st) (ex t st))
    (hclean : ∀ a b st, st ≠ [] → ¬ opening <:+: a → ¬ opening <:+: b →
      Lockstep Alike AnyTexts (ex a st) (ex b st)) :
    Lockstep Alike AnyTexts (lookup world ex (trim name) stack)
      (lookup world ex (trim name) stack) := by
  intro r s hrs
  have hnote := hrs.noteLookup (trim name)
  -- A name is a secret, a variable of the process, a generated value or a variable.
  rcases name_cases world r.draws (trim name) with
    ⟨key, hs⟩ | ⟨hs, key, he⟩ | ⟨hs, he, generated, hg⟩ | hvar
  · rw [exec_lookup_secret hs, exec_lookup_secret hs, ← hrs.secrets]
    cases r.secrets (trim key) with
    | none => exact ⟨rfl, hnote⟩
    | some value => exact ⟨trivial, hnote.noteSecret value⟩
  · rw [exec_lookup_env hs he, exec_lookup_env hs he, ← hrs.allowProcessEnv]
    cases r.allowProcessEnv with
    | false => exact ⟨rfl, hnote⟩
    | true =>
      cases world.env (trim key) with
      | none => exact ⟨rfl, hnote⟩
      | some value => exact ⟨trivial, hnote⟩
  · have hg' : generatedValue world s.draws (trim name) = some generated := by
      rw [← hrs.draws]
      exact hg
    rw [exec_lookup_generated r hs he hg, exec_lookup_generated s hs he hg']
    exact ⟨trivial, hnote.nextDraw⟩
  · have hread : Readable (trim name) :=
      ⟨hvar, trim_trim name, fun hdirty => hname (hdirty.trans (isInfix_trim name))⟩
    -- Only the variables can differ between the two resolvers.
    rw [exec_lookup_variable hvar, exec_lookup_variable hvar]
    rcases hrs.vars _ hread with hget | ⟨a, b, ha, hb, hca, hcb⟩
    · -- The same value on both sides.
      rw [← hget]
      cases r.vars.get? (trim name) with
      | none => exact ⟨rfl, hnote⟩
      | some raw =>
        dsimp only
        split
        · exact ⟨rfl, hnote⟩
        · exact hsame raw _ _ _ hnote
    · -- Two captured texts: neither looks anything up.
      rw [ha, hb]
      dsimp only
      split
      · exact ⟨rfl, hnote⟩
      · exact hclean a b _ (by simp) hca hcb _ _ hnote

/-- The loop over the references, whatever was written so far. -/
theorem lockstep_expandRefs {look : Text → ResolverM Text} {refs : List (Text × Text)}
    (h : ∀ ref ∈ refs, Lockstep Alike AnyTexts (look (trim ref.2)) (look (trim ref.2)))
    (out out' : Text) :
    Lockstep Alike AnyTexts (expandRefs look refs out) (expandRefs look refs out') := by
  induction refs generalizing out out' with
  | nil => exact lockstep_pure trivial
  | cons ref refs ih =>
    refine lockstep_bind (h ref List.mem_cons_self) ?_
    intro a b _
    exact ih (fun ref' href' => h ref' (List.mem_cons_of_mem _ href')) _ _

/-- The expansion of one template from resolvers that are alike looks up the same names. -/
theorem lockstep_expand (levels : Nat) (template : Text) (stack : List Text) :
    Lockstep Alike AnyTexts (expand world levels template stack)
      (expand world levels template stack) := by
  induction levels generalizing template stack with
  | zero => exact lockstep_throw _ _
  | succ levels ih =>
    refine lockstep_bind (lockstep_expandRefs ?_ _ _) ?_
    · intro ref href
      have hname : ¬ closing <:+: ref.2 :=
        Template.not_closing_of_ref (by decide) (by decide) template ref href
      refine lockstep_lookup hname ih ?_
      intro a b st hst ha hb
      cases levels with
      | zero =>
        -- No level is left: the failure names the variable, not its text.
        obtain ⟨v, hv⟩ := Option.ne_none_iff_exists.mp
          (fun hnone => hst (List.getLast?_eq_none_iff.mp hnone))
        show Lockstep Alike AnyTexts
          (throw (CoreError.variableRecursion (st.getLast?.getD a)) : ResolverM Text)
          (throw (CoreError.variableRecursion (st.getLast?.getD b)) : ResolverM Text)
        rw [← hv]
        exact lockstep_throw _ _
      | succ levels =>
        intro r s hrs
        rw [expand_clean ha, expand_clean hb]
        exact ⟨trivial, hrs⟩
    · intro out out' _
      split
      · exact lockstep_pure trivial
      · exact lockstep_throw _ _

/-- Later templates keep two resolvers alike. -/
theorem alike_resolveAll (templates : List Text) {r s : Resolver} (h : Alike r s) :
    Alike (resolveAll world templates r) (resolveAll world templates s) := by
  induction templates generalizing r s with
  | nil => exact h
  | cons template templates ih => exact ih (lockstep_expand _ template [] r s h).states

end Lockstep

/-! ### A text with a template never stays -/

section Shallow

variable {world : World}

/-- No secrets and no process environment: every value is generated or a variable's. -/
def VarsOnly (r : Resolver) : Prop := r.secrets = (fun _ => none) ∧ r.allowProcessEnv = false

/-- A resolver has variables only, while its setup stays. -/
theorem VarsOnly.of_sameSetup {r s : Resolver} (h : VarsOnly r) (hs : SameSetup r s) :
    VarsOnly s := ⟨hs.2.1.trans h.1, hs.2.2.trans h.2⟩

/-- What such a resolver finds under a name: a generated value, or the expansion of a
variable. -/
theorem lookup_varsOnly {ex : Text → List Text → ResolverM Text} {name value : Text}
    {stack : List Text} {r r' : Resolver} (hr : VarsOnly r)
    (h : exec (lookup world ex name stack) r = (.ok value, r')) :
    (name ∈ generatedNames ∧ ¬ opening <:+: value) ∨
    (IsVariableName name ∧ ∃ raw, r.vars.get? name = some raw ∧
      exec (ex raw (stack ++ [name])) (r.noteLookup name) = (.ok value, r')) := by
  rcases lookup_ok h with ⟨key, hkey⟩ | ⟨hallow, -⟩ | ⟨draw, hgen⟩ | ⟨hvar, raw, hraw, -, hex⟩
  · rw [hr.1] at hkey
    exact absurd hkey (by simp)
  · rw [hr.2] at hallow
    exact absurd hallow (by simp)
  · refine Or.inl ⟨?_, ?_⟩
    · by_contra hno
      rw [generatedValue_eq_none_iff.mpr hno] at hgen
      exact absurd hgen (by simp)
    · intro hdirty
      have hbrace : '{' ∈ value := hdirty.subset (by decide)
      rcases mem_generatedValue hgen hbrace with h' | h'
      · exact absurd h' (by decide)
      · exact absurd h' (by decide)
  · exact Or.inr ⟨hvar, raw, hraw, hex⟩

/-- A name whose value holds no template: generated, or a variable with a clean text. -/
def ShallowName (r : Resolver) (name : Text) : Prop :=
  name ∈ generatedNames ∨ ∃ text, r.vars.get? name = some text ∧ ¬ opening <:+: text

/-- When a text with a template can be expanded, some readable variable has a text with a
template whose references are all shallow: follow a reference that is not, with one level less
each time. -/
theorem exists_shallow {r : Resolver} (hr : VarsOnly r) (levels : Nat) {v text result : Text}
    {stack : List Text} {s s' : Resolver} (hs : SameSetup r s) (hv : Readable v)
    (hget : r.vars.get? v = some text) (hdirty : opening <:+: text)
    (h : exec (expand world levels text stack) s = (.ok result, s')) :
    ∃ w text', Readable w ∧ r.vars.get? w = some text' ∧ opening <:+: text' ∧
      ∀ ref ∈ (Template.parse opening closing text').refs, ShallowName r (trim ref.2) := by
  induction levels generalizing v text result stack s s' with
  | zero => exact absurd (congrArg Prod.fst h) (by simp [expand])
  | succ levels ih =>
    -- If some reference is deep, the variable it names has a template of its own, one level down.
    by_cases hall : ∀ ref ∈ (Template.parse opening closing text).refs,
        ShallowName r (trim ref.2)
    · exact ⟨v, text, hv, hget, hdirty, hall⟩
    · obtain ⟨ref, href, hdeep⟩ : ∃ ref ∈ (Template.parse opening closing text).refs,
          ¬ ShallowName r (trim ref.2) := by simpa using hall
      obtain ⟨-, values, -, hfrom⟩ := expand_ok h
      obtain ⟨value, -, t, t', ht, hlook⟩ := forall₂_exists_of_mem_left hfrom href
      have hrt := sameSetup_trans _ _ _ hs ht
      rcases lookup_varsOnly (hr.of_sameSetup hrt) hlook with ⟨hgen, -⟩ | ⟨hvar, raw, hraw, hex⟩
      · exact absurd (Or.inl hgen) hdeep
      · rw [hrt.1] at hraw
        -- A deep reference with a clean text would be shallow, so the text has a template.
        have hraw' : opening <:+: raw := by
          by_contra hclean
          exact hdeep (Or.inr ⟨raw, hraw, hclean⟩)
        have hname : ¬ closing <:+: ref.2 :=
          Template.not_closing_of_ref (by decide) (by decide) text ref href
        have hread : Readable (trim ref.2) :=
          ⟨hvar, trim_trim _, fun hinf => hname (hinf.trans (isInfix_trim _))⟩
        have hnote : SameSetup t (t.noteLookup (trim ref.2)) := ⟨rfl, rfl, rfl⟩
        exact ih (sameSetup_trans _ _ _ hrt hnote) hread hraw hraw' hex

/-- A text with a template whose references are shallow never resolves to itself. -/
theorem expand_ne_of_shallow {r : Resolver} (hr : VarsOnly r) {levels : Nat} {text : Text}
    {stack : List Text} {s s' : Resolver} (hs : SameSetup r s) (hdirty : opening <:+: text)
    (hall : ∀ ref ∈ (Template.parse opening closing text).refs, ShallowName r (trim ref.2)) :
    exec (expand world (levels + 2) text stack) s ≠ (.ok text, s') := by
  intro h
  obtain ⟨hterm, values, hresult, hfrom⟩ := expand_ok h
  -- Every value comes from a generated name or a clean variable, so no value has a template.
  have hclean : ∀ value ∈ values, ¬ opening <:+: value := by
    intro value hvalue
    obtain ⟨ref, href, t, t', ht, hlook⟩ := forall₂_exists_of_mem_right hfrom hvalue
    have hrt := sameSetup_trans _ _ _ hs ht
    rcases lookup_varsOnly (hr.of_sameSetup hrt) hlook with ⟨-, hgen⟩ | ⟨hvar, raw, hraw, hex⟩
    · exact hgen
    · rw [hrt.1] at hraw
      rcases hall ref href with hgen | ⟨text', htext', hclean'⟩
      · exact absurd hgen hvar.2.2
      · obtain rfl : raw = text' := Option.some.inj (hraw.symm.trans htext')
        rw [expand_clean hclean'] at hex
        have hvalueEq : raw = value := by simpa using congrArg Prod.fst hex
        rwa [← hvalueEq]
  -- If the result were the text, the filled references would spell the templates again.
  have hrender : Template.renderRefs opening closing (Template.parse opening closing text).refs
      ++ (Template.parse opening closing text).tail = text := Template.render_parse (by decide) text
  have hfill : Template.fill (Template.parse opening closing text).refs values
      ++ (Template.parse opening closing text).tail
        = [] ++ (Template.renderRefs opening closing (Template.parse opening closing text).refs
          ++ (Template.parse opening closing text).tail) := by
    rw [← hresult, List.nil_append, hrender]
  have hnil : (Template.parse opening closing text).refs = [] :=
    Template.refs_eq_nil_of_fill_eq _ values hfrom.length_eq.symm hclean [] _ hfill
  exact Template.refs_ne_nil (by decide) hdirty hterm hnil

end Shallow

/-! ### The two directions -/

/-- References that give the captured texts back, for a resolver that knows nothing else, are to
texts without a template. -/
theorem textsClean_of_exact {platform : Platform} {spec : RequestSpec}
    {response : ExecutedResponse} {world : World}
    (h : ∀ v text, boundText platform spec.captures response v = some text →
      ∀ template, IsReferenceTo template v →
        (exec (resolve world template) (applyCaptures platform spec response new).1).1
          = .ok text) :
    TextsClean platform spec.captures response := by
  intro v text hbound hread hdirty
  have hvars : VarsOnly (applyCaptures platform spec response new).1 := by
    rw [applyCaptures_eq]
    exact ⟨rfl, rfl⟩
  have hget : ∀ w text', (applyCaptures platform spec response new).1.vars.get? w = some text' →
      boundText platform spec.captures response w = some text' := by
    intro w text' hw
    rw [get?_applyCaptures, Option.or_eq_some_iff] at hw
    rcases hw with hw | ⟨-, hw⟩
    · exact hw
    · exact absurd hw (by simp [Resolver.new])
  -- A reference to a captured variable expands its text one level below.
  have hinner : ∀ w text', boundText platform spec.captures response w = some text' →
      Readable w → ∃ s s', SameSetup (applyCaptures platform spec response new).1 s ∧
        exec (expand world maxDepth text' [w]) s = (.ok text', s') := by
    intro w text' hw hreadw
    obtain ⟨template, href⟩ := exists_reference hreadw
    have hexact := h w text' hw template href
    obtain ⟨hvar, name, rfl, hparse⟩ := href
    have hvalue : (applyCaptures platform spec response new).1.vars.get? (trim name)
        = some text' := by
      rw [get?_applyCaptures, hw]
      rfl
    rw [exec_resolve_reference hparse, exec_lookup_variable hvar, hvalue] at hexact
    dsimp only at hexact
    rw [if_neg List.not_mem_nil, List.nil_append] at hexact
    rcases hrun : exec (expand world maxDepth text' [trim name])
      ((applyCaptures platform spec response new).1.noteLookup (trim name)) with ⟨q, s'⟩
    rw [hrun] at hexact
    cases q with
    | error e => exact absurd hexact (by simp)
    | ok value =>
      have hvalueEq : value = text' := by simpa using hexact
      rw [hvalueEq] at hrun
      exact ⟨(applyCaptures platform spec response new).1.noteLookup (trim name), s',
        ⟨rfl, rfl, rfl⟩, hrun⟩
  have htop : (applyCaptures platform spec response new).1.vars.get? v = some text := by
    rw [get?_applyCaptures, hbound]
    rfl
  obtain ⟨s, s', hs, hrun⟩ := hinner v text hbound hread
  obtain ⟨w, text', hreadw, hw, hdirty', hall⟩ :=
    exists_shallow hvars maxDepth hs hread htop hdirty hrun
  obtain ⟨t, t', ht, hrun'⟩ := hinner w text' (hget w text' hw) hreadw
  exact expand_ne_of_shallow hvars ht hdirty' hall hrun'

/-- A reference to a captured text without a template gives the text. -/
theorem exact_of_textsClean {platform : Platform} {spec : RequestSpec}
    {response : ExecutedResponse} (hclean : TextsClean platform spec.captures response)
    (world : World) (r : Resolver) {v text template : Text}
    (hbound : boundText platform spec.captures response v = some text)
    (href : IsReferenceTo template v) :
    (exec (resolve world template) (applyCaptures platform spec response r).1).1 = .ok text := by
  have htext := hclean v text hbound (readable_of_reference href)
  obtain ⟨hvar, name, rfl, hparse⟩ := href
  have hget : (applyCaptures platform spec response r).1.vars.get? (trim name) = some text := by
    rw [get?_applyCaptures, hbound]
    rfl
  rw [resolve_reference hparse hvar htext hget, List.append_nil]

/-- Captured texts without a template, of two responses that bind the same variables, leave
resolvers that are alike. -/
theorem alike_of_textsClean {platform : Platform} {spec : RequestSpec}
    {response₁ response₂ : ExecutedResponse}
    (hvars : (capturedTexts platform spec.captures response₁).map (·.1)
      = (capturedTexts platform spec.captures response₂).map (·.1))
    (h₁ : TextsClean platform spec.captures response₁)
    (h₂ : TextsClean platform spec.captures response₂) (r : Resolver) :
    Alike (applyCaptures platform spec response₁ r).1
      (applyCaptures platform spec response₂ r).1 := by
  refine ⟨?_, ?_, ?_, ?_, ?_, ?_⟩
  all_goals try rw [applyCaptures_eq, applyCaptures_eq]; rfl
  -- A readable variable is bound by both sets of captures or by neither.
  intro v hread
  rw [get?_applyCaptures, get?_applyCaptures]
  have hboth : boundText platform spec.captures response₁ v = none ↔
      boundText platform spec.captures response₂ v = none := by
    rw [boundText, boundText, SortedMap.get?_ofList_eq_none_iff,
      SortedMap.get?_ofList_eq_none_iff, hvars]
  cases hb₁ : boundText platform spec.captures response₁ v with
  | none =>
    rw [hboth.mp hb₁]
    exact Or.inl rfl
  | some a =>
    cases hb₂ : boundText platform spec.captures response₂ v with
    | none =>
      rw [hboth.mpr hb₂] at hb₁
      exact absurd hb₁ (by simp)
    | some b => exact Or.inr ⟨a, b, rfl, rfl, h₁ v a hb₁ hread, h₂ v b hb₂ hread⟩

/-- Two responses that bind the same variables are data exactly when no captured text with a
readable name holds a `{{`. -/
theorem responseIsData_iff (platform : Platform) (spec : RequestSpec)
    (response₁ response₂ : ExecutedResponse)
    (hvars : (capturedTexts platform spec.captures response₁).map (·.1)
      = (capturedTexts platform spec.captures response₂).map (·.1)) :
    ResponseIsData platform spec response₁ response₂ ↔
      TextsClean platform spec.captures response₁
          ∧ TextsClean platform spec.captures response₂ := by
  constructor
  · intro h
    obtain ⟨hexact, -⟩ := h platform.world new
    exact ⟨textsClean_of_exact (hexact response₁ (by simp)),
      textsClean_of_exact (hexact response₂ (by simp))⟩
  · rintro ⟨h₁, h₂⟩ world r
    constructor
    · intro response hmem v text hbound template href
      have hclean : TextsClean platform spec.captures response := by
        rcases List.mem_cons.mp hmem with rfl | hmem
        · exact h₁
        · obtain rfl := List.mem_singleton.mp hmem
          exact h₂
      exact exact_of_textsClean hclean world r hbound href
    · intro templates
      exact (alike_resolveAll templates (alike_of_textsClean hvars h₁ h₂ r)).lookups

/-- Captured texts are clean when none of them holds a `{{`. -/
theorem textsClean_of_forall {platform : Platform} {captures : List VarCapture}
    {response : ExecutedResponse}
    (h : ∀ e ∈ capturedTexts platform captures response, ¬ opening <:+: e.2) :
    TextsClean platform captures response := by
  intro v text hbound _
  exact h _ (SortedMap.mem_of_get?_ofList hbound)

/-- A request that binds a response header to a variable. -/
def tokenSpec : RequestSpec :=
  { RequestSpec.new asciiUpper "GET".toList "https://api.test/login".toList with
    captures := [{ var := "token".toList, source := .header, path := some "X-Token".toList }] }

/-- A response with this header. -/
def tokenResponse (token : Text) : ExecutedResponse :=
  { status := 200, statusText := [], httpVersion := [], body := [], finalUrl := [],
    headers := FieldMap.fromIter [("x-token".toList, token)] }

/-- Two plain tokens are data. -/
theorem responseIsData_iff_tokens : ResponseIsData emptyPlatform tokenSpec
    (tokenResponse "t-1".toList) (tokenResponse "t-2".toList) := by
  refine (responseIsData_iff emptyPlatform tokenSpec (tokenResponse "t-1".toList)
    (tokenResponse "t-2".toList) (by decide)).mpr ⟨?_, ?_⟩
  · exact textsClean_of_forall (by decide)
  · exact textsClean_of_forall (by decide)

/-- A response that names a secret. -/
def secretResponse : ExecutedResponse :=
  tokenResponse "\x7b\x7bsecret:api_token\x7d\x7d".toList

/-- Its text is a template for later requests. -/
theorem not_responseIsData_secret :
    ¬ ResponseIsData emptyPlatform tokenSpec secretResponse (tokenResponse "t-1".toList) := by
  intro h
  obtain ⟨hexact, -⟩ := h emptyPlatform.world new
  have hclean : TextsClean emptyPlatform tokenSpec.captures secretResponse :=
    textsClean_of_exact (hexact secretResponse (by simp))
  exact hclean "token".toList "\x7b\x7bsecret:api_token\x7d\x7d".toList (by decide)
    ⟨by decide, by decide, by decide⟩ (by decide)

end Gabriel.Engine
