import Gabriel.Proofs.Vars

/-!
# `Gabriel.Proofs.Resolve`: what resolving a template means

`Substitutes` is substitution with no limit: a text is read from left to right, the value of a
secret, an environment variable or a generated name is inserted as it is, and the value of a
variable is itself substituted. It is a relation, since the values of variables may refer to each
other in a circle.

`Met` lists what such a substitution comes across: a text that is still to be read, and the
variables whose expansion it belongs to. `Fine` is what the resolver asks of each of these. Nothing
else is asked, for the levels that are left and the variables that are open always add up to the
same number, so the resolver runs out of levels exactly where a chain of variables is too long. The
theorems:

* `reads_unique`, `substitutes_unique`: a text has one first reference, and one result.
* `allFine_iff`: everything behind a text, from the text and what each step leads to.
* `outcome_scan`: one level of the resolver, when the level below it does what it should.
* `outcome_expand`: all levels, by induction on those that are left.
* `resolve_iff`: a template resolves exactly when everything that it comes across is fine, and then
  to its substitution.
-/

set_option autoImplicit false

namespace Gabriel.Core

open Text Fallible Template

/-- Each generated name has one value. -/
def World.Fixed (world : World) : Prop :=
  ∀ draw draw' name, generatedValue world draw name = generatedValue world draw' name

namespace Resolver

/-! ### Unlimited substitution -/

/-- The first reference of a text: the literal text before it, its name and the text after it. -/
structure Reads (t lit name rest : Text) : Prop where
  cut : ∃ after, splitOnce opening t = some (lit, after) ∧
    splitOnce closing after = some (name, rest)

/-- The value of a name that is inserted as it is. -/
def verbatim? (world : World) (r : Resolver) (name : Text) : Option Text :=
  match stripPrefix "secret:".toList name with
  | some key => r.secrets (trim key)
  | none =>
    match stripPrefix "env:".toList name with
    | some key => if r.allowProcessEnv then world.env (trim key) else none
    | none => generatedValue world 0 name

/-- A text with its references replaced from left to right, and the references of the values of
variables with them. -/
inductive Substitutes (world : World) (r : Resolver) : Text → Text → Prop
  | plain {t : Text} (h : ¬ opening <:+: t) : Substitutes world r t t
  | inserted {t lit name rest value out : Text} (h : Reads t lit name rest)
      (hvalue : verbatim? world r (trim name) = some value)
      (hrest : Substitutes world r rest out) : Substitutes world r t (lit ++ value ++ out)
  | expanded {t lit name rest raw value out : Text} (h : Reads t lit name rest)
      (hname : IsVariableName (trim name)) (hraw : r.vars.get? (trim name) = some raw)
      (hvalue : Substitutes world r raw value)
      (hrest : Substitutes world r rest out) : Substitutes world r t (lit ++ value ++ out)

/-- A text that is still to be read, in the expansion of the variables of a chain. -/
abbrev Pending := List Text × Text

/-- The substitution goes on behind a reference, and into the value of a variable. -/
inductive Step (r : Resolver) : Pending → Pending → Prop
  | past {chain : List Text} {t lit name rest : Text} (h : Reads t lit name rest) :
      Step r (chain, t) (chain, rest)
  | into {chain : List Text} {t lit name rest raw : Text} (h : Reads t lit name rest)
      (hname : IsVariableName (trim name)) (hraw : r.vars.get? (trim name) = some raw) :
      Step r (chain, t) (chain ++ [trim name], raw)

/-- What the substitution of a template comes across. -/
def Met (r : Resolver) (template : Text) (p : Pending) : Prop :=
  Relation.ReflTransGen (Step r) ([], template) p

/-- A name that has a value: a secret, an environment variable, a generated name or a variable. -/
def Known (world : World) (r : Resolver) (name : Text) : Prop :=
  (verbatim? world r name).isSome ∨ IsVariableName name ∧ (r.vars.get? name).isSome

/-- What the resolver asks of a text it comes across. -/
structure Fine (world : World) (r : Resolver) (p : Pending) : Prop where
  /-- The next `{{` is closed by a later `}}`. -/
  closed : ∀ lit after, splitOnce opening p.2 = some (lit, after) → closing <:+: after
  /-- The next name is known. -/
  known : ∀ lit name rest, Reads p.2 lit name rest → Known world r (trim name)
  /-- A variable does not occur within its own expansion. -/
  acyclic : ∀ lit name rest, Reads p.2 lit name rest → IsVariableName (trim name) →
    trim name ∉ p.1
  /-- Variables are not nested deeper than the limit. -/
  shallow : p.1.length ≤ maxDepth

/-- What follows a text is fine as well. -/
def AllFine (world : World) (r : Resolver) (p : Pending) : Prop :=
  ∀ q, Relation.ReflTransGen (Step r) p q → Fine world r q

variable {world : World}

/-! ### Reading from left to right -/

/-- How a text with a reference is read, from the two cuts. -/
theorem reads_of_cut {t lit after name rest : Text} (hlit : splitOnce opening t = some (lit, after))
    (hname : splitOnce closing after = some (name, rest)) : Reads t lit name rest :=
  ⟨⟨after, hlit, hname⟩⟩

/-- A text has one first reference. -/
theorem reads_unique {t lit name rest lit' name' rest' : Text} (h : Reads t lit name rest)
    (h' : Reads t lit' name' rest') : lit' = lit ∧ name' = name ∧ rest' = rest := by
  obtain ⟨after, hlit, hname⟩ := h.cut
  obtain ⟨after', hlit', hname'⟩ := h'.cut
  rw [hlit, Option.some.injEq, Prod.mk.injEq] at hlit'
  rw [← hlit'.2, hname, Option.some.injEq, Prod.mk.injEq] at hname'
  exact ⟨hlit'.1.symm, hname'.1.symm, hname'.2.symm⟩

/-- A text with a reference is not plain. -/
theorem reads_opening {t lit name rest : Text} (h : Reads t lit name rest) : opening <:+: t := by
  obtain ⟨after, hlit, -⟩ := h.cut
  exact ⟨lit, after, (eq_of_splitOnce hlit).symm⟩

/-- A name is inserted as it is, or is the name of a variable. -/
theorem verbatim?_of_variable {r : Resolver} {name : Text} (h : IsVariableName name) :
    verbatim? world r name = none := by
  obtain ⟨hsecret, henv, hgen⟩ := h
  rw [verbatim?, hsecret, henv]
  exact generatedValue_eq_none_iff.mpr hgen

/-- Substitution has at most one result. -/
theorem substitutes_unique {r : Resolver} {t out out' : Text} (h : Substitutes world r t out)
    (h' : Substitutes world r t out') : out' = out := by
  -- Induction on the first derivation; the second one must take the same rule.
  induction h generalizing out' with
  | plain hplain =>
    cases h' with
    | plain _ => rfl
    | inserted hread _ _ => exact absurd (reads_opening hread) hplain
    | expanded hread _ _ _ _ => exact absurd (reads_opening hread) hplain
  -- The two rules with a reference read the same one, and differ in whether it has a value.
  | inserted hread hvalue _ ih =>
    cases h' with
    | plain hplain => exact absurd (reads_opening hread) hplain
    | inserted hread' hvalue' hrest' =>
      obtain ⟨rfl, rfl, rfl⟩ := reads_unique hread hread'
      rw [hvalue, Option.some.injEq] at hvalue'
      rw [hvalue', ih hrest']
    | expanded hread' hname' _ _ _ =>
      obtain ⟨rfl, rfl, rfl⟩ := reads_unique hread hread'
      rw [verbatim?_of_variable hname'] at hvalue
      exact absurd hvalue (by simp)
  -- A variable has one text, and both parts of the result are unique by induction.
  | expanded hread hname hraw _ _ ihvalue ihrest =>
    cases h' with
    | plain hplain => exact absurd (reads_opening hread) hplain
    | inserted hread' hvalue' _ =>
      obtain ⟨rfl, rfl, rfl⟩ := reads_unique hread hread'
      rw [verbatim?_of_variable hname] at hvalue'
      exact absurd hvalue' (by simp)
    | expanded hread' _ hraw' hvalue' hrest' =>
      obtain ⟨rfl, rfl, rfl⟩ := reads_unique hread hread'
      rw [hraw, Option.some.injEq] at hraw'
      subst hraw'
      rw [ihvalue hvalue', ihrest hrest']

/-- Everything behind a text is fine when the text is, and what each step leads to. -/
theorem allFine_iff {r : Resolver} {p : Pending} :
    AllFine world r p ↔ Fine world r p ∧ ∀ q, Step r p q → AllFine world r q := by
  constructor
  · intro h
    exact ⟨h p .refl, fun q hstep s hs => h s (.head hstep hs)⟩
  · rintro ⟨hp, hstep⟩ q hq
    rcases hq.cases_head with rfl | ⟨s, hs, hq'⟩
    · exact hp
    · exact hstep s hs q hq'

/-! ### One reference -/

section Reference

variable {r : Resolver} {stack : List Text} {t lit name rest : Text}

/-- A text with a known reference is fine. -/
theorem fine_of_reads (h : Reads t lit name rest) (hshallow : stack.length ≤ maxDepth)
    (hknown : Known world r (trim name))
    (hacyclic : IsVariableName (trim name) → trim name ∉ stack) :
    Fine world r (stack, t) := by
  obtain ⟨after, hlit, hname⟩ := h.cut
  refine ⟨?_, ?_, ?_, hshallow⟩
  · intro lit' after' hlit'
    have hafter : after = after' := by
      rw [hlit, Option.some.injEq, Prod.mk.injEq] at hlit'
      exact hlit'.2
    rw [← hafter, ← splitOnce_isSome_iff, hname]
    rfl
  · intro lit' name' rest' h'
    obtain ⟨-, rfl, -⟩ := reads_unique h h'
    exact hknown
  · intro lit' name' rest' h' hvar
    obtain ⟨-, rfl, -⟩ := reads_unique h h'
    exact hacyclic hvar

/-- Behind a name that is inserted as it is, only the rest of the text is read. -/
theorem allFine_verbatim (h : Reads t lit name rest) (hshallow : stack.length ≤ maxDepth)
    (hname : ¬ IsVariableName (trim name)) (hvalue : (verbatim? world r (trim name)).isSome) :
    AllFine world r (stack, t) ↔ AllFine world r (stack, rest) := by
  rw [allFine_iff]
  constructor
  · intro hall
    exact hall.2 _ (.past h)
  · intro hrest
    refine ⟨fine_of_reads h hshallow (Or.inl hvalue) fun hvar => absurd hvar hname, ?_⟩
    intro q hstep
    cases hstep with
    | past h' =>
      obtain ⟨-, -, rfl⟩ := reads_unique h h'
      exact hrest
    | into h' hvar _ =>
      obtain ⟨-, rfl, -⟩ := reads_unique h h'
      exact absurd hvar hname

/-- At a variable, its value is read and the rest of the text. -/
theorem allFine_variable {raw : Text} (h : Reads t lit name rest)
    (hshallow : stack.length ≤ maxDepth) (hname : IsVariableName (trim name))
    (hraw : r.vars.get? (trim name) = some raw) (hstack : trim name ∉ stack) :
    AllFine world r (stack, t) ↔
      AllFine world r (stack ++ [trim name], raw) ∧ AllFine world r (stack, rest) := by
  rw [allFine_iff]
  constructor
  · intro hall
    exact ⟨hall.2 _ (.into h hname hraw), hall.2 _ (.past h)⟩
  · rintro ⟨hvalue, hrest⟩
    have hknown : Known world r (trim name) := Or.inr ⟨hname, by rw [hraw]; rfl⟩
    refine ⟨fine_of_reads h hshallow hknown fun _ => hstack, ?_⟩
    intro q hstep
    cases hstep with
    | past h' =>
      obtain ⟨-, -, rfl⟩ := reads_unique h h'
      exact hrest
    | into h' _ hraw' =>
      obtain ⟨-, rfl, -⟩ := reads_unique h h'
      rw [hraw, Option.some.injEq] at hraw'
      rw [← hraw']
      exact hvalue

/-- The lookup of a name that is no variable's gives the value that is inserted. -/
theorem lookup_verbatim {ex : Text → List Text → ResolverM Text} (hfixed : world.Fixed)
    {s : Resolver} (hs : SameSetup r s) (hname : ¬ IsVariableName name) :
    (exec (lookup world ex name stack) s).1.toOption = verbatim? world r name := by
  obtain ⟨-, hsecrets, hallow⟩ := hs
  rcases name_cases world s.draws name with
    ⟨key, hsec⟩ | ⟨hsec, key, henv⟩ | ⟨hsec, henv, generated, hg⟩ | hvar
  · rw [exec_lookup_secret hsec, verbatim?, hsec, hsecrets]
    dsimp only
    cases r.secrets (trim key) <;> rfl
  · rw [exec_lookup_env hsec henv, verbatim?, hsec, henv, hallow]
    dsimp only
    cases r.allowProcessEnv with
    | false => rfl
    | true => cases world.env (trim key) <;> rfl
  · rw [exec_lookup_generated s hsec henv hg, verbatim?, hsec, henv]
    dsimp only
    rw [hfixed 0 s.draws name, hg]
    rfl
  · exact absurd hvar hname

end Reference

/-! ### What the resolver makes of a text -/

/-- What reading a text comes to, after some output: everything behind the text is fine and the
substitution is added to the output, or something is not fine and there is an error. -/
def Outcome (world : World) (r : Resolver) (p : Pending) (out : Text)
    (result : Except CoreError Text) : Prop :=
  (AllFine world r p ∧ ∃ text, Substitutes world r p.2 text ∧ result = .ok (out ++ text)) ∨
    (¬ AllFine world r p ∧ ∃ e, result = .error e)

/-- A failure at a reference that is not fine is one of the outcomes. -/
theorem outcome_error {r : Resolver} {p : Pending} {out : Text} {result : Except CoreError Text}
    {e : CoreError} (hp : ¬ AllFine world r p) (h : result = .error e) :
    Outcome world r p out result :=
  Or.inr ⟨hp, e, h⟩

/-- What comes of a text, from what comes of the rest after a value that is inserted as it is. -/
theorem outcome_inserted {r : Resolver} {stack : List Text} {t lit name rest value out : Text}
    {result : Except CoreError Text} (h : Reads t lit name rest)
    (hshallow : stack.length ≤ maxDepth)
    (hname : ¬ IsVariableName (trim name)) (hvalue : verbatim? world r (trim name) = some value)
    (hrest : Outcome world r (stack, rest) (out ++ lit ++ value) result) :
    Outcome world r (stack, t) out result := by
  have hsome : (verbatim? world r (trim name)).isSome := by rw [hvalue]; rfl
  have hfine := allFine_verbatim h hshallow hname hsome
  rcases hrest with ⟨hall, text, hsubst, hresult⟩ | ⟨hnot, herror⟩
  · refine Or.inl ⟨hfine.mpr hall, lit ++ value ++ text, .inserted h hvalue hsubst, ?_⟩
    rw [hresult, List.append_assoc, List.append_assoc, List.append_assoc]
  · exact Or.inr ⟨fun hall => hnot (hfine.mp hall), herror⟩

/-- What comes of a text, from what comes of the rest after the value of a variable. -/
theorem outcome_expanded {r : Resolver} {stack : List Text} {t lit name rest raw value out : Text}
    {result : Except CoreError Text} (h : Reads t lit name rest)
    (hshallow : stack.length ≤ maxDepth)
    (hname : IsVariableName (trim name)) (hraw : r.vars.get? (trim name) = some raw)
    (hstack : trim name ∉ stack) (hall : AllFine world r (stack ++ [trim name], raw))
    (hvalue : Substitutes world r raw value)
    (hrest : Outcome world r (stack, rest) (out ++ lit ++ value) result) :
    Outcome world r (stack, t) out result := by
  have hfine : AllFine world r (stack, t) ↔
      AllFine world r (stack ++ [trim name], raw) ∧ AllFine world r (stack, rest) :=
    allFine_variable h hshallow hname hraw hstack
  rcases hrest with ⟨hall', text, hsubst, hresult⟩ | ⟨hnot, herror⟩
  · refine Or.inl ⟨hfine.mpr ⟨hall, hall'⟩, lit ++ value ++ text,
      .expanded h hname hraw hvalue hsubst, ?_⟩
    rw [hresult, List.append_assoc, List.append_assoc, List.append_assoc]
  · exact Or.inr ⟨fun hboth => hnot (hfine.mp hboth).2, herror⟩

/-- The loop of the source, from a text and the output so far. -/
def scan (look : Text → ResolverM Text) (unterminated : CoreError) (t out : Text) :
    ResolverM Text := do
  let out ← expandRefs look (parse opening closing t).refs out
  if (parse opening closing t).terminated then pure (out ++ (parse opening closing t).tail)
  else throw unterminated

/-- The loop at a reference looks its name up and goes on behind it. -/
theorem scan_of_ref {look : Text → ResolverM Text} {unterminated : CoreError}
    {t lit after name rest : Text} (hlit : splitOnce opening t = some (lit, after))
    (hname : splitOnce closing after = some (name, rest)) (out : Text) :
    scan look unterminated t out
      = look (trim name) >>= fun value => scan look unterminated rest (out ++ lit ++ value) := by
  rw [scan, parse_of_ref (by decide) hlit hname]
  show (look (trim name) >>= fun value => _) >>= _ = _
  rw [bind_assoc]
  rfl

section Loop

variable {r : Resolver} {stack : List Text} {levels : Nat}

/-- The lookup of a variable at a reference, when the level below does what it should: the text is
not fine and there is an error, or reading goes on behind a value. -/
theorem outcome_variable {t lit name rest : Text} (hreads : Reads t lit name rest)
    (hshallow : stack.length ≤ maxDepth) (hvar : IsVariableName (trim name))
    (hbelow : ∀ (s : Resolver) (name raw : Text), SameSetup r s →
      Outcome world r (stack ++ [name], raw) []
        (exec (expand world levels raw (stack ++ [name])) s).1)
    (s : Resolver) (hs : SameSetup r s) :
    (¬ AllFine world r (stack, t) ∧ ∃ e s',
      exec (lookup world (expand world levels) (trim name) stack) s = (.error e, s')) ∨
    ∃ value s', exec (lookup world (expand world levels) (trim name) stack) s = (.ok value, s') ∧
      ∀ out result, Outcome world r (stack, rest) (out ++ lit ++ value) result →
        Outcome world r (stack, t) out result := by
  have hlook := @exec_lookup_variable world (expand world levels) (trim name) stack hvar s
  rw [hs.1] at hlook
  -- A variable that has no text is an error, and one that is being expanded is as well.
  cases hraw : r.vars.get? (trim name) with
  | none =>
    rw [hraw] at hlook
    refine Or.inl ⟨?_, _, _, hlook⟩
    intro hall
    rcases (hall _ .refl).known lit name rest hreads with hsome | ⟨-, hsome⟩
    · rw [verbatim?_of_variable hvar] at hsome
      exact nomatch hsome
    · rw [hraw] at hsome
      exact nomatch hsome
  | some raw =>
    rw [hraw] at hlook
    dsimp only at hlook
    by_cases hstack : trim name ∈ stack
    · rw [if_pos hstack] at hlook
      refine Or.inl ⟨?_, _, _, hlook⟩
      intro hall
      exact (hall _ .refl).acyclic lit name rest hreads hvar hstack
    · rw [if_neg hstack] at hlook
      -- Noting the lookup changes nothing that the outcome depends on.
      have hnote : SameSetup r (s.noteLookup (trim name)) := hs
      rcases hrun : exec (expand world levels raw (stack ++ [trim name]))
        (s.noteLookup (trim name)) with ⟨q, s'⟩
      have hval := hbelow _ (trim name) raw hnote
      rw [hrun] at hlook hval
      -- The level below gives a value, or its text is not fine.
      rcases hval with ⟨hall, value, hsubst, rfl⟩ | ⟨hnot, e, rfl⟩
      · rw [List.nil_append] at hlook
        refine Or.inr ⟨value, s', hlook, ?_⟩
        intro out result hrest
        exact outcome_expanded hreads hshallow hvar hraw hstack hall hsubst hrest
      · refine Or.inl ⟨?_, e, s', hlook⟩
        intro hall
        exact hnot (allFine_variable hreads hshallow hvar hraw hstack |>.mp hall).1

/-- The same for a name that is no variable's. -/
theorem outcome_verbatim (hfixed : world.Fixed) {t lit name rest : Text}
    (hreads : Reads t lit name rest) (hshallow : stack.length ≤ maxDepth)
    (hvar : ¬ IsVariableName (trim name)) (s : Resolver) (hs : SameSetup r s) :
    (¬ AllFine world r (stack, t) ∧ ∃ e s',
      exec (lookup world (expand world levels) (trim name) stack) s = (.error e, s')) ∨
    ∃ value s', exec (lookup world (expand world levels) (trim name) stack) s = (.ok value, s') ∧
      ∀ out result, Outcome world r (stack, rest) (out ++ lit ++ value) result →
        Outcome world r (stack, t) out result := by
  have hvalue := @lookup_verbatim world r stack (trim name) (expand world levels) hfixed s hs hvar
  rcases hlook : exec (lookup world (expand world levels) (trim name) stack) s with ⟨q, s'⟩
  rw [hlook] at hvalue
  cases q with
  | ok value =>
    refine Or.inr ⟨value, s', rfl, ?_⟩
    intro out result hrest
    exact outcome_inserted hreads hshallow hvar hvalue.symm hrest
  | error e =>
    refine Or.inl ⟨?_, e, s', rfl⟩
    intro hall
    rcases (hall _ .refl).known lit name rest hreads with hsome | ⟨hvar', -⟩
    · rw [← hvalue] at hsome
      exact nomatch hsome
    · exact hvar hvar'

/-- One level of the resolver, when the level below it does what it should. -/
theorem outcome_scan (hfixed : world.Fixed) (hshallow : stack.length ≤ maxDepth)
    (hbelow : ∀ (s : Resolver) (name raw : Text), SameSetup r s →
      Outcome world r (stack ++ [name], raw) []
        (exec (expand world levels raw (stack ++ [name])) s).1)
    (unterminated : CoreError) (t out : Text) (s : Resolver) (hs : SameSetup r s) :
    Outcome world r (stack, t) out
      (exec (scan (fun name => lookup world (expand world levels) name stack) unterminated t out)
        s).1 := by
  have hopening : opening ≠ [] := by decide
  -- Along the references of the text: none left, one that is not closed, or one that is read.
  induction t using parse_induction closing hopening generalizing out s with
  | clean t hclean =>
    have hnone : ∀ lit name rest, ¬ Reads t lit name rest :=
      fun lit name rest h => hclean (reads_opening h)
    -- Without a reference there is nothing to look up, and the text is its own result.
    refine Or.inl ⟨allFine_iff.mpr ⟨⟨?_, ?_, ?_, hshallow⟩, ?_⟩, t, .plain hclean, ?_⟩
    · intro lit after hlit
      exact absurd ⟨lit, after, (eq_of_splitOnce hlit).symm⟩ hclean
    · intro lit name rest h
      exact absurd h (hnone _ _ _)
    · intro lit name rest h
      exact absurd h (hnone _ _ _)
    · intro q hstep
      cases hstep with
      | past h => exact absurd h (hnone _ _ _)
      | into h _ _ => exact absurd h (hnone _ _ _)
    · rw [scan, parse_of_clean hclean]
      rfl
  | unterminated t lit after hlit hname =>
    -- A reference that is not closed is an error, and the text is not fine.
    refine outcome_error (e := unterminated) ?_ ?_
    · intro hall
      exact splitOnce_eq_none_iff.mp hname ((hall _ .refl).closed lit after hlit)
    · rw [scan, parse_of_unterminated (by decide) hlit hname]
      rfl
  | ref t lit after name rest hlit hname ih =>
    have hreads : Reads t lit name rest := reads_of_cut hlit hname
    have hkeep : Keeps SameSetup (lookup world (expand world levels) (trim name) stack) :=
      kept_sameSetup.lookup (kept_sameSetup.expand levels)
    -- A name is a variable or its value is known without expanding it.
    have hlook : (¬ AllFine world r (stack, t) ∧ ∃ e s',
          exec (lookup world (expand world levels) (trim name) stack) s = (.error e, s')) ∨
        ∃ value s', exec (lookup world (expand world levels) (trim name) stack) s
            = (.ok value, s') ∧
          ∀ out result, Outcome world r (stack, rest) (out ++ lit ++ value) result →
            Outcome world r (stack, t) out result := by
      by_cases hvar : IsVariableName (trim name)
      · exact outcome_variable hreads hshallow hvar hbelow s hs
      · exact outcome_verbatim hfixed hreads hshallow hvar s hs
    rw [scan_of_ref hlit hname]
    rcases hlook with ⟨hnot, e, s', herror⟩ | ⟨value, s', hok, hrest⟩
    · exact outcome_error hnot (congrArg Prod.fst (exec_bind_error herror))
    -- Reading goes on in a state that differs in what was looked up only.
    · have hs' : SameSetup r s' := by
        have hstep := hkeep s
        rw [hok] at hstep
        exact sameSetup_trans _ _ _ hs hstep
      rw [exec_bind_ok hok]
      exact hrest _ _ (ih _ _ hs')

/-- The levels that are left and the open variables add up: no level is left where a chain of
variables is too long, and the resolver fails there and nowhere else for that reason. -/
theorem outcome_expand (hfixed : world.Fixed) (hlevels : stack.length + levels = maxDepth + 1)
    (t : Text) (s : Resolver) (hs : SameSetup r s) :
    Outcome world r (stack, t) [] (exec (expand world levels t stack) s).1 := by
  induction levels generalizing stack t s with
  | zero =>
    refine outcome_error (e := .variableRecursion (stack.getLast?.getD t)) ?_ rfl
    intro hall
    have hshallow : stack.length ≤ maxDepth := (hall _ .refl).shallow
    omega
  | succ levels ih =>
    refine outcome_scan hfixed (by omega) ?_ (.unterminatedTemplate t) t [] s hs
    intro s' name raw hs'
    refine ih ?_ raw s' hs'
    rw [List.length_append, List.length_singleton]
    omega

end Loop

/-- **A template resolves exactly when everything that its substitution comes across is fine.** That
is: each `{{` is closed, each name is known, no variable occurs within its own expansion and no
chain of variables is longer than the limit. The result is that of the unlimited substitution, and
a template that does not resolve gives an error. -/
theorem resolve_iff (hfixed : world.Fixed) (r : Resolver) (template : Text) :
    ((∃ result, (exec (resolve world template) r).1 = .ok result) ↔
      ∀ p, Met r template p → Fine world r p) ∧
    ∀ result, (exec (resolve world template) r).1 = .ok result →
      ∀ text, Substitutes world r template text ↔ text = result := by
  have hout : Outcome world r ([], template) [] (exec (resolve world template) r).1 :=
    outcome_expand hfixed rfl template r (sameSetup_refl r)
  rcases hout with ⟨hall, text, hsubst, hresult⟩ | ⟨hnot, e, hresult⟩
  · rw [hresult, List.nil_append]
    refine ⟨⟨fun _ => hall, fun _ => ⟨text, rfl⟩⟩, ?_⟩
    intro result heq text'
    obtain rfl : text = result := Except.ok.inj heq
    constructor
    · exact substitutes_unique hsubst
    · rintro rfl
      exact hsubst
  · rw [hresult]
    refine ⟨⟨?_, fun hall => absurd hall hnot⟩, ?_⟩
    · rintro ⟨result, heq⟩
      exact nomatch heq
    · intro result heq
      exact nomatch heq

/-- A variable whose value names another one. -/
theorem resolve_iff_nested :
    let world : World := ⟨fun _ => none, fun _ => 0, fun _ => 0, fun _ => 0⟩
    let r := Resolver.new.withVars [("base_url".toList, "https://{{host}}".toList),
      ("host".toList, "api.test".toList)]
    world.Fixed ∧ (∀ p, Met r "{{ base_url }}/v1".toList p → Fine world r p) ∧
      Substitutes world r "{{ base_url }}/v1".toList "https://api.test/v1".toList := by
  intro world r
  have hfixed : world.Fixed := fun _ _ _ => rfl
  have hrun : (exec (resolve world "{{ base_url }}/v1".toList) r).1
      = .ok "https://api.test/v1".toList := by decide +kernel
  have hiff := resolve_iff hfixed r "{{ base_url }}/v1".toList
  exact ⟨hfixed, hiff.1.mp ⟨_, hrun⟩, (hiff.2 _ hrun _).mpr rfl⟩

end Resolver

end Gabriel.Core
