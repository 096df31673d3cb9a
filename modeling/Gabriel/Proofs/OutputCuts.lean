import Gabriel.Proofs.OutputSecrets

/-!
# `Gabriel.Proofs.OutputCuts`: does a truncated text show a part of a secret?

Two runs whose outcomes differ in one secret only, each with a redactor that knows its own. A text
that differs in this way is the same after redaction when the values that are masked before the
secret leave its occurrences alone: the redactor knows whole values only. That is asked of the texts
that are printed, and not of the values.

`writeRun` cuts before it redacts, and some texts it does not redact. So there are four conditions:
what is bare does not show the secret (`BareFree`), what is cut is left with whole occurrences
(`CutOutside`), the bodies are shown alike (`BodyAlike`), and the other values leave the secret
alone (`MaskedAlike`). The theorems:

* `apply_sameBut`: after redaction, texts that differ in the secret are the same.
* `maskedAlike_of_apart`: values that overlap neither the secrets nor the mask leave every text
  alone.
* `cutOutside_of_clean`: a cut that goes through no occurrence leaves whole ones, when its note does
  not meet the secret.
* `truncate_eq_of_behind`: a cut in front of the first occurrence leaves the same text.
* `writeRun_sameBut`: under the four conditions the two runs print the same.

The converse is not true: the parts in front of a cut can be equal by accident.
-/

set_option autoImplicit false

namespace Gabriel.Cli

open Gabriel.Core Gabriel.Engine Text

/-! ### Texts that differ in a secret -/

/-- Two texts that differ only in that every occurrence of `s` is one of `s'`. -/
def SameBut {α : Type} [DecidableEq α] (s s' t t' : List α) : Prop := splitSeq s t = splitSeq s' t'

instance {α : Type} [DecidableEq α] (s s' t t' : List α) : Decidable (SameBut s s' t t') :=
  inferInstanceAs (Decidable (splitSeq s t = splitSeq s' t'))

/-- The redactors of the two runs: each knows its own secret, and they know the same others. `first`
are those that are masked before the secret, and `last` those after it. -/
structure TwoRedactors (s s' : Text) (first last first' last' : List Text)
    (redactor redactor' : Redactor) : Prop where
  knows : redactor.secrets = first ++ s :: last
  knows' : redactor'.secrets = first' ++ s' :: last'
  same : first ++ last = first' ++ last'

/-- Masking some values in a text changes only what stands between the occurrences of a secret. -/
def Intact (s : Text) (values : List Text) (t : Text) : Prop :=
  splitSeq s (Redactor.maskAll values t) = (splitSeq s t).map (Redactor.maskAll values)

/-- Masking some values changes only what stands between the masks. -/
def LeavesMasks (values pieces : List Text) : Prop :=
  Redactor.maskAll values (List.intercalate mask pieces)
    = List.intercalate mask (pieces.map (Redactor.maskAll values))

/-- The other values leave the secret alone in both texts: those that are masked before it do not
reach into its occurrences. Where the two secrets stand at different places in the order of the
redactors, the values between the two places do not reach into the masks either. -/
structure MaskedAlike (s s' : Text) (first first' : List Text) (t t' : Text) : Prop where
  intact : Intact s first t
  intact' : Intact s' first' t'
  later : ∀ between, first' = first ++ between →
    LeavesMasks between ((splitSeq s t).map (Redactor.maskAll first))
  earlier : ∀ between, first = first' ++ between →
    LeavesMasks between ((splitSeq s' t').map (Redactor.maskAll first'))

/-- Texts that differ in a secret are empty together. -/
theorem SameBut.eq_nil_iff {α : Type} [DecidableEq α] {s s' t t' : List α} (hs : s ≠ [])
    (hs' : s' ≠ []) (h : SameBut s s' t t') : t = [] ↔ t' = [] := by
  have hempty : ∀ {v w u u' : List α}, v ≠ [] → w ≠ [] → splitSeq v u = splitSeq w u' → u = [] →
      u' = [] := by
    rintro v w u u' hv hw hsame rfl
    rw [splitSeq_of_absent fun hin => hv (List.infix_nil.mp hin)] at hsame
    rw [← intercalate_splitSeq hw u', ← hsame, List.intercalate_singleton]
  exact ⟨hempty hs hs' h, hempty hs' hs h.symm⟩

section Texts

variable {s s' : Text}

/-- A text without the secret is the same text. -/
theorem SameBut.eq_of_absent (hs' : s' ≠ []) {t t' : Text} (h : SameBut s s' t t')
    (hno : ¬ s <:+: t) : t = t' := by
  unfold SameBut at h
  rw [splitSeq_of_absent hno] at h
  rw [← intercalate_splitSeq hs' t', ← h, List.intercalate_singleton]

/-- What is left of a text with a secret that the redactor knows: the masks, between what the
redactor makes of the pieces before it comes to the secret. -/
theorem apply_of_intact {first last : List Text} {redactor : Redactor}
    (h : redactor.secrets = first ++ s :: last) {t : Text} (hintact : Intact s first t) :
    redactor.apply t = Redactor.maskAll last
      (List.intercalate mask ((splitSeq s t).map (Redactor.maskAll first))) := by
  show Redactor.maskAll redactor.secrets t = _
  rw [h, Redactor.maskAll_append, Redactor.maskAll_cons, replace, hintact]

/-- After redaction, texts that differ in the secret are the same. -/
theorem apply_sameBut {first last first' last' : List Text} {redactor redactor' : Redactor}
    (hr : TwoRedactors s s' first last first' last' redactor redactor') {t t' : Text}
    (h : SameBut s s' t t') (hmasked : MaskedAlike s s' first first' t t') :
    redactor.apply t = redactor'.apply t' := by
  unfold SameBut at h
  rw [apply_of_intact hr.knows hmasked.intact, apply_of_intact hr.knows' hmasked.intact']
  have hmap : ∀ (a b ps : List Text), ps.map (Redactor.maskAll (a ++ b))
      = (ps.map (Redactor.maskAll a)).map (Redactor.maskAll b) := by
    intro a b ps
    rw [List.map_map]
    exact List.map_congr_left fun p _ => Redactor.maskAll_append a b p
  rcases List.append_eq_append_iff.mp hr.same with
    ⟨between, hfirst, hlast⟩ | ⟨between, hfirst, hlast⟩
  · have hbetween : LeavesMasks between _ := hmasked.later between hfirst
    rw [hlast, Redactor.maskAll_append, hbetween, hfirst, hmap, h]
  · have hbetween : LeavesMasks between _ := hmasked.earlier between hfirst
    rw [hlast, Redactor.maskAll_append, hbetween, hfirst, hmap, h]

/-- Values that overlap neither the secrets nor the mask leave every text alone. -/
theorem maskedAlike_of_apart {first first' : List Text} (hs : ¬ Overlap s mask)
    (hs' : ¬ Overlap s' mask) (hne : ∀ o ∈ first, o ≠ []) (hne' : ∀ o ∈ first', o ≠ [])
    (hfirst : ∀ o ∈ first, ¬ Overlap o s ∧ ¬ Overlap o mask)
    (hfirst' : ∀ o ∈ first', ¬ Overlap o s' ∧ ¬ Overlap o mask) (t t' : Text) :
    MaskedAlike s s' first first' t t' := by
  -- The text is cut at the value, and a value that overlaps nothing leaves the pieces whole.
  have hintact : ∀ {v : Text} {values : List Text}, ¬ Overlap v mask → (∀ o ∈ values, o ≠ []) →
      (∀ o ∈ values, ¬ Overlap o v ∧ ¬ Overlap o mask) → ∀ u, Intact v values u := by
    intro v values hv hvalues hapart u
    have hvne := ne_nil_of_not_overlap hv
    have hpieces := pieces_splitSeq hvne u
    unfold Intact
    nth_rewrite 1 [← intercalate_splitSeq hvne u]
    rw [Redactor.maskAll_pieces hpieces.ne_nil fun o ho => (hapart o ho).1]
    exact splitSeq_of_pieces hvne (Redactor.pieces_maskAll hvalues hv hpieces)
  -- The same for the mask between the pieces.
  have hleaves : ∀ {values : List Text}, (∀ o ∈ values, ¬ Overlap o mask) →
      ∀ {ps : List Text}, ps ≠ [] → LeavesMasks values ps :=
    fun hvalues _ hps => Redactor.maskAll_pieces hps hvalues
  -- Each of the four parts is one of these two facts.
  refine ⟨hintact hs hne hfirst t, hintact hs' hne' hfirst' t', ?_, ?_⟩
  · intro between hbetween
    refine hleaves (fun o ho => (hfirst' o ?_).2) (by simpa using splitSeq_ne_nil s t)
    rw [hbetween]
    exact List.mem_append_right first ho
  · intro between hbetween
    refine hleaves (fun o ho => (hfirst o ?_).2) (by simpa using splitSeq_ne_nil s' t')
    rw [hbetween]
    exact List.mem_append_right first' ho

/-! ### Cuts -/

/-- What a cut leaves of two texts differs in the secret only: no part of an occurrence is left. -/
def CutOutside (s s' : Text) (limit : Nat) (t t' : Text) : Prop :=
  SameBut s s' (truncate t limit) (truncate t' limit)

instance (s s' : Text) (limit : Nat) (t t' : Text) : Decidable (CutOutside s s' limit t t') :=
  inferInstanceAs (Decidable (SameBut s s' (truncate t limit) (truncate t' limit)))

/-- A cut goes through no occurrence of the secret, and the note about the rest does not meet it. -/
structure CleanCut (s : Text) (limit : Nat) (t : Text) : Prop where
  outside : cutsHole s.length (splitSeq s t) limit = false
  note : limit < t.length → ¬ Overlap s (truncationNote (t.length - limit))

/-- Texts that differ in secrets of one length have one length. -/
theorem SameBut.length (hs : s ≠ []) (hs' : s' ≠ []) (hlength : s.length = s'.length)
    {t t' : Text} (h : SameBut s s' t t') : t.length = t'.length := by
  unfold SameBut at h
  rw [← intercalate_splitSeq hs t, ← intercalate_splitSeq hs' t', h]
  exact length_intercalate_congr hlength _

/-- The pieces of a text that is cut outside the secret. -/
theorem splitSeq_truncate (hs : s ≠ []) {limit : Nat} {t : Text} (hcut : CleanCut s limit t)
    (hlong : limit < t.length) :
    splitSeq s (truncate t limit) = appendLast (truncationNote (t.length - limit))
      (keepPieces s.length (splitSeq s t) limit) := by
  have hpieces := (pieces_splitSeq hs t).keep s.length limit
  have htake : t.take limit = List.intercalate s (keepPieces s.length (splitSeq s t) limit) := by
    nth_rewrite 1 [← intercalate_splitSeq hs t]
    exact take_intercalate hcut.outside
  have htext : truncate t limit = List.intercalate s
      (appendLast (truncationNote (t.length - limit))
        (keepPieces s.length (splitSeq s t) limit)) := by
    unfold truncate
    rw [if_neg (by omega), htake]
    exact intercalate_append hpieces.ne_nil _
  rw [htext]
  exact splitSeq_of_pieces hs (hpieces.appendLast (hcut.note hlong))

/-- Texts that differ in the secret still do when a clean cut goes through them. -/
theorem cutOutside_of_clean (hs : s ≠ []) (hs' : s' ≠ []) (hlength : s.length = s'.length)
    {limit : Nat} {t t' : Text} (h : SameBut s s' t t') (hcut : CleanCut s limit t)
    (hcut' : CleanCut s' limit t') : CutOutside s s' limit t t' := by
  have hlen := h.length hs hs' hlength
  unfold CutOutside
  unfold SameBut at h ⊢
  by_cases hshort : t.length ≤ limit
  · unfold truncate
    rwa [if_pos hshort, if_pos (by omega)]
  · rw [splitSeq_truncate hs hcut (by omega), splitSeq_truncate hs' hcut' (by omega), h, hlength,
      hlen]

/-- A text is cut to the same when the secret begins behind the cut. -/
theorem truncate_eq_of_behind (hs : s ≠ []) (hs' : s' ≠ []) (hlength : s.length = s'.length)
    {limit : Nat} {t t' : Text} (h : SameBut s s' t t')
    (hbehind : s <:+: t → limit ≤ ((splitSeq s t).headD []).length) :
    truncate t limit = truncate t' limit := by
  have hlen := h.length hs hs' hlength
  by_cases hin : s <:+: t
  -- What stands before the first occurrence is a prefix of both texts.
  · have hfirst : ∀ (hole u : Text), hole ≠ [] → splitSeq hole u = splitSeq s t →
        (splitSeq s t).headD [] <+: u := by
      intro hole u hhole hsplit
      rw [← intercalate_splitSeq hhole u, hsplit]
      cases hps : splitSeq s t with
      | nil => exact List.nil_prefix
      | cons piece rest =>
        by_cases hrest : rest = []
        · rw [hrest, List.intercalate_singleton]
          exact List.prefix_rfl
        · rw [List.intercalate_cons_of_ne_nil hrest, List.append_assoc]
          exact List.prefix_append _ _
    obtain ⟨r, hr⟩ := hfirst s t hs rfl
    obtain ⟨r', hr'⟩ := hfirst s' t' hs' h.symm
    -- The cut lies in this prefix, so both are cut to the same.
    have htake : t.take limit = t'.take limit := by
      rw [← hr, ← hr', List.take_append_of_le_length (hbehind hin),
        List.take_append_of_le_length (hbehind hin)]
    -- Both texts have the same length, so both are cut or neither is.
    unfold truncate
    by_cases hshort : t.length ≤ limit
    · rw [if_pos hshort, if_pos (by omega)]
      rwa [List.take_of_length_le hshort, List.take_of_length_le (by omega)] at htake
    · rw [if_neg hshort, if_neg (by omega), htake, hlen]
  -- Without an occurrence the two texts are one.
  · rw [h.eq_of_absent hs' hin]

end Texts

/-! ### Two runs -/

/-- Two lists of pairs whose texts differ in the secret. -/
def PairsSameBut (s s' : Text) (l l' : List (Text × Text)) : Prop :=
  List.Forall₂ (fun e e' => SameBut s s' e.1 e'.1 ∧ SameBut s s' e.2 e'.2) l l'

/-- Two assertions whose texts differ in the secret. -/
structure AssertionSameBut (s s' : Text) (a a' : AssertionOutcome) : Prop where
  description : SameBut s s' a.description a'.description
  passed : a.passed = a'.passed
  actual : SameBut s s' a.actual a'.actual

/-- Two outcomes that differ only in that every occurrence of `s` is one of `s'`. -/
structure DiffersIn (s s' : Text) (o o' : FinishedRun) : Prop where
  method : SameBut s s' o.sent.method o'.sent.method
  url : SameBut s s' o.sent.url o'.sent.url
  sentHeaders : PairsSameBut s s' o.sent.headers o'.sent.headers
  sentBody : Option.Rel (SameBut s s') o.sent.body o'.sent.body
  status : o.response.status = o'.response.status
  statusText : SameBut s s' o.response.statusText o'.response.statusText
  headers : PairsSameBut s s' o.response.headers.iterPairs o'.response.headers.iterPairs
  body : SameBut (Utf8.encode s) (Utf8.encode s') o.response.body o'.response.body
  captured : PairsSameBut s s' o.captured o'.captured
  assertions : List.Forall₂ (AssertionSameBut s s') o.assertions o'.assertions
  totalMs : o.totalMs = o'.totalMs

/-- Whether the body is shown as text. -/
def showsText (tools : PrintTools) (response : ExecutedResponse) : Bool :=
  (response.json tools.platform).isSome || (Utf8.decode? response.body).isSome

/-- What stands for a body that is no text. -/
def binaryNote (tools : PrintTools) (response : ExecutedResponse) : Text :=
  '<' :: formatBytes tools response.body.length ++ " of binary data>".toList

/-- The texts that are printed without the redactor do not show the secret. What an assertion
found is cut, so the secret may stand behind the cut. -/
structure BareFree (s : Text) (outcome : FinishedRun) (verbose : Bool) : Prop where
  method : ¬ s <:+: outcome.sent.method
  statusText : ¬ s <:+: outcome.response.statusText
  sentNames : verbose = true → ∀ h ∈ outcome.sent.headers, ¬ s <:+: h.1
  names : verbose = true → ∀ h ∈ outcome.response.headers.iterPairs, ¬ s <:+: h.1
  captured : ∀ c ∈ outcome.captured, ¬ s <:+: c.1
  descriptions : ∀ a ∈ outcome.assertions, ¬ s <:+: a.description
  actuals : ∀ a ∈ outcome.assertions, a.passed = false → s <:+: a.actual →
    80 ≤ ((splitSeq s a.actual).headD []).length

/-- The bodies are shown alike: what the cut leaves of their texts differs in the secret only.
Bodies that are no text have their sizes shown. -/
structure BodyAlike (tools : PrintTools) (s s' : Text) (limit : Nat) (r r' : ExecutedResponse) :
    Prop where
  size : formatBytes tools r.body.length = formatBytes tools r'.body.length
  text : r.body ≠ [] → showsText tools r = showsText tools r'
  cut : r.body ≠ [] → showsText tools r = true →
    CutOutside s s' limit (bodyText tools r) (bodyText tools r')
  binary : r.body ≠ [] → showsText tools r = false →
    ¬ s <:+: binaryNote tools r ∧ ¬ s' <:+: binaryNote tools r
  blank : trim (renderBody tools r limit) = [] ↔ trim (renderBody tools r' limit) = []

/-- The other values leave the secret alone in every text that is redacted, and no cut through a
captured value leaves a part of the secret. -/
structure AllMasked (tools : PrintTools) (s s' : Text) (first first' : List Text) (verbose : Bool)
    (limit : Nat) (o o' : FinishedRun) : Prop where
  url : MaskedAlike s s' first first' o.sent.url o'.sent.url
  sentHeaders : verbose = true → List.Forall₂ (fun e e' => MaskedAlike s s' first first' e.2 e'.2)
    o.sent.headers o'.sent.headers
  sentBody : verbose = true →
    Option.Rel (MaskedAlike s s' first first') o.sent.body o'.sent.body
  headers : verbose = true → List.Forall₂ (fun e e' => MaskedAlike s s' first first' e.2 e'.2)
    o.response.headers.iterPairs o'.response.headers.iterPairs
  body : MaskedAlike s s' first first' (renderBody tools o.response limit)
    (renderBody tools o'.response limit)
  captured : List.Forall₂ (fun e e' => CutOutside s s' 120 e.2 e'.2 ∧
    MaskedAlike s s' first first' (truncate e.2 120) (truncate e'.2 120)) o.captured o'.captured

section Runs

variable {s s' : Text} {first last first' last' : List Text} {redactor redactor' : Redactor}
  {tools : PrintTools} {style : Style}

/-- Pairs whose keys do not show the secret are printed the same, when the printed text of a pair
depends on its redacted value. -/
theorem map_eq_of_pairsSameBut (hs' : s' ≠ []) {l l' : List (Text × Text)}
    (h : PairsSameBut s s' l l') (hno : ∀ e ∈ l, ¬ s <:+: e.1)
    {R : Text × Text → Text × Text → Prop} (hR : List.Forall₂ R l l') {f f' : Text × Text → Text}
    (hf : ∀ e e', e.1 = e'.1 → SameBut s s' e.2 e'.2 → R e e' → f e = f' e') :
    l.map f = l'.map f' := by
  induction h with
  | nil => rfl
  | @cons e e' l l' he _ ih =>
    obtain ⟨hfirst, hrest⟩ := List.forall₂_cons.mp hR
    have hkey := he.1.eq_of_absent hs' (hno e List.mem_cons_self)
    rw [List.map_cons, List.map_cons, hf e e' hkey he.2 hfirst,
      ih (fun e he => hno e (List.mem_cons_of_mem _ he)) hrest]

/-- Header lines. -/
theorem headerLines_eq (hr : TwoRedactors s s' first last first' last' redactor redactor')
    (hs' : s' ≠ []) {l l' : List (Text × Text)} (h : PairsSameBut s s' l l')
    (hno : ∀ e ∈ l, ¬ s <:+: e.1)
    (hmasked : List.Forall₂ (fun e e' => MaskedAlike s s' first first' e.2 e'.2) l l') :
    l.map (headerLine style redactor) = l'.map (headerLine style redactor') := by
  refine map_eq_of_pairsSameBut hs' h hno hmasked ?_
  intro e e' hkey hvalue halike
  unfold headerLine
  rw [hkey, apply_sameBut hr hvalue halike]

/-- What was sent. -/
theorem sentLines_eq (hr : TwoRedactors s s' first last first' last' redactor redactor')
    (hs' : s' ≠ []) {sent sent' : SentRequest}
    (hheaders : PairsSameBut s s' sent.headers sent'.headers)
    (hbody : Option.Rel (SameBut s s') sent.body sent'.body)
    (hno : ∀ e ∈ sent.headers, ¬ s <:+: e.1)
    (hmasked : List.Forall₂ (fun e e' => MaskedAlike s s' first first' e.2 e'.2)
      sent.headers sent'.headers)
    (hmaskedBody : Option.Rel (MaskedAlike s s' first first') sent.body sent'.body) :
    sentLines style redactor sent = sentLines style redactor' sent' := by
  unfold sentLines
  rw [headerLines_eq hr hs' hheaders hno hmasked]
  generalize sent.body = body at hbody hmaskedBody ⊢
  generalize sent'.body = body' at hbody hmaskedBody ⊢
  cases hbody with
  | none => rfl
  | some h =>
    cases hmaskedBody with
    | some hmasked =>
      show _ ++ [_, indent (style.safe (redactor.apply _)) 4] ++ _
        = _ ++ [_, indent (style.safe (redactor'.apply _)) 4] ++ _
      rw [apply_sameBut hr h hmasked]

/-- Captured variables. -/
theorem capturedLines_eq (hr : TwoRedactors s s' first last first' last' redactor redactor')
    (hs' : s' ≠ []) {l l' : List (Text × Text)} (h : PairsSameBut s s' l l')
    (hno : ∀ e ∈ l, ¬ s <:+: e.1)
    (hmasked : List.Forall₂ (fun e e' => CutOutside s s' 120 e.2 e'.2 ∧
      MaskedAlike s s' first first' (truncate e.2 120) (truncate e'.2 120)) l l') :
    l.map (capturedLine style redactor) = l'.map (capturedLine style redactor') := by
  refine map_eq_of_pairsSameBut hs' h hno hmasked ?_
  rintro e e' hkey - ⟨hleft, halike⟩
  unfold capturedLine
  rw [hkey, apply_sameBut hr hleft halike]

/-- Assertions. -/
theorem assertionLines_eq (hs : s ≠ []) (hs' : s' ≠ []) (hlength : s.length = s'.length)
    {l l' : List AssertionOutcome} (h : List.Forall₂ (AssertionSameBut s s') l l')
    (hno : ∀ a ∈ l, ¬ s <:+: a.description)
    (hbehind : ∀ a ∈ l, a.passed = false → s <:+: a.actual →
      80 ≤ ((splitSeq s a.actual).headD []).length) :
    l.map (assertionLine style) = l'.map (assertionLine style) := by
  induction h with
  | nil => rfl
  | @cons a a' l l' ha _ ih =>
    rw [List.map_cons, List.map_cons,
      ih (fun a hmem => hno a (List.mem_cons_of_mem _ hmem))
        fun a hmem => hbehind a (List.mem_cons_of_mem _ hmem)]
    congr 1
    unfold assertionLine
    rw [← ha.passed, ← ha.description.eq_of_absent hs' (hno a List.mem_cons_self)]
    by_cases hpassed : a.passed = true
    · rw [if_pos hpassed, if_pos hpassed]
    · rw [if_neg hpassed, if_neg hpassed, truncate_eq_of_behind hs hs' hlength ha.actual
        (hbehind a List.mem_cons_self (Bool.eq_false_iff.mpr hpassed))]

/-- The body, as it is before the redaction. -/
theorem renderBody_sameBut (hs : s ≠ []) (hs' : s' ≠ []) {limit : Nat} {r r' : ExecutedResponse}
    (hempty : r.body = [] ↔ r'.body = []) (h : BodyAlike tools s s' limit r r') :
    SameBut s s' (renderBody tools r limit) (renderBody tools r' limit) := by
  have hshown : ∀ r : ExecutedResponse, ((r.json tools.platform).isSome = true ∨
      (Utf8.decode? r.body).isSome = true) ↔ showsText tools r = true :=
    fun r => Bool.or_eq_true_iff.symm
  by_cases hnone : r.body = []
  · unfold renderBody SameBut
    rw [if_pos hnone, if_pos (hempty.mp hnone), splitSeq_of_absent (not_infix_nil hs),
      splitSeq_of_absent (not_infix_nil hs')]
  · have hnone' : r'.body ≠ [] := fun h => hnone (hempty.mpr h)
    unfold renderBody
    rw [if_neg hnone, if_neg hnone']
    cases htext : showsText tools r with
    | true =>
      rw [if_pos ((hshown r).mpr htext), if_pos ((hshown r').mpr (h.text hnone ▸ htext))]
      exact h.cut hnone htext
    | false =>
      rw [if_neg fun hshow => Bool.false_ne_true (htext.symm.trans ((hshown r).mp hshow)),
        if_neg fun hshow => Bool.false_ne_true
          (htext.symm.trans ((h.text hnone).trans ((hshown r').mp hshow))), ← h.size]
      obtain ⟨hno, hno'⟩ := h.binary hnone htext
      unfold SameBut
      exact (splitSeq_of_absent hno).trans (splitSeq_of_absent hno').symm

end Runs

/-! ### A body that is cut -/

/-- Another token of the same length. -/
def sparrow : Text := "pk-test-SPARROW-312".toList

/-- The redactors of the two runs know one token each. -/
theorem twoRedactors_tokens :
    TwoRedactors canary sparrow [] [] [] [] canaryRedactor (.new [sparrow]) where
  knows := by decide +kernel
  knows' := by decide +kernel
  same := rfl

/-- A run whose body goes on after the token. -/
def tailRun (token : Text) : FinishedRun :=
  let run := echoRun token statusHolds
  { run with response :=
      { run.response with
        body := Utf8.encode ("key ".toList ++ token ++ " for the tests".toList) } }

/-- The two runs differ in the token only. -/
theorem differsIn_tokens : DiffersIn canary sparrow (tailRun canary) (tailRun sparrow) where
  method := by decide +kernel
  url := by decide +kernel
  sentHeaders := .cons ⟨by decide +kernel, by decide +kernel⟩ .nil
  sentBody := .none
  status := show (200 : UInt16) = 200 from rfl
  statusText := by decide +kernel
  headers := .nil
  body := by decide +kernel
  captured := .cons ⟨by decide +kernel, by decide +kernel⟩ .nil
  assertions := .cons ⟨by decide +kernel, rfl, by decide +kernel⟩ .nil
  totalMs := show (25 : UInt64) = 25 from rfl

/-- No other value is known. -/
theorem maskedAlike_tokens (t t' : Text) : MaskedAlike canary sparrow [] [] t t' :=
  maskedAlike_of_apart (by decide +kernel) (by decide +kernel)
    (fun _ h => absurd h List.not_mem_nil) (fun _ h => absurd h List.not_mem_nil)
    (fun _ h => absurd h List.not_mem_nil) (fun _ h => absurd h List.not_mem_nil) t t'

/-- The body is cut behind the token. -/
theorem bodyAlike_tokens : BodyAlike plainTools canary sparrow 27 (tailRun canary).response
    (tailRun sparrow).response where
  size := by decide +kernel
  text := fun _ => by decide +kernel
  cut := fun _ _ => cutOutside_of_clean (by decide) (by decide) (by decide +kernel)
    (by decide +kernel) ⟨by decide +kernel, by decide +kernel⟩
        ⟨by decide +kernel, by decide +kernel⟩
  binary := fun _ => by decide +kernel
  blank := by decide +kernel

example : truncate "key: WREN".toList 6 ≠ truncate "key: ROOK".toList 6 := by decide +kernel

end Gabriel.Cli
