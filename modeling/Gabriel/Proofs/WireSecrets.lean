import Gabriel.Proofs.Codegen
import Gabriel.Proofs.Decoders
import Gabriel.Proofs.OutputSecrets
import Gabriel.Proofs.PromotedCredentials
import Gabriel.Proofs.Redactor

/-!
# `Gabriel.Proofs.WireSecrets`: secrets in the encoding they have on the wire

The redactor knows a secret as it was resolved, and `to_curl` replaces it in a request that is
already encoded. So an encoded secret is masked where a known value stands in it, and is printed in
full where no known value touches it.

The theorems:

* `hidesEncoded_iff` says so of the words that a shell hands to `curl`. The texts of the command are
  cut at the known values (`curlPieces`), each argument is its pieces with masks in between
  (`curlArgs_eq_pieces`), and no encoding of a known value stands in an argument exactly when none
  stands in a piece. An encoding is what any encoder of forms can write for the value, byte by byte
  (`StandsFor`), so the URL library, the engine's form and the authorization URL are all covered.
* `shows_form_secret` follows a secret from the form of a request to the command that is printed for
  it: its escaped text stands there, unless a known value overlaps it.
-/

set_option autoImplicit false

namespace Gabriel.Cli

open Gabriel.Core Gabriel.Core.Resolver Gabriel.Engine Text Fallible FormUrlencoded Shell

variable {Url : Type}

/-! ### What stands for a value -/

/-- The texts that stand for a value: the value, and whatever an encoder of forms writes for it. -/
inductive StandsFor (v : Text) : Text → Prop where
  | itself : StandsFor v v
  | encoded {enc : UInt8 → Text} (h : ∀ b, WritesByte b (enc b)) :
      StandsFor v ((Utf8.encode v).flatMap enc)

example (v : Text) : StandsFor v (urlencode v) := .encoded writesByte_urlencodeByte

example (v : Text) : StandsFor v (Oauth.urlencode v) := .encoded Oauth.writesByte_urlencodeByte

/-- A shell reads the command as one, and no argument of it holds a text that stands for a known
secret. -/
def HidesEncoded (known : List Text) (command : Text) : Prop :=
  ∃ args, simpleCommand? command = some args ∧
    ∀ arg ∈ args, ∀ v ∈ known, ∀ w, StandsFor v w → ¬ w <:+: arg

/-! ### The pieces of the command -/

/-- Write a text in front of the first piece. -/
def behind (front : Text) : List Text → List Text
  | [] => [front]
  | piece :: rest => (front ++ piece) :: rest

/-- The pieces of a header line. The value of a credential header is left out as a whole. -/
def headerPieces (known : List Text) (header : Text × Text) : List Text :=
  behind (header.1 ++ ": ".toList)
    (if isCredentialHeader header.1 then [[], []] else cutAll known [header.2])

/-- The arguments of the command, each cut at the known values. -/
def curlPieces (upper : Text → Text) (request : SentRequest) (known : List Text) :
    List (List Text) :=
  [["curl".toList]]
    ++ (if eqIgnoreAsciiCase request.method "GET".toList then [] else
      [["-X".toList], [upper request.method]])
    ++ ([cutAll known [request.url]]
      ++ (listedHeaders request).flatMap (fun header => [["-H".toList], headerPieces known header])
      ++ request.body.elim [] fun body =>
        if body = [] then [] else [["--data-raw".toList], cutAll known [body]])

/-- A text in front of filled pieces is in front of the first of them. -/
theorem intercalate_behind (front : Text) {pieces : List Text} (h : pieces ≠ []) :
    List.intercalate mask (behind front pieces) = front ++ List.intercalate mask pieces := by
  obtain ⟨piece, rest, rfl⟩ := List.exists_cons_of_ne_nil h
  rw [behind]
  by_cases hrest : rest = []
  · rw [hrest, List.intercalate_singleton, List.intercalate_singleton]
  · rw [List.intercalate_cons_of_ne_nil hrest, List.intercalate_cons_of_ne_nil hrest]
    simp only [List.append_assoc]

section Pieces

variable {redactor : Redactor}

/-- A text that is shown is its pieces with masks in between. -/
theorem apply_eq_pieces (hmask : ∀ v ∈ redactor.secrets, ¬ Overlap v mask) (t : Text) :
    redactor.apply t = List.intercalate mask (cutAll redactor.secrets [t]) := by
  unfold Redactor.apply
  rw [Redactor.maskAll_eq_replaceAll, replaceAll_eq_intercalate hmask]

/-- So is a header line. -/
theorem shownHeader_eq_pieces (hmask : ∀ v ∈ redactor.secrets, ¬ Overlap v mask)
    (header : Text × Text) : shownHeader redactor false header
      = List.intercalate mask (headerPieces redactor.secrets header) := by
  unfold shownHeader headerPieces headerForDisplay
  rw [if_neg Bool.false_ne_true]
  by_cases hname : isCredentialHeader header.1 = true
  · rw [if_pos hname, if_pos hname, intercalate_behind _ (List.cons_ne_nil _ _)]
    rfl
  · rw [if_neg hname, if_neg hname, intercalate_behind _ (cutAll_ne_nil _ (List.cons_ne_nil _ _)),
      apply_eq_pieces hmask]

/-- Every argument of the command is its pieces with masks in between. -/
theorem curlArgs_eq_pieces (hmask : ∀ v ∈ redactor.secrets, ¬ Overlap v mask)
    (upper : Text → Text) (request : SentRequest) : curlArgs upper request redactor false
      = (curlPieces upper request redactor.secrets).map (List.intercalate mask) := by
  unfold curlArgs curlPieces curlRest
  rw [List.map_append, List.map_append, List.map_append, List.map_append]
  refine congrArg₂ _ (congrArg₂ _ rfl ?_) (congrArg₂ _ (congrArg₂ _ ?_ ?_) ?_)
  · split
    · rfl
    · simp only [List.map_cons, List.map_nil, List.intercalate_singleton]
  · rw [apply_eq_pieces hmask]
    rfl
  · rw [List.map_flatMap]
    refine List.flatMap_congr fun header _ => ?_
    rw [shownHeader_eq_pieces hmask, List.map_cons, List.map_cons, List.map_nil,
      List.intercalate_singleton]
  · cases request.body with
    | none => rfl
    | some body =>
      show (if body = [] then [] else _) = List.map _ (if body = [] then [] else _)
      split
      · rfl
      · rw [apply_eq_pieces hmask, List.map_cons, List.map_cons, List.map_nil,
          List.intercalate_singleton]

end Pieces

/-! ### Encodings and the mask -/

/-- What has no bullet in it overlaps the mask only inside of it. -/
theorem infix_mask_of_overlap {w : Text} (hw : '•' ∉ w) (h : Overlap w mask) : w <:+: mask := by
  -- The mask begins and ends with a bullet, so whatever reaches over an end of it has one.
  rcases h with hin | hin | ⟨u, hu, hne, hpre⟩ | ⟨u, hu, hne, hsuf⟩
  · exact absurd (hin.subset (by decide)) hw
  · exact hin
  · obtain ⟨c, u, rfl⟩ := List.exists_cons_of_ne_nil hne
    obtain ⟨rest, hrest⟩ := hpre
    have hc : c = '•' := (List.cons.inj hrest).1
    exact absurd (((List.mem_tails _ _).mp hu).subset (hc ▸ List.mem_cons_self)) hw
  · obtain ⟨rest, hrest⟩ := hsuf
    have hlast : u.getLast? = some '•' := by
      have hend : mask.getLast? = some '•' := by decide
      rw [← hrest, List.getLast?_append, List.getLast?_eq_some_getLast hne, Option.some_or] at hend
      rw [List.getLast?_eq_some_getLast hne, hend]
    exact absurd (((List.mem_inits _ _).mp hu).subset (List.mem_of_getLast? hlast)) hw

/-- A text of ASCII bytes has no bullet. -/
theorem bullet_not_mem {w : Text} (h : ∀ b ∈ Utf8.encode w, b.toNat < 0x80) : '•' ∉ w := by
  intro hmem
  obtain ⟨front, rest, rfl⟩ := List.append_of_mem hmem
  have hbyte : (0xE2 : UInt8) ∈ Utf8.encode (front ++ '•' :: rest) := by
    rw [Utf8.encode_append, Utf8.encode_cons]
    exact List.mem_append_right _ (List.mem_append_left _ (by decide))
  exact absurd (h _ hbyte) (by decide)

/-- The decoder of forms changes nothing in a part of the mask. -/
theorem decodeComponent_of_infix_mask {w : Text} (h : w <:+: mask) : decodeComponent w = w := by
  have hall : ∀ front ∈ mask.inits, ∀ w ∈ front.tails, decodeComponent w = w := by decide +kernel
  obtain ⟨front, hsuf, hpre⟩ := List.infix_iff_suffix_prefix.mp h
  exact hall front ((List.mem_inits _ _).mpr hpre) w ((List.mem_tails _ _).mpr hsuf)

/-- What stands for a secret overlaps the mask only when the secret does. -/
theorem StandsFor.not_overlap_mask {v w : Text} (h : StandsFor v w) (hv : ¬ Overlap v mask) :
    ¬ Overlap w mask := by
  cases h with
  | itself => exact hv
  | encoded henc =>
    intro hover
    have hbullet := bullet_not_mem (ascii_flatMap (escapes_of_writesByte henc) (Utf8.encode v))
    have hin := infix_mask_of_overlap hbullet hover
    -- A part of the mask decodes to itself, and the encoding decodes to the value.
    have hsame := decodeComponent_of_infix_mask hin
    rw [decodeComponent_flatMap henc] at hsame
    rw [← hsame] at hin
    exact hv (Or.inr (Or.inl hin))

/-- **An encoded secret is hidden exactly when the known values leave no piece that holds it.** The
method is a plain word or `GET`, so that a shell reads the command as it is meant. -/
theorem hidesEncoded_iff (upper : Text → Text) (request : SentRequest) (redactor : Redactor)
    (multiline : Bool)
    (hmethod : eqIgnoreAsciiCase request.method "GET".toList = true ∨
      PlainWord (upper request.method))
    (hmask : ∀ v ∈ redactor.secrets, ¬ Overlap v mask) :
    HidesEncoded redactor.secrets (toCurl upper request redactor multiline false) ↔
      ∀ pieces ∈ curlPieces upper request redactor.secrets, ∀ piece ∈ pieces,
        ∀ v ∈ redactor.secrets, ∀ w, StandsFor v w → ¬ w <:+: piece := by
  have hargs := simpleCommand?_of_plainWord hmethod redactor multiline false
  rw [curlArgs_eq_pieces hmask] at hargs
  unfold HidesEncoded
  rw [hargs]
  simp only [Option.some.injEq, exists_eq_left', List.forall_mem_map]
  refine forall₂_congr fun pieces _ => ?_
  -- What stands for a secret does not overlap a mask, so it is in one of the pieces between them.
  have hhold : ∀ v ∈ redactor.secrets, ∀ w, StandsFor v w →
      (w <:+: List.intercalate mask pieces ↔ ∃ piece ∈ pieces, w <:+: piece) :=
    fun v hv w hw => infix_intercalate_iff (hw.not_overlap_mask (hmask v hv)) pieces
  constructor
  · intro h piece hpiece v hv w hw hin
    exact h v hv w hw ((hhold v hv w hw).mpr ⟨piece, hpiece, hin⟩)
  · intro h v hv w hw hin
    obtain ⟨piece, hpiece, hin⟩ := (hhold v hv w hw).mp hin
    exact h piece hpiece v hv w hw hin

/-- A request with a key in its query, as it is sent. -/
def keySent : SentRequest :=
  ⟨"GET".toList, "https://app.test/data?key=".toList ++ canary, [], none⟩

/-- A key without escapes is hidden. -/
theorem hidesEncoded_iff_key :
    HidesEncoded canaryRedactor.secrets (toCurl asciiUpper keySent canaryRedactor true false) := by
  refine (hidesEncoded_iff asciiUpper keySent canaryRedactor true (Or.inl (by decide))
    (by decide)).mpr ?_
  have hpieces : curlPieces asciiUpper keySent canaryRedactor.secrets
      = [["curl".toList], ["https://app.test/data?key=".toList, []]] := by decide +kernel
  have hknown : canaryRedactor.secrets = [canary] := by decide
  -- The decoder of forms reads the key from nothing that is left.
  have hall : ∀ piece ∈ ["curl".toList, "https://app.test/data?key=".toList, []],
      ∀ front ∈ piece.inits, ∀ w ∈ front.tails, w ≠ canary ∧ decodeComponent w ≠ canary := by
    decide +kernel
  rw [hpieces, hknown]
  intro pieces hmem piece hpiece v hv w hw hin
  obtain rfl := List.mem_singleton.mp hv
  have hflat : piece ∈ ["curl".toList, "https://app.test/data?key=".toList, []] := by
    have h := List.mem_flatten.mpr ⟨pieces, hmem, hpiece⟩
    exact h
  obtain ⟨front, hsuf, hpre⟩ := List.infix_iff_suffix_prefix.mp hin
  obtain ⟨hself, hdecode⟩ := hall piece hflat front ((List.mem_inits _ _).mpr hpre) w
    ((List.mem_tails _ _).mpr hsuf)
  cases hw with
  | itself => exact hself rfl
  | encoded henc => exact hdecode (decodeComponent_flatMap henc canary)

/-! ### Secrets in a form -/

/-- A part of a text is encoded as a part of its encoding. -/
theorem urlencode_mono {v value : Text} (h : v <:+: value) : urlencode v <:+: urlencode value := by
  obtain ⟨front, rest, rfl⟩ := h
  unfold urlencode
  rw [Utf8.encode_append, Utf8.encode_append, List.flatMap_append, List.flatMap_append]
  exact ⟨_, _, rfl⟩

/-- Each field of a form has its value in the encoded text. -/
theorem encodeFields_mono {world : World} {fields : List (Text × Text)} {encoded encoded' : Text}
    {start r r' : Resolver} (hsame : SameSetup start r)
    (h : exec (fields.foldlM (encodeField world) encoded) r = (.ok encoded', r')) :
    encoded <:+: encoded' ∧ ∀ field ∈ fields, ∃ value,
      Resolved world start field.2 value ∧ urlencode value <:+: encoded' := by
  induction fields generalizing encoded r with
  | nil =>
    rw [List.foldlM_nil, exec_pure, Prod.mk.injEq, Except.ok.injEq] at h
    rw [h.1]
    exact ⟨List.infix_refl _, fun field hfield => absurd hfield List.not_mem_nil⟩
  | cons field fields ih =>
    rw [List.foldlM_cons] at h
    obtain ⟨middle, s', hfield, hrest⟩ := exec_bind_eq_ok.mp h
    obtain ⟨key, value, s, hkey, hvalue, rfl⟩ := encodeField_ok hfield
    have hs : SameSetup start s := by
      have hkeep := @keeps_resolve world field.1 r
      rw [hkey] at hkeep
      exact sameSetup_trans _ _ _ hsame hkeep
    have hs' : SameSetup start s' := by
      have hkeep := @keeps_resolve world field.2 s
      rw [hvalue] at hkeep
      exact sameSetup_trans _ _ _ hs hkeep
    obtain ⟨hmiddle, hfields⟩ := ih hs' hrest
    -- A pair is written behind what is there, so nothing that was encoded is lost.
    have hbefore : encoded <:+: appendPair encoded (key, value) := by
      unfold appendPair
      by_cases hnil : encoded = []
      · rw [hnil]
        exact List.nil_infix
      · rw [if_neg hnil, List.append_assoc]
        exact (List.prefix_append _ _).isInfix
    have hhere : urlencode value <:+: appendPair encoded (key, value) := by
      unfold appendPair writePair
      exact ((List.suffix_cons '=' _).trans (List.suffix_append _ _)).isInfix.trans
        (List.suffix_append _ _).isInfix
    refine ⟨hbefore.trans hmiddle, fun other hother => ?_⟩
    rcases List.mem_cons.mp hother with rfl | hother
    · exact ⟨value, ⟨s, s', hs, hvalue⟩, hhere.trans hmiddle⟩
    · exact hfields other hother

/-- The body of a request that was prepared was built by a resolver with the setup of the start. -/
theorem prepare_body {platform : Platform} {network : Network Url} {ctx : RunContext}
    {spec : RequestSpec} {s t : EngineState Url} {sent : SentRequest} {pending : Bool}
    (h : exec (prepare platform network ctx spec) s = (.ok (sent, pending), t)) :
    ∃ r r' body, SameSetup s.resolver r ∧
      exec (buildBody platform ctx.baseDir spec) r = (.ok body, r') ∧
      sent.body = body.bind fun b => Utf8.decode? b.bytes := by
  unfold prepare at h
  obtain ⟨parts, s₁, hparts, h⟩ := exec_bind_eq_ok.mp h
  obtain ⟨⟨url, known⟩, s₂, -, h⟩ := exec_bind_eq_ok.mp h
  obtain ⟨cookie, s₃, -, h⟩ := exec_bind_eq_ok.mp h
  rw [exec_pure, Prod.mk.injEq, Except.ok.injEq, Prod.mk.injEq] at h
  obtain ⟨⟨rfl, -⟩, -⟩ := h
  have hlift : ∀ {α : Type} {call : ResolverM α}, Keeps SameSetup call →
      Keeps SameResolver (onResolver (liftCore call) : EngineM Url α) := fun hcall =>
    onResolver_sameResolver (liftCore_keeps hcall)
  have hmap : ∀ map, Keeps SameSetup (resolveMap platform.world map) := kept_sameSetup.resolveMap
  -- The URL, the query and the headers are resolved before the body.
  unfold prepareParts at hparts
  obtain ⟨text, u₁, htext, hparts⟩ := exec_bind_eq_ok.mp hparts
  have h₁ : SameResolver s u₁ := by
    have hresolve : Keeps SameSetup (resolve platform.world spec.url) :=
      kept_sameSetup.resolve spec.url
    have hkeep := hlift hresolve s
    unfold resolveText at htext
    rwa [htext] at hkeep
  split at hparts
  · exact nomatch congrArg Prod.fst hparts
  · obtain ⟨query, u₂, hquery, hparts⟩ := exec_bind_eq_ok.mp hparts
    have h₂ : SameResolver u₁ u₂ := by
      have hkeep := hlift (hmap spec.query) u₁
      rwa [hquery] at hkeep
    obtain ⟨headers, u₃, hheaders, hparts⟩ := exec_bind_eq_ok.mp hparts
    have h₃ : SameResolver u₂ u₃ := by
      have hkeep := hlift (hmap spec.headers) u₂
      rwa [hheaders] at hkeep
    obtain ⟨body, u₄, hbody, hparts⟩ := exec_bind_eq_ok.mp hparts
    obtain ⟨hout, -⟩ := Prod.mk.inj hparts
    obtain rfl := Except.ok.inj hout
    have hrun : exec (buildBody platform ctx.baseDir spec) u₃.resolver =
        (.ok body, u₄.resolver) := by
      unfold onResolver at hbody
      rw [exec_zoom] at hbody
      obtain ⟨hok, hstate⟩ := Prod.mk.inj hbody
      refine Prod.ext hok ?_
      rw [← hstate]
    exact ⟨u₃.resolver, u₄.resolver, body,
      sameResolver_trans _ _ _ (sameResolver_trans _ _ _ h₁ h₂) h₃, hrun, rfl⟩

/-- The encoded value of a form field is on the wire. -/
theorem form_on_wire {platform : Platform} {network : Network Url} {ctx : RunContext}
    {spec : RequestSpec} {s t : EngineState Url} {sent : SentRequest} {pending : Bool}
    {fields : SortedMap Text Text} (hbody : spec.body = some (.form fields))
    (h : exec (prepare platform network ctx spec) s = (.ok (sent, pending), t)) :
    ∃ body, sent.body = some body ∧ ∀ field ∈ fields.entries, ∃ value,
      Resolved platform.world s.resolver field.2 value ∧ urlencode value <:+: body := by
  obtain ⟨r, r', built, hsame, hbuild, hsent⟩ := prepare_body h
  obtain ⟨contentType, hform⟩ := buildBody_form platform ctx.baseDir hbody
  rw [hform] at hbuild
  obtain ⟨encoded, u, hfields, hpure⟩ := exec_bind_eq_ok.mp hbuild
  rw [exec_pure, Prod.mk.injEq, Except.ok.injEq] at hpure
  refine ⟨encoded, ?_, (encodeFields_mono hsame hfields).2⟩
  rw [hsent, ← hpure.1]
  exact (Utf8.decode?_eq_some_iff _ _).mpr rfl

/-- A part of a list of parts stands in the joined text. -/
theorem infix_intercalate_of_mem {sep part : Text} {parts : List Text} (h : part ∈ parts) :
    part <:+: List.intercalate sep parts := by
  induction parts with
  | nil => exact absurd h List.not_mem_nil
  | cons first rest ih =>
    by_cases hrest : rest = []
    · rw [hrest, List.mem_singleton] at h
      rw [hrest, h, List.intercalate_singleton]
    · rw [List.intercalate_cons_of_ne_nil hrest]
      rcases List.mem_cons.mp h with rfl | h
      · rw [List.append_assoc]
        exact (List.prefix_append _ _).isInfix
      · exact (ih h).trans (List.suffix_append _ _).isInfix

/-- A text without a quote stands in the quoted text as it is. -/
theorem infix_quote {w t : Text} (hquote : '\'' ∉ w) (h : w <:+: t) : w <:+: quote t := by
  obtain ⟨front, rest, rfl⟩ := h
  have hkeep : (w.flatMap fun d => if d = '\'' then "'\\''".toList else [d]) = w := by
    have hone : ∀ d ∈ w, (if d = '\'' then "'\\''".toList else [d]) = [d] := by
      intro d hd
      refine if_neg fun heq => hquote ?_
      rwa [← heq]
    rw [List.flatMap_congr hone, List.flatMap_singleton']
  unfold quote
  rw [replace_singleton, List.flatMap_append, List.flatMap_append, hkeep]
  refine List.IsInfix.trans ?_ (List.prefix_append _ _).isInfix
  exact List.IsInfix.trans ⟨_, _, rfl⟩ (List.suffix_cons _ _).isInfix

/-- An escaped text has no quote. -/
theorem quote_not_mem_urlencode (v : Text) : '\'' ∉ urlencode v := by
  have hall : ∀ n < 256, '\'' ∉ urlencodeByte (UInt8.ofNat n) := by decide +kernel
  intro hmem
  obtain ⟨byte, -, hbyte⟩ := List.mem_flatMap.mp hmem
  refine hall byte.toNat byte.toNat_lt ?_
  rwa [UInt8.ofNat_toNat]

/-- The body that is not empty is printed with `--data-raw`. -/
theorem infix_toCurl_of_body {upper : Text → Text} {request : SentRequest} {redactor : Redactor}
    {multiline showSecrets : Bool} {body : Text} (hbody : request.body = some body)
    (hne : body ≠ []) : quote (redactor.apply body) <:+:
      toCurl upper request redactor multiline showSecrets := by
  rw [toCurl_eq_parts]
  refine List.IsInfix.trans (List.suffix_append "--data-raw ".toList _).isInfix
    (infix_intercalate_of_mem (List.mem_append_right _ (List.mem_append_right _ ?_)))
  rw [hbody, Option.elim_some, if_neg hne]
  exact List.mem_singleton_self _

/-- **A form shows its secrets in full where they are escaped.** Of a form that was prepared, each
field has a value whose encoded secret is printed, unless a known value overlaps it. -/
theorem shows_form_secret (platform : Platform) (network : Network Url) (ctx : RunContext)
    (spec : RequestSpec) (s t : EngineState Url) (sent : SentRequest) (pending : Bool)
    (fields : SortedMap Text Text) (hbody : spec.body = some (.form fields))
    (h : exec (prepare platform network ctx spec) s = (.ok (sent, pending), t)) :
    ∀ field ∈ fields.entries, ∃ value, Resolved platform.world s.resolver field.2 value ∧
      ∀ v, v <:+: value → v ≠ [] →
        (∀ o ∈ (Redactor.new t.resolver.usedSecretList).secrets, ¬ Overlap o (urlencode v)) →
        ∀ upper multiline, urlencode v <:+:
          toCurl upper sent (.forCommand t.resolver.usedSecretList false) multiline false := by
  obtain ⟨body, hsent, hfields⟩ := form_on_wire hbody h
  intro field hfield
  obtain ⟨value, hvalue, hin⟩ := hfields field hfield
  refine ⟨value, hvalue, fun v hv hne hclear upper multiline => ?_⟩
  have hwire : urlencode v <:+: body := (urlencode_mono hv).trans hin
  have hshown : urlencode v <:+: (Redactor.new t.resolver.usedSecretList).apply body := by
    obtain ⟨front, rest, rfl⟩ := hwire
    unfold Redactor.apply
    rw [Redactor.maskAll_eq_replaceAll, replaceAll_fixed hclear]
    exact ⟨_, _, rfl⟩
  -- An empty body would not be printed.
  have hnil : body ≠ [] := by
    rintro rfl
    have henc := List.eq_nil_of_infix_nil hwire
    have hdecode := urlencode_encoder.decode v
    rw [henc] at hdecode
    exact hne hdecode.symm
  exact (infix_quote (quote_not_mem_urlencode v) hshown).trans (infix_toCurl_of_body hsent hnil)

/-- A login with a password in a form. -/
def loginRequest : RequestSpec :=
  { RequestSpec.new id "POST".toList "https://app.test/login".toList with
    body := some (.form (SortedMap.empty.insert "password".toList
      "\x7b\x7bsecret:login\x7d\x7d".toList)) }

/-- An engine whose vault has the password. -/
def loginEngine : EngineState (Text × Text) :=
  { EngineState.fresh with
    resolver := Resolver.new.withSecrets fun name =>
      if name = "login".toList then some "p@ss word".toList else none }

/-- The command for the prepared form prints the password, with its escapes. -/
theorem shows_form_secret_password : ∃ sent pending t,
    exec (prepare emptyPlatform (scriptedNetwork []) defaultContext loginRequest) loginEngine
      = (.ok (sent, pending), t) ∧ t.resolver.usedSecretList = ["p@ss word".toList] ∧
    "p%40ss+word".toList <:+:
      toCurl asciiUpper sent (.forCommand t.resolver.usedSecretList false) false false := by
  have hused : (exec (prepare emptyPlatform (scriptedNetwork []) defaultContext loginRequest)
      loginEngine).2.resolver.usedSecretList = ["p@ss word".toList] := by decide +kernel
  have hok : (exec (prepare emptyPlatform (scriptedNetwork []) defaultContext loginRequest)
      loginEngine).1.toOption.isSome = true := by decide +kernel
  generalize hrun : exec (prepare emptyPlatform (scriptedNetwork []) defaultContext loginRequest)
    loginEngine = run at hused hok
  obtain ⟨result, t⟩ := run
  obtain ⟨⟨sent, pending⟩, hsent⟩ := Option.isSome_iff_exists.mp hok
  obtain rfl : result = .ok (sent, pending) := eq_ok_of_toOption hsent
  have hfield : ("password".toList, "\x7b\x7bsecret:login\x7d\x7d".toList) ∈
      (SortedMap.empty.insert "password".toList
        "\x7b\x7bsecret:login\x7d\x7d".toList).entries := by decide
  obtain ⟨value, hvalue, hshown⟩ := shows_form_secret emptyPlatform (scriptedNetwork [])
    defaultContext loginRequest loginEngine t sent pending _ rfl hrun _ hfield
  obtain ⟨u, u', hsetup, hresolve⟩ := hvalue
  have hname : Derived "login".toList := forall_mem_of_all (by decide)
  have hsecret : u.secrets "login".toList = some "p@ss word".toList := by
    rw [hsetup.2.1]
    rfl
  have hpassword := resolve_secretRef emptyPlatform.world hname u hsecret
  have hvalue : value = "p@ss word".toList := by
    have hout := congrArg Prod.fst hresolve
    exact Except.ok.inj (hout.symm.trans hpassword)
  have hwire : urlencode "p@ss word".toList = "p%40ss+word".toList := by decide +kernel
  have hplain := hshown "p@ss word".toList (by rw [hvalue]) (by decide)
  rw [hwire, hused] at hplain
  refine ⟨sent, pending, t, rfl, hused, ?_⟩
  rw [hused]
  exact hplain (by decide +kernel) asciiUpper false

end Gabriel.Cli
