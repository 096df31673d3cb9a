import Gabriel.Cli.CaptureSummary
import Gabriel.Lib.Replace
import Gabriel.Proofs.TornLog

/-!
# `Gabriel.Proofs.CaptureSummary`: what the summary of the traffic depends on

A support bundle is sent to other people, and `logs/captures-summary.json` is to hold hosts and
counts only. Two logs whose captures agree on the host and the port, the status and the time should
have the same summary.

`summaryHost` takes what stands between `://` and the next slash. That is more than the host: the
user information in front of it, and a query or a fragment that follows it without a slash, are
counted under a key of their own. `exposed` is what a URL has there, read off the input.

For the converse the summary has to be read back, from the inside out: counting keys forgets their
order and nothing else, a JSON string can be read from the front of a text, and the lines of the
hosts are told apart by their line breaks. So two summaries are the same file only if they count the
same hosts. The theorems:

* `summaryHost_eq`: the key of a capture is the front of its URL; `urlHead_parts` cuts it.
* `foldl_countKey_eq_iff`: two lists of keys have the same counts exactly when one is the other in
  another order.
* `jsonString_append_inj`: a JSON string can be read from the front of a text.
* `commaLines_inj`: lines with a comma between them can be read back.
* `summaryFile_eq_iff`: for two logs that agree, the files are the same exactly when the logs show
  the same beside the hosts, as often.
-/

set_option autoImplicit false

namespace Gabriel.Cli

open Gabriel.Core Gabriel.Proxy Text CaptureStore

/-! ### Counting -/

/-- The counts of a list of keys. -/
theorem get?_foldl_countKey {κ : Type} [LinearOrder κ] (keys : List κ) (map : SortedMap κ Nat)
    (k : κ) :
    ((keys.foldl countKey map).get? k).getD 0 = (map.get? k).getD 0 + keys.count k := by
  induction keys generalizing map with
  | nil => rfl
  | cons key keys ih =>
    rw [List.foldl_cons, ih, countKey, SortedMap.get?_insert, List.count_cons]
    by_cases hkey : k = key
    · rw [if_pos hkey, hkey, beq_self_eq_true, if_pos rfl, Option.getD_some]
      omega
    · rw [if_neg hkey, beq_false_of_ne (Ne.symm hkey), if_neg Bool.false_ne_true]
      omega

/-- A key has a count when it had one or is in the list. -/
theorem isSome_get?_foldl_countKey {κ : Type} [LinearOrder κ] (keys : List κ)
    (map : SortedMap κ Nat) (k : κ) :
    ((keys.foldl countKey map).get? k).isSome = ((map.get? k).isSome || keys.contains k) := by
  induction keys generalizing map with
  | nil => simp
  | cons key keys ih =>
    rw [List.foldl_cons, ih, countKey, SortedMap.get?_insert, List.contains_cons]
    by_cases hkey : k = key
    · rw [if_pos hkey, hkey, beq_self_eq_true]
      simp
    · rw [if_neg hkey, beq_false_of_ne hkey, Bool.false_or]

/-- Two lists of keys have the same counts exactly when one is the other in another order. -/
theorem foldl_countKey_eq_iff {κ : Type} [LinearOrder κ] {keys keys' : List κ} :
    keys.foldl countKey SortedMap.empty = keys'.foldl countKey SortedMap.empty ↔
      keys.Perm keys' := by
  -- The map holds the counts; a key without an entry counts zero.
  have hcount : ∀ (l : List κ) (k : κ),
      ((l.foldl countKey SortedMap.empty).get? k).getD 0 = l.count k := by
    intro l k
    rw [get?_foldl_countKey, SortedMap.get?_empty, Option.getD_none, Nat.zero_add]
  constructor
  · intro h
    refine List.perm_iff_count.mpr fun k => ?_
    rw [← hcount, ← hcount, h]
  · intro h
    -- Equal counts give equal entries once both maps have the same keys.
    refine SortedMap.ext_get? fun k => ?_
    have hsome : ∀ l : List κ, ((l.foldl countKey SortedMap.empty).get? k).isSome
        = l.contains k := by
      intro l
      rw [isSome_get?_foldl_countKey, SortedMap.get?_empty, Option.isSome_none, Bool.false_or]
    have hpresent : ((keys.foldl countKey SortedMap.empty).get? k).isSome
        = ((keys'.foldl countKey SortedMap.empty).get? k).isSome := by
      rw [hsome, hsome, List.contains_eq_mem, List.contains_eq_mem]
      exact decide_eq_decide.mpr h.mem_iff
    have hvalue : ((keys.foldl countKey SortedMap.empty).get? k).getD 0
        = ((keys'.foldl countKey SortedMap.empty).get? k).getD 0 := by
      rw [hcount, hcount, h.count_eq]
    cases hl : (keys.foldl countKey SortedMap.empty).get? k with
    | none =>
      rw [hl, Option.isSome_none] at hpresent
      exact (Option.isSome_eq_false_iff.mp hpresent.symm |> Option.isNone_iff_eq_none.mp).symm
    | some n =>
      rw [hl, Option.isSome_some] at hpresent
      obtain ⟨m, hm⟩ := Option.isSome_iff_exists.mp hpresent.symm
      rw [hl, hm, Option.getD_some, Option.getD_some] at hvalue
      rw [hm, hvalue]

/-! ### JSON strings -/

/-- The letters of the short escapes, and what they stand for. -/
def shortEscapes : List (Char × Char) :=
  [('"', '"'), ('\\', '\\'), ('\n', 'n'), ('\r', 'r'), ('\t', 't')]

/-- A character of a JSON string is written as it is, with a short escape, or by its number. -/
theorem jsonChar_cases (c : Char) :
    (jsonChar c = [c] ∧ c ≠ '"' ∧ c ≠ '\\' ∧ c ≠ '\n') ∨
    (∃ letter, jsonChar c = ['\\', letter] ∧ (c, letter) ∈ shortEscapes) ∨
    (jsonChar c = '\\' :: 'u' :: paddedHex 4 c.toNat ∧ c.toNat < 0x20) := by
  unfold jsonChar
  by_cases hquote : c = '"'
  · exact Or.inr (Or.inl ⟨'"', if_pos hquote, by simp [shortEscapes, hquote]⟩)
  rw [if_neg hquote]
  by_cases hslash : c = '\\'
  · exact Or.inr (Or.inl ⟨'\\', if_pos hslash, by simp [shortEscapes, hslash]⟩)
  rw [if_neg hslash]
  by_cases hline : c = '\n'
  · exact Or.inr (Or.inl ⟨'n', if_pos hline, by simp [shortEscapes, hline]⟩)
  rw [if_neg hline]
  by_cases hreturn : c = '\r'
  · exact Or.inr (Or.inl ⟨'r', if_pos hreturn, by simp [shortEscapes, hreturn]⟩)
  rw [if_neg hreturn]
  by_cases htab : c = '\t'
  · exact Or.inr (Or.inl ⟨'t', if_pos htab, by simp [shortEscapes, htab]⟩)
  rw [if_neg htab]
  by_cases hlow : c.toNat < 0x20
  · exact Or.inr (Or.inr ⟨if_pos hlow, hlow⟩)
  · exact Or.inl ⟨if_neg hlow, hquote, hslash, hline⟩

/-- The numbers of the control characters have four digits each, which tell them apart. -/
theorem paddedHex_control :
    (∀ n < 0x20, (paddedHex 4 n).length = 4 ∧ '\n' ∉ paddedHex 4 n) ∧
    (∀ m < 0x20, ∀ n < 0x20, paddedHex 4 m = paddedHex 4 n → m = n) := by
  decide +kernel

/-- A short escape stands for one character, and is no escape by a number. -/
theorem shortEscapes_spec {c d letter : Char} (hc : (c, letter) ∈ shortEscapes) :
    ((d, letter) ∈ shortEscapes → c = d) ∧ letter ≠ 'u' ∧ letter ≠ '\n' := by
  have hall : ∀ e ∈ shortEscapes, (∀ f ∈ shortEscapes, f.2 = e.2 → e.1 = f.1) ∧ e.2 ≠ 'u'
      ∧ e.2 ≠ '\n' := by decide
  obtain ⟨hsame, hnumber, hline⟩ := hall _ hc
  exact ⟨fun hd => hsame _ hd rfl, hnumber, hline⟩

/-- The characters of a JSON string can be read one after the other. -/
theorem jsonChar_append_inj {c d : Char} {s t : Text} (h : jsonChar c ++ s = jsonChar d ++ t) :
    c = d ∧ s = t := by
  -- By the first characters: a backslash or none, and behind it a short escape or `u`.
  rcases jsonChar_cases c with ⟨hc, -, hcslash, -⟩ | ⟨letter, hc, hcmem⟩ | ⟨hc, hclow⟩
  · rcases jsonChar_cases d with ⟨hd, -, -, -⟩ | ⟨letter', hd, -⟩ | ⟨hd, -⟩
    · rw [hc, hd] at h
      exact List.cons_eq_cons.mp h
    · rw [hc, hd] at h
      exact absurd (List.cons_eq_cons.mp h).1 hcslash
    · rw [hc, hd] at h
      exact absurd (List.cons_eq_cons.mp h).1 hcslash
  · rcases jsonChar_cases d with ⟨hd, -, hdslash, -⟩ | ⟨letter', hd, hdmem⟩ | ⟨hd, -⟩
    · rw [hc, hd] at h
      exact absurd (List.cons_eq_cons.mp h).1.symm hdslash
    · rw [hc, hd] at h
      obtain ⟨hletter, hrest⟩ := List.cons_eq_cons.mp (List.cons_eq_cons.mp h).2
      rw [← hletter] at hdmem
      exact ⟨(shortEscapes_spec hcmem).1 hdmem, hrest⟩
    · rw [hc, hd] at h
      exact absurd (List.cons_eq_cons.mp (List.cons_eq_cons.mp h).2).1
        (shortEscapes_spec (d := c) hcmem).2.1
  · rcases jsonChar_cases d with ⟨hd, -, hdslash, -⟩ | ⟨letter', hd, hdmem⟩ | ⟨hd, hdlow⟩
    · rw [hc, hd] at h
      exact absurd (List.cons_eq_cons.mp h).1.symm hdslash
    · rw [hc, hd] at h
      exact absurd (List.cons_eq_cons.mp (List.cons_eq_cons.mp h).2).1.symm
        (shortEscapes_spec (d := d) hdmem).2.1
    -- Two characters below 32 have four digits each, and different digits when they differ.
    · rw [hc, hd] at h
      have hdigits := (List.cons_eq_cons.mp (List.cons_eq_cons.mp h).2).2
      have hlength : (paddedHex 4 c.toNat).length = (paddedHex 4 d.toNat).length := by
        rw [(paddedHex_control.1 _ hclow).1, (paddedHex_control.1 _ hdlow).1]
      obtain ⟨hhex, hrest⟩ := List.append_inj hdigits hlength
      exact ⟨Char.toNat_inj.mp (paddedHex_control.2 _ hclow _ hdlow hhex), hrest⟩

/-- A quote ends a JSON string: no character of it starts with one. -/
theorem jsonChar_append_ne_quote (c : Char) (s t : Text) : jsonChar c ++ s ≠ '"' :: t := by
  intro h
  rcases jsonChar_cases c with ⟨hc, hquote, -, -⟩ | ⟨letter, hc, -⟩ | ⟨hc, -⟩
  · rw [hc] at h
    exact hquote (List.cons_eq_cons.mp h).1
  · rw [hc] at h
    exact absurd (List.cons_eq_cons.mp h).1 (by decide)
  · rw [hc] at h
    exact absurd (List.cons_eq_cons.mp h).1 (by decide)

/-- A JSON string can be read from the front of a text. -/
theorem jsonString_append_inj {a b s t : Text} (h : jsonString a ++ s = jsonString b ++ t) :
    a = b ∧ s = t := by
  -- Both texts are read character by character, up to the closing quote.
  have hbody : ∀ {a b : Text}, a.flatMap jsonChar ++ '"' :: s = b.flatMap jsonChar ++ '"' :: t →
      a = b ∧ s = t := by
    intro a
    induction a with
    | nil =>
      intro b hb
      cases b with
      | nil => exact ⟨rfl, (List.cons_eq_cons.mp hb).2⟩
      | cons d b =>
        rw [List.flatMap_cons, List.append_assoc] at hb
        exact absurd hb.symm (jsonChar_append_ne_quote d _ _)
    -- A character of one text against the closing quote of the other is told apart by its first
    -- letter.
    | cons c a ih =>
      intro b hb
      cases b with
      | nil =>
        rw [List.flatMap_cons, List.append_assoc] at hb
        exact absurd hb (jsonChar_append_ne_quote c _ _)
      | cons d b =>
        rw [List.flatMap_cons, List.flatMap_cons, List.append_assoc, List.append_assoc] at hb
        obtain ⟨hchar, hrest⟩ := jsonChar_append_inj hb
        obtain ⟨htext, htail⟩ := ih hrest
        exact ⟨by rw [hchar, htext], htail⟩
  unfold jsonString at h
  rw [List.cons_append, List.cons_append, List.append_assoc, List.append_assoc] at h
  exact hbody (List.cons_eq_cons.mp h).2

/-- A JSON string is on one line. -/
theorem newline_not_mem_jsonString (value : Text) : '\n' ∉ jsonString value := by
  have hchar : ∀ c, '\n' ∉ jsonChar c := by
    intro c
    rcases jsonChar_cases c with ⟨hc, -, -, hline⟩ | ⟨letter, hc, hmem⟩ | ⟨hc, hlow⟩
    · rw [hc, List.mem_singleton]
      exact fun h => hline h.symm
    · rw [hc]
      have hletter := (shortEscapes_spec (d := c) hmem).2.2
      simp [Ne.symm hletter]
    · rw [hc]
      have hdigits := (paddedHex_control.1 _ hlow).2
      simp [hdigits]
  unfold jsonString
  simp only [List.mem_append, List.mem_cons, List.mem_flatMap, List.not_mem_nil, or_false]
  rintro ((h | ⟨c, -, hc⟩) | h)
  · exact absurd h (by decide)
  · exact hchar c hc
  · exact absurd h (by decide)

/-! ### The lines of the hosts -/

/-- The line of a host tells the host and the count. -/
theorem hostLine_injective : Function.Injective hostLine := by
  rintro ⟨a, m⟩ ⟨b, n⟩ h
  unfold hostLine at h
  simp only [List.append_assoc] at h
  obtain ⟨htext, hrest⟩ := jsonString_append_inj (List.append_cancel_left h)
  have hcount : m = n := natText_injective (List.append_cancel_left hrest)
  rw [htext, hcount]

/-- The line of a host is one line. -/
theorem newline_not_mem_hostLine (e : Text × Nat) : '\n' ∉ hostLine e := by
  unfold hostLine
  simp only [List.mem_append]
  rintro (((h | h) | h) | h)
  · exact absurd h (by decide)
  · exact newline_not_mem_jsonString e.1 h
  · exact absurd h (by decide)
  · exact absurd (isDigit_of_mem_natText h) (by decide)

/-- The first of some lines with a comma between them ends at the first line break. -/
theorem splitOnce_commaLines {x : Text} (hx : '\n' ∉ x) (l : List Text) :
    splitOnce ['\n'] (List.intercalate [',', '\n'] (x :: l))
      = if l = [] then none else some (x ++ [','], List.intercalate [',', '\n'] l) := by
  by_cases hl : l = []
  · rw [if_pos hl, hl, List.intercalate_singleton]
    exact splitOnce_singleton_eq_none.mpr hx
  · rw [if_neg hl, List.intercalate_cons_of_ne_nil hl]
    refine splitOnce_singleton_iff.mpr ⟨by simp, ?_⟩
    rw [List.mem_append, List.mem_singleton]
    exact fun h => h.elim hx (by decide)

/-- Lines with a comma between them can be read back. -/
theorem commaLines_inj {l m : List Text} (hl : l ≠ []) (hm : m ≠ []) (hlines : ∀ x ∈ l, '\n' ∉ x)
    (hlines' : ∀ x ∈ m, '\n' ∉ x)
    (h : List.intercalate [',', '\n'] l = List.intercalate [',', '\n'] m) : l = m := by
  induction l generalizing m with
  | nil => exact absurd rfl hl
  | cons x l ih =>
    cases m with
    | nil => exact absurd rfl hm
    | cons y m =>
      -- Both sides are cut at the first newline, which ends the first line.
      have hx := splitOnce_commaLines (hlines x List.mem_cons_self) l
      have hy := splitOnce_commaLines (hlines' y List.mem_cons_self) m
      rw [h, hy] at hx
      -- One of them ends there and the other goes on, or both do the same.
      by_cases hlast : l = []
      · by_cases hlast' : m = []
        · rw [hlast, hlast', List.intercalate_singleton, List.intercalate_singleton] at h
          rw [hlast, hlast', h]
        · rw [if_pos hlast, if_neg hlast'] at hx
          exact nomatch hx
      · by_cases hlast' : m = []
        · rw [if_neg hlast, if_pos hlast'] at hx
          exact nomatch hx
        · rw [if_neg hlast, if_neg hlast'] at hx
          obtain ⟨hfirst, hrest⟩ := Prod.mk.inj (Option.some.inj hx)
          rw [List.append_cancel_right hfirst,
            ih hlast hlast' (fun z hz => hlines z (List.mem_cons_of_mem x hz))
              (fun z hz => hlines' z (List.mem_cons_of_mem y hz)) hrest.symm]

/-! ### What a URL shows -/

/-- What stands behind the first `://` of a URL. -/
def afterScheme (url : Text) : Option Text := (splitOnce "://".toList url).map (·.2)

/-- The authority at the front of a text: up to a slash, a query or a fragment. -/
def authority (rest : Text) : Text := rest.takeWhile fun c => c ∉ "/?#".toList

/-- The user information of an authority, up to its last `@`. -/
def userinfo (rest : Text) : Text := (authority rest).rdropWhile (· ≠ '@')

/-- The host and the port of an authority. A colon without a port is not part of them. -/
def hostPort (rest : Text) : Text := ((authority rest).rtakeWhile (· ≠ '@')).rdropWhile (· = ':')

/-- The host and the port of a captured URL. -/
def hostOf (capture : Capture) : Option Text := (afterScheme capture.request.url).map hostPort

/-- The front of a text, up to a slash or a `://`. -/
def urlHead (rest : Text) : Text :=
  (((splitOnce "://".toList rest).map (·.1)).getD rest).takeWhile (· ≠ '/')

/-- What a text shows beside its host and port: the user information in front of them, and what
follows them. -/
def besideHost (head : Text) : Text × Text :=
  (userinfo head, head.drop ((userinfo head).length + (hostPort head).length))

/-- What the URL of a capture has up to the first slash behind `://`: the host and the port, the
user information in front of them, and what follows them. -/
def exposed (capture : Capture) : Option (Text × Text × Text) :=
  (afterScheme capture.request.url).map fun rest =>
    (hostPort rest, besideHost (urlHead rest))

/-- The summary shows the front of a URL. -/
theorem summaryHost_eq (url : Text) :
    summaryHost url = ((afterScheme url).map urlHead).getD "unknown".toList := by
  have hpat : "://".toList ≠ [] := by decide
  unfold summaryHost afterScheme
  cases hsplit : splitOnce "://".toList url with
  | none => rw [splitSeq_of_absent (splitOnce_eq_none_iff.mp hsplit)]; rfl
  | some e =>
    obtain ⟨scheme, rest⟩ := e
    rw [splitSeq_of_splitOnce hpat hsplit, List.getElem?_cons_succ, Option.map_some,
      Option.map_some, Option.getD_some]
    unfold urlHead
    cases hrest : splitOnce "://".toList rest with
    | none => rw [splitSeq_of_absent (splitOnce_eq_none_iff.mp hrest)]; rfl
    | some e' => rw [splitSeq_of_splitOnce hpat hrest]; rfl

/-- A stop before the end cuts a text as it cuts its front. -/
theorem takeWhile_append_of_exists {p : Char → Bool} {s : Text} (h : ∃ c ∈ s, p c = false)
    (t : Text) : (s ++ t).takeWhile p = s.takeWhile p := by
  induction s with
  | nil => exact absurd h (by simp)
  | cons c s ih =>
    rw [List.cons_append, List.takeWhile_cons, List.takeWhile_cons]
    by_cases hc : p c = true
    · obtain ⟨d, hd, hstop⟩ := h
      have hmem : d ∈ s := by
        rcases List.mem_cons.mp hd with rfl | hmem
        · rw [hc] at hstop
          exact absurd hstop (by decide)
        · exact hmem
      rw [if_pos hc, if_pos hc, ih ⟨d, hmem, hstop⟩]
    · rw [if_neg hc, if_neg hc]

/-- The authority ends no later than the first slash. -/
theorem authority_takeWhile (rest : Text) :
    authority (rest.takeWhile (· ≠ '/')) = authority rest := by
  unfold authority
  rw [List.takeWhile_takeWhile]
  congr 1
  funext c
  by_cases hc : c = '/'
  · rw [hc]
    decide
  · simp [hc]

/-- The front of a text names the same host and port. -/
theorem hostPort_urlHead (rest : Text) : hostPort (urlHead rest) = hostPort rest := by
  unfold urlHead
  cases hsplit : splitOnce "://".toList rest with
  | none =>
    show hostPort (rest.takeWhile (· ≠ '/')) = hostPort rest
    rw [hostPort, authority_takeWhile, hostPort]
  | some e =>
    obtain ⟨front, back⟩ := e
    show hostPort (front.takeWhile (· ≠ '/')) = hostPort rest
    have hrest : rest = front ++ ':' :: '/' :: '/' :: back := by
      rw [eq_of_splitOnce hsplit]
      simp
    rw [hostPort, authority_takeWhile, hostPort, hrest]
    -- The authority ends before the `://`, or runs up to its colon.
    by_cases hstop : ∃ c ∈ front, decide (c ∉ "/?#".toList) = false
    · rw [authority, authority, takeWhile_append_of_exists hstop]
    · -- The authority goes on to the colon, which is not part of the host and the port.
      have hall : ∀ c ∈ front, decide (c ∉ "/?#".toList) = true := by
        intro c hc
        by_contra hno
        exact hstop ⟨c, hc, Bool.eq_false_of_not_eq_true hno⟩
      have hfront : authority front = front := List.takeWhile_eq_self_iff.mpr hall
      have hlong : authority (front ++ ':' :: '/' :: '/' :: back) = front ++ [':'] := by
        unfold authority
        rw [List.takeWhile_append_of_pos hall]
        congr 1
      rw [hfront, hlong, List.rtakeWhile_concat_pos _ _ _ (by decide),
        List.rdropWhile_concat_pos _ _ _ (by decide)]

/-- The front of a text, from its parts. -/
theorem urlHead_parts (head : Text) :
    userinfo head ++ hostPort head ++ (besideHost head).2 = head := by
  have hauthority : userinfo head ++ (authority head).rtakeWhile (· ≠ '@') = authority head :=
    List.rdropWhile_append_rtakeWhile
  have hfront : userinfo head ++ hostPort head <+: head := by
    have hparts : userinfo head ++ hostPort head <+: authority head := by
      rw [← hauthority]
      exact (List.prefix_append_right_inj _).mpr (List.rdropWhile_prefix _ _)
    exact hparts.trans (List.takeWhile_prefix _)
  have hdrop := List.prefix_iff_eq_append.mp hfront
  rwa [List.length_append] at hdrop

/-- The front of a captured URL. -/
def headOf (capture : Capture) : Option Text := (afterScheme capture.request.url).map urlHead

/-- What a URL shows, from the front of it. -/
theorem exposed_eq :
    exposed = Option.map (fun head => (hostPort head, besideHost head)) ∘ headOf := by
  funext capture
  show (afterScheme capture.request.url).map _
    = ((afterScheme capture.request.url).map urlHead).map _
  rw [Option.map_map]
  congr 1
  funext rest
  show (hostPort rest, besideHost (urlHead rest))
    = (hostPort (urlHead rest), besideHost (urlHead rest))
  rw [hostPort_urlHead]

/-- The front of a URL, from what it shows. -/
theorem headOf_eq : headOf = Option.map (fun e => e.2.1 ++ e.1 ++ e.2.2) ∘ exposed := by
  funext capture
  rw [exposed_eq, Function.comp_apply, Function.comp_apply, Option.map_map]
  cases headOf capture with
  | none => rfl
  | some head => exact congrArg some (urlHead_parts head).symm

/-! ### Two logs -/

/-- The counts of a list with a word for what is missing. -/
theorem count_map_getD {α : Type} [DecidableEq α] (l : List (Option α)) (d x : α) :
    (l.map (·.getD d)).count x = l.count (some x) + if x = d then l.count none else 0 := by
  induction l with
  | nil => simp
  | cons o l ih =>
    rw [List.map_cons, List.count_cons, List.count_cons, List.count_cons, ih]
    cases o with
    | none =>
      by_cases hx : x = d
      · simp [hx, Nat.add_assoc]
      · simp [hx, Ne.symm hx]
    | some y =>
      by_cases hx : y = x
      · simp [hx, Nat.add_right_comm]
      · simp [hx]

/-- A word for what is missing hides nothing when the same number is missing. -/
theorem perm_map_getD_iff {α : Type} [DecidableEq α] {l m : List (Option α)} (d : α)
    (hnone : l.count none = m.count none) :
    (l.map (·.getD d)).Perm (m.map (·.getD d)) ↔ l.Perm m := by
  constructor
  · intro h
    refine List.perm_iff_count.mpr fun o => ?_
    cases o with
    | none => exact hnone
    | some x =>
      have hcount := h.count_eq x
      rw [count_map_getD, count_map_getD, hnone] at hcount
      exact Nat.add_right_cancel hcount
  · exact fun h => h.map _

/-- Two captures that agree on the host and the port, the status and the time. -/
structure AgreeOutside (a b : Capture) : Prop where
  host : hostOf a = hostOf b
  status : a.status = b.status
  atMs : a.atMs = b.atMs

/-- The hosts of a summary, as they are counted. -/
def shownHosts (captures : List Capture) : List Text :=
  captures.map fun capture => summaryHost capture.request.url

/-- Logs that agree show the same hosts exactly when they show the same beside them. -/
theorem shownHosts_perm_iff {captures captures' : List Capture}
    (h : List.Forall₂ AgreeOutside captures captures') :
    (shownHosts captures).Perm (shownHosts captures') ↔
      (captures.map exposed).Perm (captures'.map exposed) := by
  -- Agreeing outside of the URLs' fronts means the same shown host, or the same lack of one.
  have hhosts : captures.map hostOf = captures'.map hostOf := by
    induction h with
    | nil => rfl
    | cons hagree _ ih => rw [List.map_cons, List.map_cons, hagree.host, ih]
  have hshown : ∀ l : List Capture,
      shownHosts l = (l.map headOf).map (·.getD "unknown".toList) := by
    intro l
    rw [shownHosts, List.map_map]
    exact List.map_congr_left fun c _ => summaryHost_eq c.request.url
  -- A URL without a scheme has no host, whichever of the two is asked.
  have hmissing : ∀ l : List Capture, (l.map headOf).count none = (l.map hostOf).count none := by
    intro l
    induction l with
    | nil => rfl
    | cons c l ih =>
      rw [List.map_cons, List.map_cons, List.count_cons, List.count_cons, ih]
      unfold headOf hostOf
      cases afterScheme c.request.url with
      | none => rfl
      | some rest => rfl
  have hnone : (captures.map headOf).count none = (captures'.map headOf).count none := by
    rw [hmissing, hmissing, hhosts]
  -- So the place-holder `unknown` does not mix them up, and the rest is a renaming of the keys.
  rw [hshown, hshown, perm_map_getD_iff _ (by convert hnone)]
  constructor
  · intro hperm
    rw [exposed_eq, ← List.map_map, ← List.map_map]
    exact hperm.map _
  · intro hperm
    rw [headOf_eq, ← List.map_map, ← List.map_map]
    exact hperm.map _

/-- Two summaries that agree beside their hosts. -/
structure AgreeBesideHosts (s t : CaptureSummary) : Prop where
  total : s.total = t.total
  byStatus : s.byStatus = t.byStatus
  oldestMs : s.oldestMs = t.oldestMs
  newestMs : s.newestMs = t.newestMs

/-- Logs that agree have summaries that agree beside their hosts. -/
theorem agreeBesideHosts_foldl {captures captures' : List Capture}
    (h : List.Forall₂ AgreeOutside captures captures') {s t : CaptureSummary}
    (hst : AgreeBesideHosts s t) :
    AgreeBesideHosts (captures.foldl .add s) (captures'.foldl .add t) := by
  induction h generalizing s t with
  | nil => exact hst
  | cons hagree _ ih =>
    refine ih ⟨hst.total, ?_, ?_, ?_⟩
    · unfold CaptureSummary.add
      dsimp only
      rw [hagree.status, hst.byStatus]
    · show some _ = some _
      rw [hst.oldestMs, hagree.atMs]
    · show some _ = some _
      rw [hst.newestMs, hagree.atMs]

/-- The hosts of a summary are counted one after the other. -/
theorem byHost_foldl (captures : List Capture) (s : CaptureSummary) :
    (captures.foldl .add s).byHost = (shownHosts captures).foldl countKey s.byHost := by
  induction captures generalizing s with
  | nil => rfl
  | cons capture captures ih =>
    rw [List.foldl_cons, ih]
    rfl

/-- The summary of a log counts all its captures. -/
theorem collectCaptureSummary_eq (parse : List UInt8 → Option Capture) {content : List UInt8}
    (hsize : content.length < 2 ^ 64) :
    collectCaptureSummary parse (some content)
      = some ((newestFirst parse content).foldl .add
          { total := (newestFirst parse content).length }) := by
  have hall : CaptureStore.list parse (some content) {} usizeMax = newestFirst parse content := by
    have hcaptures := length_newestFirst_le parse content
    rw [list_empty_filter, List.take_of_length_le]
    show (newestFirst parse content).length ≤ 2 ^ 64 - 1
    omega
  unfold collectCaptureSummary
  rw [if_neg (by exact Option.some_ne_none content), hall]

/-- Summaries that agree beside their hosts, and count the same keys or both none, are written
alike exactly when their hosts are the same. -/
theorem capturesJson_eq_iff {s t : CaptureSummary} (h : AgreeBesideHosts s t)
    (hempty : s.byHost.entries = [] ↔ t.byHost.entries = []) :
    capturesJson (some s) = capturesJson (some t) ↔ s.byHost = t.byHost := by
  constructor
  · intro hjson
    unfold capturesJson at hjson
    -- Take away what is written around the hosts; what remains is their lines.
    dsimp only at hjson
    rw [h.total, h.oldestMs, h.newestMs, h.byStatus] at hjson
    have hlines := List.append_cancel_left (List.append_cancel_right (List.append_cancel_right
      (List.append_cancel_right hjson)))
    rw [show ",\n".toList = [',', '\n'] by decide] at hlines
    have hentries : s.byHost.entries = t.byHost.entries := by
      by_cases hs : s.byHost.entries = []
      · rw [hs, hempty.mp hs]
      -- The lines are read back one by one, and each gives its host and its count.
      · refine List.map_injective_iff.mpr hostLine_injective (commaLines_inj ?_ ?_ ?_ ?_ hlines)
        · exact fun hnil => hs (List.map_eq_nil_iff.mp hnil)
        · exact fun hnil => hs (hempty.mpr (List.map_eq_nil_iff.mp hnil))
        · intro line hline
          obtain ⟨e, -, rfl⟩ := List.mem_map.mp hline
          exact newline_not_mem_hostLine e
        · intro line hline
          obtain ⟨e, -, rfl⟩ := List.mem_map.mp hline
          exact newline_not_mem_hostLine e
    cases hs : s.byHost
    cases ht : t.byHost
    rw [hs, ht] at hentries
    congr
  · intro hhosts
    unfold capturesJson
    dsimp only
    rw [h.total, h.oldestMs, h.newestMs, h.byStatus, hhosts]

/-- A list of keys is counted in an empty map when there is none. -/
theorem entries_foldl_countKey_eq_nil {keys : List Text} :
    (keys.foldl countKey SortedMap.empty).entries = [] ↔ keys = [] := by
  constructor
  · intro h
    cases keys with
    | nil => rfl
    | cons key keys =>
      have hsome := isSome_get?_foldl_countKey (key :: keys) SortedMap.empty key
      rw [SortedMap.get?, h] at hsome
      simp [SortedMap.lookupEntry] at hsome
  · intro h
    rw [h]
    rfl

/-- The contents of `logs/captures-summary.json` for a log. -/
def summaryFile (parse : List UInt8 → Option Capture) (content : List UInt8) : Text :=
  capturesJson (collectCaptureSummary parse (some content))

/-- **The summary shows what stands beside the hosts.** For any two logs that agree, capture by
capture, on the host and the port, the status and the time: the summaries are the same if and only
if the URLs show, as often, the same text around the host before the first slash. -/
theorem summaryFile_eq_iff (parse : List UInt8 → Option Capture) {content content' : List UInt8}
    (hsize : content.length < 2 ^ 64) (hsize' : content'.length < 2 ^ 64)
    (hagree : List.Forall₂ AgreeOutside (newestFirst parse content)
      (newestFirst parse content')) :
    summaryFile parse content = summaryFile parse content' ↔
      ((newestFirst parse content).map exposed).Perm
          ((newestFirst parse content').map exposed) := by
  have hlength : (shownHosts (newestFirst parse content)).length
      = (shownHosts (newestFirst parse content')).length := by
    rw [shownHosts, shownHosts, List.length_map, List.length_map, hagree.length_eq]
  have hbeside := agreeBesideHosts_foldl hagree
    (s := { total := (newestFirst parse content).length })
    (t := { total := (newestFirst parse content').length }) ⟨hagree.length_eq, rfl, rfl, rfl⟩
  rw [← shownHosts_perm_iff hagree, ← foldl_countKey_eq_iff]
  unfold summaryFile
  rw [collectCaptureSummary_eq parse hsize, collectCaptureSummary_eq parse hsize',
    capturesJson_eq_iff hbeside, byHost_foldl, byHost_foldl]
  rw [byHost_foldl, byHost_foldl]
  show (List.foldl countKey SortedMap.empty _).entries = []
    ↔ (List.foldl countKey SortedMap.empty _).entries = []
  rw [entries_foldl_countKey_eq_nil, entries_foldl_countKey_eq_nil, ← List.length_eq_zero_iff,
    ← List.length_eq_zero_iff, hlength]

/-! ### Two requests of one host -/

/-- A request for a URL. -/
def hostCapture (url : Text) : Capture :=
  { pageCapture [] with request := { (pageCapture []).request with url } }

/-- The URLs of the requests: a page, another page, a query without a path, and a password. -/
def hostUrls : List Text :=
  ["https://api.test/a".toList, "https://api.test/b?token=x".toList,
    "https://api.test?token=x".toList, "https://user:pw@api.test/a".toList]

/-- The line of such a request in the log. -/
def urlLine (url : Text) : List UInt8 :=
  Utf8.encode ("\x7b\"id\":\"\",\"at\":0,\"duration_ms\":0,\"request\":".toList
    ++ "\x7b\"method\":\"GET\",\"url\":\"".toList ++ url
    ++ "\",\"headers\":\x7b\x7d\x7d\x7d".toList)

/-- A decoder of their lines. -/
def urlParse (line : List UInt8) : Option Capture :=
  (hostUrls.find? fun url => urlLine url = line).map hostCapture

/-- A log of one request. -/
def urlLog (url : Text) : List UInt8 := urlLine url ++ [newline]

/-- The logs hold one capture each. -/
theorem newestFirst_urlLog :
    ∀ url ∈ hostUrls, newestFirst urlParse (urlLog url) = [hostCapture url] := by
  decide +kernel

/-- The logs are small. -/
theorem length_urlLog : ∀ url ∈ hostUrls, (urlLog url).length < 2 ^ 64 := by
  decide +kernel

/-- All their URLs have one host. -/
theorem agreeOutside_hostUrls (url url' : Text) (h : url ∈ hostUrls) (h' : url' ∈ hostUrls) :
    List.Forall₂ AgreeOutside (newestFirst urlParse (urlLog url))
      (newestFirst urlParse (urlLog url')) := by
  have hhost : ∀ url ∈ hostUrls, hostOf (hostCapture url) = some "api.test".toList := by
    decide +kernel
  rw [newestFirst_urlLog url h, newestFirst_urlLog url' h']
  refine List.Forall₂.cons ⟨?_, rfl, rfl⟩ List.Forall₂.nil
  rw [hhost url h, hhost url' h']

/-- Two pages of a host, one of them with a query. -/
theorem summaryFile_eq_pages :
    summaryFile urlParse (urlLog "https://api.test/a".toList)
      = summaryFile urlParse (urlLog "https://api.test/b?token=x".toList) := by
  refine (summaryFile_eq_iff urlParse (length_urlLog _ (by decide)) (length_urlLog _ (by decide))
    (agreeOutside_hostUrls _ _ (by decide) (by decide))).mpr ?_
  rw [newestFirst_urlLog _ (by decide), newestFirst_urlLog _ (by decide)]
  decide +kernel

/-- A query directly behind the host, and a password in front of it: the summary shows both. -/
theorem summaryFile_ne_query :
    (∀ url ∈ hostUrls, ∀ url' ∈ hostUrls,
      List.Forall₂ AgreeOutside (newestFirst urlParse (urlLog url))
        (newestFirst urlParse (urlLog url'))) ∧
    summaryFile urlParse (urlLog "https://api.test/a".toList)
      ≠ summaryFile urlParse (urlLog "https://api.test?token=x".toList) ∧
    summaryFile urlParse (urlLog "https://api.test/a".toList)
      ≠ summaryFile urlParse (urlLog "https://user:pw@api.test/a".toList) := by
  have hfile : ∀ url ∈ hostUrls, summaryFile urlParse (urlLog url)
      = capturesJson (some ([hostCapture url].foldl .add { total := 1 })) := by
    intro url hurl
    rw [summaryFile, collectCaptureSummary_eq _ (length_urlLog url hurl),
      newestFirst_urlLog url hurl]
    rfl
  refine ⟨fun url h url' h' => agreeOutside_hostUrls url url' h h', ?_, ?_⟩
  · rw [hfile _ (by decide), hfile _ (by decide)]
    decide +kernel
  · rw [hfile _ (by decide), hfile _ (by decide)]
    decide +kernel

end Gabriel.Cli
