import Gabriel.Proofs.TornLog
import Gabriel.Proxy.Processes

/-!
# `Gabriel.Proofs.Writers`: two processes that append to one log

The writes of two processes are interleaved in any way. What stands between two newlines is the
lines that were written there one after the other (`lineGroups`), and the reader gets a capture
from it when it is one line. So the listing has the lines that stand alone, and no append that
succeeded is lost when its line does: when between it and every other line some newline was written
(`Apart`).

Besides `LineFormat`, the decoder has to refuse several texts in one line. The theorems:

* `bytes_eq_intercalate`: what was written is the groups with newlines between them.
* `parseLine_group`: a group is read as its line, when it has one line.
* `newestFirst_writes`: the listing of what was written: the lines that stand alone, newest first.
* `alone_iff_apart`: a line that succeeded stands alone when it is apart from the others.
* `listing_complete_iff`: for every interleaving, the listing has every capture whose append
  succeeded exactly when the lines are apart.
-/

set_option autoImplicit false

namespace Gabriel.Proxy.CaptureStore

open Gabriel.Core Text

/-! ### Interleavings -/

/-- A list that takes its items from two lists, in their orders. -/
inductive Interleaves {α : Type} : List α → List α → List α → Prop where
  | nil : Interleaves [] [] []
  | left {xs ys zs : List α} (a : α) : Interleaves xs ys zs → Interleaves (a :: xs) ys (a :: zs)
  | right {xs ys zs : List α} (a : α) : Interleaves xs ys zs → Interleaves xs (a :: ys) (a :: zs)

/-- An interleaving has the items of both lists. -/
theorem Interleaves.perm {α : Type} {xs ys zs : List α} (h : Interleaves xs ys zs) :
    zs.Perm (xs ++ ys) := by
  induction h with
  | nil => exact List.Perm.refl _
  | left a _ ih => exact ih.cons a
  | right a _ ih => exact (ih.cons a).trans List.perm_middle.symm

/-! ### Lines between newlines -/

/-- The line of a write. -/
def Write.append? : Write → Option Append
  | .line append => some append
  | .newline => none

/-- The lines between the newlines. -/
def lineGroups : List Write → List (List Append)
  | [] => [[]]
  | .newline :: writes => [] :: lineGroups writes
  | .line append :: writes =>
    match lineGroups writes with
    | [] => [[append]]
    | group :: groups => (append :: group) :: groups

/-- What is written for the lines of a group. -/
def groupBytes (render : Capture → List UInt8) (group : List Append) : List UInt8 :=
  group.flatMap fun append => render append.capture

/-- The capture that a group is read as. -/
def solo : List Append → Option Append
  | [append] => some append
  | _ => none

/-- The lines whose append succeeded. -/
def okLines (appends : List Append) : List Append := appends.filter (·.ending = .ok)

/-- Between two lines, one of them of an append that succeeded, there is a newline. -/
def Apart (writes : List Write) : Prop :=
  ∀ before a between b after, writes = before ++ .line a :: (between ++ .line b :: after) →
    a.ending = .ok ∨ b.ending = .ok → .newline ∈ between

/-- There is at least one group. -/
theorem lineGroups_ne_nil (writes : List Write) : lineGroups writes ≠ [] := by
  cases writes with
  | nil => exact List.cons_ne_nil _ _
  | cons write writes =>
    cases write with
    | newline => exact List.cons_ne_nil _ _
    | line append =>
      rw [lineGroups]
      split <;> exact List.cons_ne_nil _ _

/-- The first group, and the others. -/
theorem lineGroups_line (append : Append) (writes : List Write) :
    ∃ group groups, lineGroups writes = group :: groups ∧
      lineGroups (.line append :: writes) = (append :: group) :: groups := by
  cases hgroups : lineGroups writes with
  | nil => exact absurd hgroups (lineGroups_ne_nil writes)
  | cons group groups =>
    refine ⟨group, groups, rfl, ?_⟩
    rw [lineGroups, hgroups]

/-- The bytes that were written are the groups with newlines between them. -/
theorem bytes_eq_intercalate (render : Capture → List UInt8) (writes : List Write) :
    writes.flatMap (Write.bytes render)
      = List.intercalate [newline] ((lineGroups writes).map (groupBytes render)) := by
  induction writes with
  | nil => rfl
  | cons write writes ih =>
    cases write with
    | newline =>
      cases hgroups : lineGroups writes with
      | nil => exact absurd hgroups (lineGroups_ne_nil writes)
      | cons group groups =>
        rw [List.flatMap_cons, ih, lineGroups, hgroups]
        rfl
    | line append =>
      obtain ⟨group, groups, hgroups, hline⟩ := lineGroups_line append writes
      rw [List.flatMap_cons, ih, hline, hgroups]
      cases groups with
      | nil => simp [groupBytes, Write.bytes, List.intercalate]
      | cons next groups => simp [groupBytes, Write.bytes, List.intercalate]

/-- The lines of the groups are the lines that were written. -/
theorem flatten_lineGroups (writes : List Write) :
    (lineGroups writes).flatten = writes.filterMap Write.append? := by
  induction writes with
  | nil => rfl
  | cons write writes ih =>
    cases write with
    | newline => exact ih
    | line append =>
      obtain ⟨group, groups, hgroups, hline⟩ := lineGroups_line append writes
      rw [hline, List.flatten_cons, List.cons_append, ← List.flatten_cons, ← hgroups, ih]
      rfl

/-! ### The listing -/

section Listing

variable {parse : List UInt8 → Option Capture} {render : Capture → List UInt8}

/-- Several texts in one line are not a capture. -/
def RefusesJoined (parse : List UInt8 → Option Capture) (render : Capture → List UInt8)
    (captures : List Capture) : Prop :=
  ∀ line : List Capture, (∀ c ∈ line, c ∈ captures) → 2 ≤ line.length →
    parse (line.flatMap render) = none

/-- A group is read as its line, when it has one line. -/
theorem parseLine_group {captures : List Capture} (hformat : LineFormat parse render captures)
    (hjoined : RefusesJoined parse render captures) {group : List Append}
    (hgroup : ∀ a ∈ group, a.capture ∈ captures) :
    parseLine parse (groupBytes render group) = (solo group).map (·.capture) := by
  match group with
  | [] => rfl
  | [a] =>
    rw [groupBytes, List.flatMap_cons, List.flatMap_nil, List.append_nil]
    exact parseLine_render hformat (hgroup a List.mem_cons_self)
  | a :: b :: group =>
    have hmany := hjoined ((a :: b :: group).map (·.capture))
      (fun c hc => by
        obtain ⟨a', ha', rfl⟩ := List.mem_map.mp hc
        exact hgroup a' ha')
      (by simp)
    have hbytes : groupBytes render (a :: b :: group)
        = ((a :: b :: group).map (·.capture)).flatMap render := by
      rw [List.flatMap_map]
      rfl
    unfold parseLine
    rw [hbytes, hmany, ite_self]
    rfl

/-- The listing of what was written: the lines that stand alone, newest first. -/
theorem newestFirst_writes {captures : List Capture} (hformat : LineFormat parse render captures)
    (hjoined : RefusesJoined parse render captures) {writes : List Write}
    (hwrites : ∀ a ∈ writes.filterMap Write.append?, a.capture ∈ captures) :
    newestFirst parse (writes.flatMap (Write.bytes render))
      = (((lineGroups writes).filterMap solo).map (·.capture)).reverse := by
  have hmem : ∀ group ∈ lineGroups writes, ∀ a ∈ group, a.capture ∈ captures := by
    intro group hgroup a ha
    refine hwrites a ?_
    rw [← flatten_lineGroups]
    exact List.mem_flatten.mpr ⟨group, hgroup, ha⟩
  have hplain : ∀ l ∈ (lineGroups writes).map (groupBytes render), newline ∉ l := by
    intro l hl hnewline
    obtain ⟨group, hgroup, rfl⟩ := List.mem_map.mp hl
    obtain ⟨a, ha, hin⟩ := List.mem_flatMap.mp hnewline
    exact hformat.line a.capture (hmem group hgroup a ha) hin
  have hnil : (lineGroups writes).map (groupBytes render) ≠ [] := by
    rw [Ne, List.map_eq_nil_iff]
    exact lineGroups_ne_nil writes
  unfold newestFirst
  rw [bytes_eq_intercalate, List.splitOn_intercalate _ hplain hnil, List.filterMap_map,
    List.map_filterMap]
  congr 1
  exact List.filterMap_congr fun group hgroup => parseLine_group hformat hjoined (hmem group hgroup)

/-- A log that is ended is read after what was appended to it. -/
theorem newestFirst_ended (log : EndedLog) (rest : List UInt8) :
    newestFirst parse (log.bytes ++ rest)
      = newestFirst parse rest ++ newestFirst parse log.bytes := by
  have hempty : newestFirst parse [] = [] := newestFirst_line List.not_mem_nil
  have hcut : ∀ lines after : List UInt8, newestFirst parse (lines ++ newline :: after)
      = newestFirst parse after ++ newestFirst parse lines := by
    intro lines after
    unfold newestFirst
    rw [List.splitOn_append_cons_self, List.filterMap_append, List.reverse_append]
  rcases log.ended with hnil | ⟨lines, hlines⟩
  · rw [hnil, List.nil_append, hempty, List.append_nil]
  · rw [hlines, List.append_assoc, List.singleton_append, hcut, hcut, hempty, List.nil_append]

end Listing

/-! ### Lines that stand alone -/

/-- Every line whose append succeeded is the only one of its group. -/
def Alone (groups : List (List Append)) : Prop :=
  ∀ group ∈ groups, ∀ a ∈ group, a.ending = .ok → group = [a]

/-- A first group, and the others. -/
theorem alone_cons (group : List Append) (groups : List (List Append)) :
    Alone (group :: groups)
      ↔ (∀ a ∈ group, a.ending = .ok → group = [a]) ∧ Alone groups :=
  List.forall_mem_cons

/-- The lines that stand alone, in their order. -/
theorem solo_sublist (groups : List (List Append)) :
    (groups.filterMap solo).Sublist groups.flatten := by
  induction groups with
  | nil => exact List.Sublist.refl _
  | cons group groups ih =>
    rw [List.flatten_cons]
    match group with
    | [] => exact ih
    | [a] => exact ih.cons_cons a
    | a :: b :: rest => exact ih.trans (List.sublist_append_right _ _)

/-- The lines that succeeded and stand alone are no more than those that succeeded, and as many
only when all stand alone. -/
theorem alone_iff_length (groups : List (List Append)) :
    (okLines (groups.filterMap solo)).length ≤ (okLines groups.flatten).length ∧
    (Alone groups ↔
      (okLines (groups.filterMap solo)).length = (okLines groups.flatten).length) := by
  induction groups with
  | nil => exact ⟨Nat.le_refl _, iff_of_true (fun _ h => absurd h List.not_mem_nil) rfl⟩
  | cons group groups ih =>
    -- Both counts are those of the first group and of the rest.
    have hone : (okLines ((group :: groups).filterMap solo)).length
          = (okLines (solo group).toList).length + (okLines (groups.filterMap solo)).length ∧
        (okLines (group :: groups).flatten).length
          = (okLines group).length + (okLines groups.flatten).length := by
      refine ⟨?_, ?_⟩
      · cases hsolo : solo group with
        | none => rw [List.filterMap_cons_none hsolo]; simp [okLines]
        | some a =>
          rw [List.filterMap_cons_some hsolo]
          unfold okLines
          rw [Option.toList_some, ← List.singleton_append, List.filter_append, List.length_append]
      · unfold okLines
        rw [List.flatten_cons, List.filter_append, List.length_append]
    -- A group of one line counts the same on both sides, one of several lines counts nothing on the
    -- left.
    have hgroup : (okLines (solo group).toList).length ≤ (okLines group).length ∧
        ((∀ a ∈ group, a.ending = .ok → group = [a]) ↔
          (okLines (solo group).toList).length = (okLines group).length) := by
      match group with
      | [] => exact ⟨Nat.le_refl _, iff_of_true (fun _ h => absurd h List.not_mem_nil) rfl⟩
      | [a] =>
        refine ⟨Nat.le_refl _, iff_of_true ?_ rfl⟩
        intro b hb _
        rw [List.mem_singleton.mp hb]
      | a :: b :: rest =>
        refine ⟨Nat.zero_le _, ?_⟩
        show (∀ c ∈ a :: b :: rest, c.ending = .ok → a :: b :: rest = [c]) ↔
          0 = (okLines (a :: b :: rest)).length
        rw [eq_comm, List.length_eq_zero_iff, okLines, List.filter_eq_nil_iff]
        constructor
        · intro h c hc hok
          exact absurd (h c hc (of_decide_eq_true hok)) (by simp)
        · intro h c hc hok
          exact absurd (decide_eq_true hok) (h c hc)
    rw [hone.1, hone.2, alone_cons, hgroup.2, ih.2]
    omega

/-- The first group is the lines before the first newline. -/
theorem mem_first_group {writes : List Write} {group : List Append} {groups : List (List Append)}
    (h : lineGroups writes = group :: groups) (b : Append) :
    b ∈ group ↔ ∃ between after, writes = between ++ .line b :: after ∧ .newline ∉ between := by
  -- The first newline ends the first group, so the induction is on the writes.
  induction writes generalizing group groups with
  | nil =>
    rw [show group = [] from (List.cons.inj h).1.symm]
    refine iff_of_false List.not_mem_nil ?_
    rintro ⟨between, after, hnil, -⟩
    exact absurd hnil.symm (by simp)
  | cons write writes ih =>
    cases write with
    | newline =>
      rw [show group = [] from (List.cons.inj h).1.symm]
      refine iff_of_false List.not_mem_nil ?_
      rintro ⟨between, after, hsplit, hnone⟩
      cases between with
      | nil => exact absurd hsplit (by simp)
      | cons first between =>
        rw [List.cons_append] at hsplit
        exact hnone (by rw [← (List.cons.inj hsplit).1]; exact List.mem_cons_self)
    | line a =>
      obtain ⟨inner, rest, hgroups, hline⟩ := lineGroups_line a writes
      rw [hline] at h
      rw [← (List.cons.inj h).1, List.mem_cons, ih hgroups]
      constructor
      · rintro (rfl | ⟨between, after, rfl, hnone⟩)
        · exact ⟨[], writes, rfl, List.not_mem_nil⟩
        · refine ⟨.line a :: between, after, rfl, ?_⟩
          simpa using hnone
      -- The line that is looked for is the first one, or it stands further behind.
      · rintro ⟨between, after, hsplit, hnone⟩
        cases between with
        | nil =>
          rw [List.nil_append] at hsplit
          exact Or.inl (Write.line.inj (List.cons.inj hsplit).1).symm
        | cons first between =>
          rw [List.cons_append] at hsplit
          exact Or.inr ⟨between, after, (List.cons.inj hsplit).2,
            fun hmem => hnone (List.mem_cons_of_mem _ hmem)⟩

/-- A line in front of some writes is apart from theirs when no line before the first newline is
of an append that succeeded, if there is one at all. -/
theorem apart_line {writes : List Write} {group : List Append} {groups : List (List Append)}
    (h : lineGroups writes = group :: groups) (a : Append) :
    Apart (.line a :: writes)
      ↔ Apart writes ∧ ∀ b ∈ group, ¬ (a.ending = .ok ∨ b.ending = .ok) := by
  constructor
  -- Apart from each other the writes stay apart without the first line.
  · intro hapart
    refine ⟨?_, ?_⟩
    · intro before a' between b after hsplit
      refine hapart (.line a :: before) a' between b after ?_
      rw [hsplit]
      rfl
    · intro b hb hok
      obtain ⟨between, after, hsplit, hnone⟩ := (mem_first_group h b).mp hb
      refine hnone (hapart [] a between b after ?_ hok)
      rw [hsplit]
      rfl
  -- A pair of lines has the new one in front, or both are among the old writes.
  · rintro ⟨hrest, hfirst⟩ before a' between b after hsplit hok
    cases before with
    | nil =>
      rw [List.nil_append] at hsplit
      obtain ⟨ha, htail⟩ := List.cons.inj hsplit
      rw [← Write.line.inj ha] at hok
      by_contra hnone
      exact hfirst b ((mem_first_group h b).mpr ⟨between, after, htail, hnone⟩) hok
    | cons first before =>
      rw [List.cons_append] at hsplit
      exact hrest before a' between b after (List.cons.inj hsplit).2 hok

/-- Every line that succeeded is alone in its group when it is apart from the others. -/
theorem alone_iff_apart (writes : List Write) : Alone (lineGroups writes) ↔ Apart writes := by
  induction writes with
  | nil =>
    refine iff_of_true ?_ ?_
    · intro group hgroup a ha
      rw [List.mem_singleton.mp hgroup] at ha
      exact absurd ha List.not_mem_nil
    · intro before a between b after hnil
      exact absurd hnil.symm (by simp)
  -- A newline begins a new group; a line joins the first one.
  | cons write writes ih =>
    cases write with
    | newline =>
      have hgroups : Alone (lineGroups (.newline :: writes)) ↔ Alone (lineGroups writes) :=
        (alone_cons [] _).trans (and_iff_right fun a ha => absurd ha List.not_mem_nil)
      rw [hgroups, ih]
      constructor
      · intro hapart before a between b after hsplit
        cases before with
        | nil => exact absurd hsplit (by simp)
        | cons first before =>
          rw [List.cons_append] at hsplit
          exact hapart before a between b after (List.cons.inj hsplit).2
      · intro hapart before a between b after hsplit
        refine hapart (.newline :: before) a between b after ?_
        rw [hsplit]
        rfl
    | line a =>
      obtain ⟨group, groups, hgroups, hline⟩ := lineGroups_line a writes
      rw [apart_line hgroups, ← ih, hline, hgroups, alone_cons, alone_cons]
      constructor
      · rintro ⟨hfirst, hrest⟩
        -- When one line of the group succeeded, it is the only one.
        have hnone : ∀ b ∈ group, ¬ (a.ending = .ok ∨ b.ending = .ok) := by
          rintro b hb (ha | hb')
          · have hone := (List.cons.inj (hfirst a List.mem_cons_self ha)).2
            rw [hone] at hb
            exact absurd hb List.not_mem_nil
          · have hone := (List.cons.inj (hfirst b (List.mem_cons_of_mem a hb) hb')).2
            rw [hone] at hb
            exact absurd hb List.not_mem_nil
        exact ⟨⟨fun b hb hok => absurd (Or.inr hok) (hnone b hb), hrest⟩, hnone⟩
      · rintro ⟨⟨-, hrest⟩, hnone⟩
        refine ⟨?_, hrest⟩
        intro b hb hok
        rcases List.mem_cons.mp hb with rfl | hb
        · rw [List.eq_nil_iff_forall_not_mem.mpr fun c hc => hnone c hc (Or.inl hok)]
        · exact absurd (Or.inr hok) (hnone b hb)

/-! ### The law -/

/-- The captures of failed appends whose line came to stand alone. -/
def strays (writes : List Write) : List Capture :=
  (((lineGroups writes).filterMap solo).filter fun a => a.ending ≠ .ok).map (·.capture)

/-- A listing without a filter and with room for everything has, besides the captures that were
there before, every capture whose append succeeded, each once; and the strays. -/
def ListsSucceeded (parse : List UInt8 → Option Capture) (render : Capture → List UInt8)
    (log : EndedLog) (appends : List Append) (writes : List Write) : Prop :=
  ∀ limit, (newestFirst parse log.bytes).length + appends.length ≤ limit →
    (list parse (some (log.bytes ++ writes.flatMap (Write.bytes render))) {} limit).Perm
      (newestFirst parse log.bytes ++ (succeeded appends ++ strays writes))

/-- The lines of the writes of some appends, which may stop before the line. -/
theorem lines_of_writes (appends : List Append) :
    okLines ((appends.flatMap Append.writes).filterMap Write.append?)
        = appends.filter (·.ending = .ok) ∧
      ((appends.flatMap Append.writes).filterMap Write.append?).length ≤ appends.length := by
  induction appends with
  | nil => exact ⟨rfl, Nat.le_refl _⟩
  -- By induction on the appends: each writes its line, unless it failed before that.
  | cons append appends ih =>
    obtain ⟨capture, ending⟩ := append
    obtain ⟨hok, hlength⟩ := ih
    rw [List.flatMap_cons, List.filterMap_append]
    unfold okLines at hok ⊢
    rw [List.filter_append, hok, List.length_append, List.length_cons]
    cases ending with
    | ok =>
      refine ⟨rfl, ?_⟩
      show 1 + _ ≤ _
      omega
    | newlineFailed =>
      refine ⟨rfl, ?_⟩
      show 1 + _ ≤ _
      omega
    | lineFailed =>
      refine ⟨rfl, ?_⟩
      show 0 + _ ≤ _
      omega

/-- The succeeded captures are those of the lines that succeeded. -/
theorem succeeded_eq (appends : List Append) :
    succeeded appends = (appends.filter (·.ending = .ok)).map (·.capture) := by
  unfold succeeded
  rw [← List.filterMap_eq_map, List.filterMap_filter]
  refine List.filterMap_congr fun a _ => ?_
  simp

/-- **Two processes lose nothing exactly when their lines are apart.** For every log that does not
end in the middle of a line, every two lists of appends, and every interleaving of their writes:
the listing afterwards has every capture whose append succeeded, once, if and only if a newline
was written between every line of a succeeded append and every other line. -/
theorem listing_complete_iff (parse : List UInt8 → Option Capture)
    (render : Capture → List UInt8) (log : EndedLog) (first second : List Append)
    (writes : List Write)
    (hinterleaved : Interleaves (first.flatMap Append.writes) (second.flatMap Append.writes) writes)
    (hformat : LineFormat parse render ((first ++ second).map (·.capture)))
    (hjoined : RefusesJoined parse render ((first ++ second).map (·.capture))) :
    ListsSucceeded parse render log (first ++ second) writes ↔ Apart writes := by
  have hlines : (writes.filterMap Write.append?).Perm
      (((first ++ second).flatMap Append.writes).filterMap Write.append?) := by
    rw [List.flatMap_append]
    exact hinterleaved.perm.filterMap _
  have hcaptures : ∀ a ∈ writes.filterMap Write.append?,
      a.capture ∈ (first ++ second).map (·.capture) := by
    intro a ha
    obtain ⟨write, hwrite, hline⟩ := List.mem_filterMap.mp (hlines.mem_iff.mp ha)
    obtain ⟨append, happend, hin⟩ := List.mem_flatMap.mp hwrite
    refine List.mem_map.mpr ⟨append, happend, ?_⟩
    unfold Append.writes at hin
    cases write with
    | newline => cases hline
    | line b =>
      rw [Write.append?, Option.some.injEq] at hline
      rw [← hline]
      cases hending : append.ending <;> rw [hending] at hin <;> simp at hin <;> rw [hin]
  have hread : newestFirst parse (writes.flatMap (Write.bytes render))
      = (((lineGroups writes).filterMap solo).map (·.capture)).reverse :=
    newestFirst_writes hformat hjoined hcaptures
  have hlisted : ∀ limit,
      list parse (some (log.bytes ++ writes.flatMap (Write.bytes render))) {} limit
        = (newestFirst parse (writes.flatMap (Write.bytes render))
            ++ newestFirst parse log.bytes).take limit := by
    intro limit
    rw [list_empty_filter, newestFirst_ended]
  -- There is room for all of it.
  have hroom : (newestFirst parse (writes.flatMap (Write.bytes render))).length
      ≤ (first ++ second).length := by
    rw [hread, List.length_reverse, List.length_map]
    calc ((lineGroups writes).filterMap solo).length
        ≤ (lineGroups writes).flatten.length := (solo_sublist _).length_le
      _ = (((first ++ second).flatMap Append.writes).filterMap Write.append?).length := by
          rw [flatten_lineGroups, hlines.length_eq]
      _ ≤ (first ++ second).length := (lines_of_writes _).2
  have hperm : ListsSucceeded parse render log (first ++ second) writes
      ↔ ((okLines ((lineGroups writes).filterMap solo)).map (·.capture)).Perm
        (succeeded (first ++ second)) := by
    have hsplit : ((lineGroups writes).filterMap solo).Perm
        (okLines ((lineGroups writes).filterMap solo)
          ++ ((lineGroups writes).filterMap solo).filter fun a => a.ending ≠ .ok) := by
      have hfilter := List.filter_append_perm (fun a : Append => decide (a.ending = .ok))
        ((lineGroups writes).filterMap solo)
      simp only [← decide_not] at hfilter
      exact hfilter.symm
    have hsolo : (newestFirst parse (writes.flatMap (Write.bytes render))).Perm
        ((okLines ((lineGroups writes).filterMap solo)).map (·.capture) ++ strays writes) := by
      rw [hread]
      refine (List.reverse_perm _).trans ((hsplit.map _).trans ?_)
      rw [List.map_append]
      exact List.Perm.refl _
    unfold ListsSucceeded
    constructor
    · intro h
      have hall := h _ (Nat.le_refl _)
      rw [hlisted, List.take_of_length_le (by rw [List.length_append]; omega)] at hall
      have hcut := (List.perm_append_left_iff _).mp (List.perm_append_comm.trans hall)
      exact (List.perm_append_right_iff _).mp (hsolo.symm.trans hcut)
    · intro h limit hlimit
      rw [hlisted, List.take_of_length_le (by rw [List.length_append]; omega)]
      refine List.perm_append_comm.trans ((List.perm_append_left_iff _).mpr ?_)
      exact hsolo.trans ((List.perm_append_right_iff _).mpr h)
  have hsucceeded : (succeeded (first ++ second)).Perm
      ((okLines (lineGroups writes).flatten).map (·.capture)) := by
    rw [succeeded_eq, ← (lines_of_writes (first ++ second)).1, flatten_lineGroups]
    exact ((hlines.filter _).symm).map _
  rw [hperm, ← alone_iff_apart, (alone_iff_length _).2]
  constructor
  · intro h
    have hlength := (h.trans hsucceeded).length_eq
    rwa [List.length_map, List.length_map] at hlength
  · intro h
    have hsame := ((solo_sublist (lineGroups writes)).filter _).eq_of_length h
    have hok : okLines ((lineGroups writes).filterMap solo)
        = okLines (lineGroups writes).flatten := hsame
    rw [hok]
    exact hsucceeded.symm

/-- The lines of pages joined in one line are refused. -/
theorem pageParse_refusesJoined : RefusesJoined pageParse pageLine pageCaptures := by
  intro line hline htwo
  refine pageParse_eq_none ?_
  have hlength : (line.flatMap pageLine).length = 99 * line.length := by
    clear htwo
    induction line with
    | nil => rfl
    | cons c line ih =>
      rw [List.flatMap_cons, List.length_append,
        ih fun c' hc' => hline c' (List.mem_cons_of_mem c hc'),
        length_pageLine c (hline c List.mem_cons_self), List.length_cons]
      omega
  omega

/-- A recording of the proxy. -/
def recorded : List Append := [⟨pageCapture "a".toList, .ok⟩]

/-- An import of two captures. -/
def imported : List Append := [⟨pageCapture "b".toList, .ok⟩, ⟨pageCapture "c".toList, .ok⟩]

/-- The empty log. -/
def emptyLog : EndedLog := ⟨[], Or.inl rfl⟩

/-- The line of the recording between those of the import, each with its newline. -/
def apartWrites : List Write :=
  [.line ⟨pageCapture "b".toList, .ok⟩, .newline, .line ⟨pageCapture "a".toList, .ok⟩, .newline,
    .line ⟨pageCapture "c".toList, .ok⟩, .newline]

/-- The line of the recording in front of the newline of the import. -/
def gluedWrites : List Write :=
  [.line ⟨pageCapture "b".toList, .ok⟩, .line ⟨pageCapture "a".toList, .ok⟩, .newline, .newline,
    .line ⟨pageCapture "c".toList, .ok⟩, .newline]

/-- The first interleaving loses nothing. -/
theorem listing_complete_iff_apart :
    ListsSucceeded pageParse pageLine emptyLog (recorded ++ imported) apartWrites := by
  refine (listing_complete_iff pageParse pageLine emptyLog recorded imported apartWrites ?_
    pageParse_format pageParse_refusesJoined).mpr ?_
  · exact .right _ (.right _ (.left _ (.left _ (.right _ (.right _ .nil)))))
  · rw [← alone_iff_apart]
    unfold Alone
    decide +kernel

/-- The second one loses two captures. -/
theorem not_listing_complete_glued :
    ¬ ∀ writes, Interleaves (recorded.flatMap Append.writes)
        (imported.flatMap Append.writes) writes →
      ListsSucceeded pageParse pageLine emptyLog (recorded ++ imported) writes := by
  intro h
  have hglued := h gluedWrites
    (.right _ (.left _ (.left _ (.right _ (.right _ (.right _ .nil))))))
  have hlength := (hglued 3 (by decide +kernel)).length_eq
  rw [list_empty_filter] at hlength
  revert hlength
  decide +kernel

end Gabriel.Proxy.CaptureStore
