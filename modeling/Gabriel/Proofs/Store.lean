import Gabriel.Proxy.Store

/-!
# `Gabriel.Proofs.Store`: the backward scan reads the log

`newestFirst` is the forward reading of a log, turned around: split at the newlines, parse the
lines that are not empty, reverse.

The code reads backwards, chunk by chunk, and carries the head of a line over to the next chunk.
The invariant of the loop: with `remaining` bytes to read and the head of a line carried over, it
visits exactly the lines of the unread bytes followed by the carry, last line first. The theorems:

* `scanLoop_eq`: the invariant, by strong induction on the bytes that remain.
* `scanBackwards_eq`: the scan hands over the captures of the log, newest first, until the visitor
  refuses.
* `list_eq`, `count_eq`, `get_eq`: the queries, as readings of the log.
* `scanBackwards_refines_forward`: for every log and every size of a chunk, the reverse scan refines
  the forward reading.
-/

set_option autoImplicit false

namespace Gabriel.Proxy

open Gabriel.Core Text Visit

namespace CaptureStore

/-- The captures of a log, newest first. -/
def newestFirst (parse : List UInt8 → Option Capture) (content : List UInt8) : List Capture :=
  ((content.splitOn newline).filterMap (parseLine parse)).reverse

/-- A byte list cut at a newline: the lines after it come first in the reverse order. -/
theorem reverse_splitOn_cut (before after : List UInt8) :
    ((before ++ newline :: after).splitOn newline).reverse
      = (after.splitOn newline).reverse ++ (before.splitOn newline).reverse := by
  rw [List.splitOn_append_cons_self, List.reverse_append]

section Scan

variable {σ : Type} (parse : List UInt8 → Option Capture) (visit : σ → Capture → σ × Bool)

/-- The first line of the file is visited like any other. -/
theorem visitFirstLine_eq (s : σ) {tail : List UInt8} (h : newline ∉ tail) :
    visitFirstLine parse visit s tail = (visitLines parse visit s tail).1 := by
  unfold visitFirstLine visitLines
  rw [List.splitOn_eq_singleton h, List.reverse_singleton, visitWhile]
  split <;> simp

/-- The chunk loop visits the unread lines, the carried head included, last line first. -/
theorem scanLoop_eq (content : List UInt8) (remaining : Nat) (tail : List UInt8) (s : σ)
    (hle : remaining ≤ content.length) (htail : newline ∉ tail) :
    scanLoop parse visit content remaining tail s
      = (visitLines parse visit s (content.take remaining ++ tail)).1 := by
  induction hn : remaining using Nat.strong_induction_on generalizing remaining tail s with
  | _ n ih =>
    subst hn
    rw [scanLoop]
    by_cases hzero : remaining = 0
    · rw [dif_pos hzero, hzero, List.take_zero, List.nil_append,
        visitFirstLine_eq parse visit s htail]
    · rw [dif_neg hzero]
      dsimp only
      have hpos : 0 < min chunkSize remaining := by
        unfold chunkSize
        omega
      have hread : min chunkSize remaining ≤ remaining := Nat.min_le_right _ _
      generalize min chunkSize remaining = readSize at hpos hread
      -- The bytes in front of the tail are the rest of the file and then this chunk.
      have hsplit : content.take remaining ++ tail
          = content.take (remaining - readSize)
            ++ ((content.drop (remaining - readSize)).take readSize ++ tail) := by
        have hsum : remaining = remaining - readSize + readSize := by omega
        conv_lhs => rw [hsum, List.take_add]
        rw [List.append_assoc]
      rw [hsplit]
      cases hcut : splitOnce [newline]
          ((content.drop (remaining - readSize)).take readSize ++ tail) with
      | some cut =>
        obtain ⟨carry, complete⟩ := cut
        obtain ⟨hchunk, hcarry⟩ := splitOnce_singleton_iff.mp hcut
        have hrec := fun s' => ih _ (by omega) (remaining - readSize) carry s' (by omega) hcarry rfl
        simp only [hrec]
        rw [hchunk, ← List.append_assoc]
        unfold visitLines
        rw [reverse_splitOn_cut, visitWhile_append]
        split <;> rfl
      | none =>
        have hnone := splitOnce_singleton_eq_none.mp hcut
        have hrec := fun t ht s' => ih _ (by omega) (remaining - readSize) t s' (by omega) ht rfl
        by_cases hrest : 0 < remaining - readSize
        · simp only [hrest, if_true]
          exact hrec _ hnone s
        · have hstart : remaining - readSize = 0 := by omega
          simp only [hstart, lt_irrefl, if_false, List.take_zero, List.nil_append]
          -- The whole file has been read, so the last round has an empty carry.
          have hempty : ∀ s', scanLoop parse visit content 0 [] s' = s' := by
            intro s'
            rw [scanLoop, dif_pos rfl]
            simp [visitFirstLine, visitSome, parseLine]
          simp only [hempty, ite_self]

/-- The backward scan hands over the captures of the log, newest first, until the visitor
refuses. -/
theorem scanBackwards_eq (content : List UInt8) (s : σ) :
    scanBackwards parse visit (some content) s
      = (visitWhile visit s (newestFirst parse content)).1 := by
  show scanLoop parse visit content content.length [] s = _
  rw [scanLoop_eq parse visit content content.length [] s (Nat.le_refl _) (by simp),
    List.take_length, List.append_nil, visitLines, visitWhile_filterMap, List.filterMap_reverse]
  rfl

end Scan

/-- A listing is the first matches, newest first. -/
theorem list_eq (parse : List UInt8 → Option Capture) (content : List UInt8)
    (filter : CaptureFilter) (limit : Nat) :
    list parse (some content) filter limit
      = ((newestFirst parse content).filter filter.matchesCapture).take limit := by
  unfold list
  by_cases hlimit : limit = 0
  · rw [if_pos hlimit, hlimit, List.take_zero]
  · have hroom : ([] : List Capture).length < limit := Nat.pos_of_ne_zero hlimit
    rw [if_neg hlimit, scanBackwards_eq, visitWhile_collect _ hroom]
    rfl

/-- The empty filter passes everything. -/
theorem list_empty_filter (parse : List UInt8 → Option Capture) (content : List UInt8)
    (limit : Nat) :
    list parse (some content) {} limit = (newestFirst parse content).take limit := by
  have hall : ∀ capture ∈ newestFirst parse content,
      CaptureFilter.matchesCapture {} capture = true := by
    intro capture _
    unfold CaptureFilter.matchesCapture
    cases capture.status <;> rfl
  rw [list_eq, List.filter_eq_self.mpr hall]

/-- A log without a file has an empty listing. -/
theorem list_none (parse : List UInt8 → Option Capture) (filter : CaptureFilter) (limit : Nat) :
    list parse none filter limit = [] := by
  unfold list
  rw [show scanBackwards parse (collect filter.matchesCapture limit) none []
      = [] from rfl, ite_self]

/-- The count is the number of captures. -/
theorem count_eq (parse : List UInt8 → Option Capture) (content : List UInt8) :
    count parse (some content) = (newestFirst parse content).length := by
  unfold count
  rw [scanBackwards_eq, visitWhile_of_forall _ (fun _ _ => rfl)]
  show (newestFirst parse content).foldl (fun total _ => total + 1) 0 = _
  rw [List.foldl_add_const, Nat.zero_add, Nat.one_mul]

/-- The lines of a log are no longer than the log. -/
theorem sum_length_splitOn_le (content : List UInt8) :
    ((content.splitOn newline).map List.length).sum ≤ content.length := by
  induction content with
  | nil => exact Nat.le_refl 0
  | cons byte rest ih =>
    show (((byte :: rest).splitOnP (· == newline)).map List.length).sum ≤ _
    rw [List.splitOnP_cons_eq_if_modifyHead, List.length_cons]
    split
    · rw [List.map_cons, List.sum_cons, List.length_nil, Nat.zero_add]
      exact Nat.le_succ_of_le ih
    · change ((rest.splitOnP (· == newline)).map List.length).sum ≤ rest.length at ih
      cases hpieces : rest.splitOnP (· == newline) with
      | nil => exact absurd hpieces (List.splitOnP_ne_nil _ _)
      | cons piece pieces =>
        rw [hpieces, List.map_cons, List.sum_cons] at ih
        rw [List.modifyHead_cons, List.map_cons, List.sum_cons, List.length_cons]
        omega

/-- A log has no more captures than bytes. -/
theorem length_newestFirst_le (parse : List UInt8 → Option Capture) (content : List UInt8) :
    (newestFirst parse content).length ≤ content.length := by
  have hcaptures : ∀ pieces : List (List UInt8),
      (pieces.filterMap (parseLine parse)).length ≤ (pieces.map List.length).sum := by
    intro pieces
    induction pieces with
    | nil => exact Nat.le_refl 0
    | cons piece pieces ih =>
      rw [List.map_cons, List.sum_cons]
      cases hparse : parseLine parse piece with
      | none =>
        rw [List.filterMap_cons_none hparse]
        omega
      | some capture =>
        -- An empty line has no capture.
        have hline : piece ≠ [] := by
          rintro rfl
          exact absurd hparse (by simp [parseLine])
        have hlength : 0 < piece.length := List.length_pos_iff.mpr hline
        rw [List.filterMap_cons_some hparse, List.length_cons]
        omega
  unfold newestFirst
  rw [List.length_reverse]
  exact (hcaptures _).trans (sum_length_splitOn_le content)

/-- A capture is found by its id or a prefix of it: the newest one. -/
theorem get_eq (parse : List UInt8 → Option Capture) (content : List UInt8) (id : Text) :
    get parse (some content) id
      = (newestFirst parse content).find? fun capture =>
          decide (capture.id = id ∨ id <+: capture.id) := by
  unfold get
  rw [scanBackwards_eq]
  induction newestFirst parse content with
  | nil => rfl
  | cons capture captures ih =>
    rw [visitWhile]
    by_cases hfit : capture.id = id ∨ id <+: capture.id
    · rw [List.find?_cons_of_pos (by simpa using hfit)]
      simp [hfit]
    · rw [List.find?_cons_of_neg (by simpa using hfit), ← ih]
      simp [hfit]

/-- The reverse scan refines the forward reading of the log: a listing is the first matches in
reverse file order, the count is the number of parsable lines, and a visitor is handed exactly
the newest captures up to its first refusal, and ends in the state they lead it to. -/
theorem scanBackwards_refines_forward (parse : List UInt8 → Option Capture)
    (content : List UInt8) :
    (∀ filter limit, list parse (some content) filter limit
      = ((newestFirst parse content).filter filter.matchesCapture).take limit) ∧
    count parse (some content) = (newestFirst parse content).length ∧
    (∀ (σ : Type) (visit : σ → Capture → σ × Bool) (s : σ),
      scanBackwards parse (logged visit) (some content) (s, [])
        = (scanBackwards parse visit (some content) s,
          (newestFirst parse content).take
            ((answers visit s (newestFirst parse content)).idxOf false + 1)) ∧
      scanBackwards parse visit (some content) s
        = (visitWhile visit s (newestFirst parse content)).1) := by
  refine ⟨list_eq parse content, count_eq parse content, ?_⟩
  intro σ visit s
  rw [scanBackwards_eq, scanBackwards_eq, visitWhile_logged]
  exact ⟨rfl, rfl⟩

end CaptureStore

end Gabriel.Proxy
