import Gabriel.Core.Jsonpath

/-!
# `Gabriel.Proofs.Jsonpath`: how a path is read

The loop of `parse` as a machine: `Scan` is its state, `step` takes one character, and `finish`
gives the segments at the end. Running over two texts is running over one after the other
(`run_append`), so what is appended to a path is read from the state that the path leaves.

A path is well formed when it is made of `Piece`s: characters of a key, dots, and closed brackets.
The machine reads a text of pieces piece by piece, and such pieces are found in every text that it
accepts. The theorems:

* `parseLoop_eq`: the loop is the machine.
* `run_pieces`, `exists_pieces`: the texts that the machine accepts outside of a bracket are those
  made of pieces.
* `parse_error_iff`: a path is refused exactly when a bracket is unbalanced, when one is empty, or
  when no segment remains.
* `parse_bracket_iff`: a bracket behind a path adds its segment, unless the path ends with white
  space, which is then read as a part of its last key.
* `brackets_iff`: a quoted key and an index in brackets address the member and the item exactly when
  the key is not read as an index, and the path takes a bracket.
-/

set_option autoImplicit false

namespace Gabriel.Core.Jsonpath

open Text

/-! ### The loop as a machine -/

/-- What the loop carries: the bracket being read, the key being read, and the segments. -/
structure Scan where
  bracket : Option Text := none
  current : Text := []
  segments : List Segment := []

/-- One character. -/
def Scan.step (scan : Scan) (c : Char) : Option Scan :=
  match scan.bracket with
  | some index =>
    if c = ']' then (bracketSegment index).map fun segment =>
      { scan with bracket := none, segments := scan.segments ++ [segment] }
    else some { scan with bracket := some (index ++ [c]) }
  | none =>
    if c = '.' then some { current := [], segments := flush scan.current scan.segments }
    else if c = '[' then
      some { bracket := some [], current := [], segments := flush scan.current scan.segments }
    else if c = ']' then none
    else some { scan with current := scan.current ++ [c] }

/-- The characters of a text, one after the other. -/
def Scan.run (scan : Scan) (text : Text) : Option Scan := text.foldlM Scan.step scan

/-- The segments at the end. A bracket that is open and a path without segments have none. -/
def Scan.finish (scan : Scan) : Option (List Segment) :=
  if scan.bracket.isSome then none
  else if flush scan.current scan.segments = [] then none
  else some (flush scan.current scan.segments)

/-- Scanning nothing leaves the scan. -/
theorem run_nil (scan : Scan) : scan.run [] = some scan := rfl

/-- Scanning a character and then the rest. -/
theorem run_cons (scan : Scan) (c : Char) (text : Text) :
    scan.run (c :: text) = (scan.step c).bind fun next => next.run text := List.foldlM_cons

/-- **A text is read from the state that the text before it leaves.** -/
theorem run_append (scan : Scan) (a b : Text) :
    scan.run (a ++ b) = (scan.run a).bind fun next => next.run b := List.foldlM_append

/-- The loop is the machine. -/
theorem parseLoop_eq (path text : Text) (scan : Scan) :
    parseLoop path text scan.bracket scan.current scan.segments
      = (((scan.run text).bind Scan.finish).elim (.error (.badJsonPath path)) .ok) := by
  -- By induction on the text, as the loop goes; the state of the machine holds what the loop
  -- carries.
  induction text generalizing scan with
  | nil =>
    obtain ⟨bracket, current, segments⟩ := scan
    -- Inside a bracket the end of the text is an error, and so is a path without segments.
    cases bracket with
    | some index => rfl
    | none =>
      rw [run_nil, Option.bind_some, parseLoop]
      show _ = (if flush current segments = [] then none
        else some (flush current segments)).elim _ _
      by_cases hnone : flush current segments = []
      · rw [if_pos hnone, if_pos hnone]
        rfl
      · rw [if_neg hnone, if_neg hnone]
        rfl
  | cons c rest ih =>
    obtain ⟨bracket, current, segments⟩ := scan
    rw [run_cons]
    unfold Scan.step
    -- Inside a bracket only `]` is special; outside, `.`, `[` and `]` are.
    cases bracket with
    | some index =>
      dsimp only
      rw [parseLoop]
      by_cases hclose : c = ']'
      · rw [if_pos hclose, if_pos hclose]
        cases bracketSegment index with
        | none => rfl
        | some segment => exact ih ⟨none, current, segments ++ [segment]⟩
      · rw [if_neg hclose, if_neg hclose]
        exact ih ⟨some (index ++ [c]), current, segments⟩
    | none =>
      dsimp only
      rw [parseLoop]
      by_cases hdot : c = '.'
      · rw [if_pos hdot, if_pos hdot]
        exact ih ⟨none, [], flush current segments⟩
      rw [if_neg hdot, if_neg hdot]
      by_cases hopen : c = '['
      · rw [if_pos hopen, if_pos hopen]
        exact ih ⟨some [], [], flush current segments⟩
      rw [if_neg hopen, if_neg hopen]
      by_cases hclose : c = ']'
      · rw [if_pos hclose, if_pos hclose]
        rfl
      · rw [if_neg hclose, if_neg hclose]
        exact ih ⟨none, current ++ [c], segments⟩

/-- A path without the white space around it and without its `$.` or `$`. -/
def core (path : Text) : Text :=
  (Resolver.stripPrefix "$.".toList (trim path)).getD
    ((Resolver.stripPrefix "$".toList (trim path)).getD (trim path))

/-- The segments of a path are those that the machine reads from its core. -/
theorem parse_eq (path : Text) :
    parse path = (((({} : Scan).run (core path)).bind Scan.finish).elim
      (.error (.badJsonPath (core path))) .ok) := parseLoop_eq (core path) (core path) {}

/-- What a path is parsed as: what the scan of its core ends with. -/
theorem parse_eq_ok_iff {path : Text} {segments : List Segment} :
    parse path = .ok segments ↔ ∃ scan, ({} : Scan).run (core path) = some scan
      ∧ scan.finish = some segments := by
  rw [parse_eq, ← Option.bind_eq_some_iff]
  cases ({} : Scan).run (core path) |>.bind Scan.finish with
  | none => exact iff_of_false (by simp) (by simp)
  | some found => simp

/-- The segments at the end are those of the machine, with its key. -/
theorem finish_eq_some_iff {scan : Scan} {segments : List Segment} :
    scan.finish = some segments ↔ scan.bracket = none ∧ segments ≠ []
      ∧ flush scan.current scan.segments = segments := by
  unfold Scan.finish
  cases scan.bracket with
  | some read =>
    exact iff_of_false (Option.some_ne_none segments).symm fun h => Option.some_ne_none read h.1
  | none =>
    rw [if_neg (show ¬ (none : Option Text).isSome = true from Bool.false_ne_true),
      and_iff_right rfl]
    by_cases hnone : flush scan.current scan.segments = []
    · rw [if_pos hnone]
      exact iff_of_false (Option.some_ne_none segments).symm fun h => h.1 (h.2.symm.trans hnone)
    · rw [if_neg hnone, Option.some.injEq]
      exact ⟨fun h => ⟨h ▸ hnone, h⟩, fun h => h.2⟩

/-! ### Pieces -/

/-- A part of a path: a character of a key, a dot, or a closed bracket. -/
inductive Piece where
  | char (c : Char)
  | dot
  | bracket (index : Text)

/-- A piece as it is written. -/
def Piece.text : Piece → Text
  | .char c => [c]
  | .dot => ['.']
  | .bracket index => '[' :: index ++ [']']

/-- A character of a key is no punctuation, and a bracket is closed by the first `]`. -/
def Piece.Closed : Piece → Prop
  | .char c => c ≠ '.' ∧ c ≠ '[' ∧ c ≠ ']'
  | .dot => True
  | .bracket index => ']' ∉ index

/-- Brackets are balanced in a text made of pieces. -/
def Balanced (text : Text) (pieces : List Piece) : Prop :=
  (∀ piece ∈ pieces, piece.Closed) ∧ pieces.flatMap Piece.text = text

/-- Nothing is left in a bracket but white space and quotes. -/
def EmptyBracket (index : Text) : Prop := ((trim index).dropWhile isQuote).rdropWhile isQuote = []

/-- A bracket is no segment exactly when it is empty. -/
theorem bracketSegment_eq_none_iff (index : Text) :
    bracketSegment index = none ↔ EmptyBracket index := by
  unfold bracketSegment EmptyBracket
  dsimp only
  generalize ((trim index).dropWhile isQuote).rdropWhile isQuote = name
  cases hparse : parseUsize name with
  | some n =>
    refine iff_of_false (Option.some_ne_none _) ?_
    rintro rfl
    have hnil : parseUsize [] = none := by decide
    rw [hnil] at hparse
    exact absurd hparse.symm (Option.some_ne_none n)
  | none =>
    by_cases hname : name = []
    · rw [if_pos hname]
      exact iff_of_true rfl hname
    · rw [if_neg hname]
      exact iff_of_false (Option.some_ne_none _) hname

/-- The machine inside a bracket reads up to its end. -/
theorem run_bracket {index : Text} (h : ']' ∉ index) (read current : Text)
    (segments : List Segment) (rest : Text) :
    (⟨some read, current, segments⟩ : Scan).run (index ++ ']' :: rest)
      = (bracketSegment (read ++ index)).bind fun segment =>
        (⟨none, current, segments ++ [segment]⟩ : Scan).run rest := by
  induction index generalizing read with
  | nil =>
    rw [List.nil_append, List.append_nil, run_cons]
    unfold Scan.step
    dsimp only
    rw [if_pos rfl]
    cases bracketSegment read <;> rfl
  | cons c index ih =>
    have hc : c ≠ ']' := fun hc => h (hc ▸ List.mem_cons_self)
    rw [List.cons_append, run_cons]
    unfold Scan.step
    dsimp only
    rw [if_neg hc, Option.bind_some, ih (fun hmem => h (List.mem_cons_of_mem _ hmem)),
      List.append_assoc]
    rfl

/-- What the machine does with a piece. -/
def Scan.take (scan : Scan) : Piece → Option Scan
  | .char c => some { scan with current := scan.current ++ [c] }
  | .dot => some ⟨none, [], flush scan.current scan.segments⟩
  | .bracket index => (bracketSegment index).map fun segment =>
    ⟨none, [], flush scan.current scan.segments ++ [segment]⟩

/-- The machine reads a piece. -/
theorem run_piece {piece : Piece} (h : piece.Closed) (current : Text) (segments : List Segment) :
    (⟨none, current, segments⟩ : Scan).run piece.text
      = (⟨none, current, segments⟩ : Scan).take piece := by
  cases piece with
  | char c =>
    rw [Piece.text, run_cons]
    unfold Scan.step
    dsimp only
    rw [if_neg h.1, if_neg h.2.1, if_neg h.2.2]
    rfl
  | dot => rfl
  | bracket index =>
    show (⟨some [], [], flush current segments⟩ : Scan).run (index ++ [']']) = _
    rw [run_bracket h, List.nil_append]
    show _ = (bracketSegment index).map _
    cases bracketSegment index <;> rfl

/-- **The machine reads a balanced text piece by piece.** -/
theorem run_pieces {pieces : List Piece} (h : ∀ piece ∈ pieces, piece.Closed) (current : Text)
    (segments : List Segment) :
    (⟨none, current, segments⟩ : Scan).run (pieces.flatMap Piece.text)
      = pieces.foldlM Scan.take ⟨none, current, segments⟩ := by
  induction pieces generalizing current segments with
  | nil => rfl
  | cons piece rest ih =>
    rw [List.flatMap_cons, run_append, run_piece (h piece List.mem_cons_self), List.foldlM_cons]
    have hrest := ih fun other hother => h other (List.mem_cons_of_mem _ hother)
    cases piece with
    | char c => exact hrest _ _
    | dot => exact hrest _ _
    | bracket index =>
      show ((bracketSegment index).map _).bind _ = ((bracketSegment index).map _).bind _
      cases bracketSegment index with
      | none => rfl
      | some segment => exact hrest _ _

/-- A text that the machine accepts outside a bracket is balanced. -/
theorem exists_pieces {text : Text} {scan next : Scan} (hrun : scan.run text = some next)
    (hend : next.bracket = none) (hread : ∀ read, scan.bracket = some read → ']' ∉ read) :
    ∃ pieces, Balanced ((scan.bracket.elim [] fun read => '[' :: read) ++ text) pieces := by
  -- By induction on the text; an open bracket with what was read of it counts as part of the text.
  induction text generalizing scan with
  | nil =>
    obtain rfl := Option.some.inj hrun
    rw [hend]
    exact ⟨[], fun piece hpiece => absurd hpiece List.not_mem_nil, rfl⟩
  | cons c rest ih =>
    obtain ⟨bracket, current, segments⟩ := scan
    rw [run_cons] at hrun
    obtain ⟨middle, hstep, hrest⟩ := Option.bind_eq_some_iff.mp hrun
    -- A closed piece in front of balanced ones keeps them balanced.
    have hcons : ∀ {piece : Piece} {pieces : List Piece} {more : Text}, piece.Closed →
        Balanced more pieces → Balanced (piece.text ++ more) (piece :: pieces) := by
      intro piece pieces more hclosed hbalanced
      refine ⟨fun other hother => ?_, by rw [List.flatMap_cons, hbalanced.2]⟩
      exact (List.mem_cons.mp hother).elim (fun heq => heq ▸ hclosed) (hbalanced.1 other)
    unfold Scan.step at hstep
    cases bracket with
    | some read =>
      dsimp only at hstep ⊢
      by_cases hclose : c = ']'
      · -- The bracket is a piece.
        rw [if_pos hclose] at hstep
        obtain ⟨segment, -, rfl⟩ := Option.map_eq_some_iff.mp hstep
        obtain ⟨pieces, hpieces⟩ := ih hrest fun other hother => absurd hother.symm
          (Option.some_ne_none other)
        refine ⟨.bracket read :: pieces, ?_⟩
        have htext : (some read).elim [] (fun read => '[' :: read) ++ c :: rest
            = (Piece.bracket read).text ++ rest := by
          rw [hclose]
          simp [Piece.text]
        rw [htext]
        exact hcons (hread read rfl) hpieces
      -- The bracket goes on, with one more character read.
      · rw [if_neg hclose] at hstep
        obtain rfl := Option.some.inj hstep
        obtain ⟨pieces, hpieces⟩ := ih hrest fun other hother => by
          obtain rfl := Option.some.inj hother
          rw [List.mem_append, List.mem_singleton]
          exact fun hmem => hmem.elim (hread read rfl) fun heq => hclose heq.symm
        refine ⟨pieces, ?_⟩
        have htext : (some read).elim [] (fun read => '[' :: read) ++ c :: rest
            = '[' :: (read ++ [c]) ++ rest := by simp
        rw [htext]
        exact hpieces
    -- Outside a bracket each character but `[` is a piece of its own.
    | none =>
      dsimp only at hstep ⊢
      have hnone : ∀ read, (none : Option Text) = some read → ']' ∉ read :=
        fun read heq => absurd heq.symm (Option.some_ne_none read)
      by_cases hdot : c = '.'
      · rw [if_pos hdot] at hstep
        obtain rfl := Option.some.inj hstep
        obtain ⟨pieces, hpieces⟩ := ih hrest hnone
        rw [hdot]
        exact ⟨.dot :: pieces, hcons trivial hpieces⟩
      rw [if_neg hdot] at hstep
      by_cases hopen : c = '['
      · rw [if_pos hopen] at hstep
        obtain rfl := Option.some.inj hstep
        rw [hopen]
        exact ih hrest fun read heq => Option.some.inj heq ▸ List.not_mem_nil
      rw [if_neg hopen] at hstep
      by_cases hclose : c = ']'
      · rw [if_pos hclose] at hstep
        exact absurd hstep.symm (Option.some_ne_none middle)
      · rw [if_neg hclose] at hstep
        obtain rfl := Option.some.inj hstep
        obtain ⟨pieces, hpieces⟩ := ih hrest hnone
        exact ⟨.char c :: pieces, hcons ⟨hdot, hopen, hclose⟩ hpieces⟩

/-- A key or a segment is left. -/
theorem flush_eq_nil_iff (current : Text) (segments : List Segment) :
    flush current segments = [] ↔ current = [] ∧ segments = [] := by
  unfold flush
  by_cases hcurrent : current = []
  · rw [if_pos hcurrent, and_iff_right hcurrent]
  · rw [if_neg hcurrent]
    exact iff_of_false (List.append_ne_nil_of_right_ne_nil _ (List.cons_ne_nil _ _))
      fun h => hcurrent h.1

/-- Reading pieces behind some segments: it fails at an empty bracket, and no segment is left when
there was none and all are dots. -/
def PiecesRead (pieces : List Piece) (start : List Segment) (result : Option Scan) : Prop :=
  (result = none ∧ ∃ index, .bracket index ∈ pieces ∧ EmptyBracket index)
  ∨ ∃ next, result = some next ∧ next.bracket = none
    ∧ (∀ index, .bracket index ∈ pieces → ¬ EmptyBracket index)
    ∧ (flush next.current next.segments = [] ↔ start = [] ∧ ∀ piece ∈ pieces, piece = .dot)

/-- What reading pieces leaves, by induction on the pieces. -/
theorem take_pieces (pieces : List Piece) (current : Text) (segments : List Segment) :
    PiecesRead pieces (flush current segments)
      (pieces.foldlM Scan.take ⟨none, current, segments⟩) := by
  induction pieces generalizing current segments with
  | nil =>
    exact .inr ⟨_, rfl, rfl, fun index h => absurd h List.not_mem_nil,
      (and_iff_left fun piece h => absurd h List.not_mem_nil).symm⟩
  | cons piece rest ih =>
    rw [List.foldlM_cons]
    -- What a piece leaves, for the pieces behind it.
    have hpiece : ∀ {current' : Text} {segments' : List Segment},
        (⟨none, current, segments⟩ : Scan).take piece = some ⟨none, current', segments'⟩ →
        (∀ index, piece = .bracket index → ¬ EmptyBracket index) →
        (flush current' segments' = [] ↔ flush current segments = [] ∧ piece = .dot) →
        PiecesRead (piece :: rest) (flush current segments)
          ((⟨none, current, segments⟩ : Scan).take piece >>= rest.foldlM Scan.take) := by
      intro current' segments' htake hbracket hflush
      rw [htake]
      rcases ih current' segments' with
        ⟨hnone, index, hmem, hempty⟩ | ⟨next, hnext, hout, hall, hdots⟩
      · exact .inl ⟨hnone, index, List.mem_cons_of_mem _ hmem, hempty⟩
      · refine .inr ⟨next, hnext, hout, fun index hmem => ?_, ?_⟩
        · exact (List.mem_cons.mp hmem).elim (fun h => hbracket index h.symm) (hall index)
        · rw [hdots, hflush, and_assoc, List.forall_mem_cons]
    cases piece with
    | char c =>
      refine hpiece rfl (fun index h => ?_) (iff_of_false (fun h => ?_) fun h => ?_)
      · exact Piece.noConfusion h
      · exact List.append_ne_nil_of_right_ne_nil _ (List.cons_ne_nil _ _)
          ((flush_eq_nil_iff _ _).mp h).1
      · exact Piece.noConfusion h.2
    | dot =>
      refine hpiece rfl (fun index h => Piece.noConfusion h) ?_
      exact ⟨fun h => ⟨h, rfl⟩, fun h => h.1⟩
    | bracket index =>
      cases hsegment : bracketSegment index with
      | none =>
        refine .inl ⟨?_, index, List.mem_cons_self, (bracketSegment_eq_none_iff index).mp hsegment⟩
        unfold Scan.take
        dsimp only
        rw [hsegment]
        rfl
      | some segment =>
        have htake : (⟨none, current, segments⟩ : Scan).take (.bracket index)
            = some ⟨none, [], flush current segments ++ [segment]⟩ := by
          unfold Scan.take
          dsimp only
          rw [hsegment]
          rfl
        refine hpiece htake (fun other h => ?_) (iff_of_false (fun h => ?_) fun h => ?_)
        · obtain rfl := Piece.bracket.inj h
          rw [← bracketSegment_eq_none_iff, hsegment]
          exact Option.some_ne_none segment
        · exact List.append_ne_nil_of_right_ne_nil _ (List.cons_ne_nil _ _) h
        · exact Piece.noConfusion h.2

/-- A path is refused: a bracket is unbalanced, or one is empty, or no segment remains. -/
def Refused (path : Text) : Prop :=
  (∀ pieces, ¬ Balanced (core path) pieces)
  ∨ ∃ pieces, Balanced (core path) pieces
    ∧ ((∃ index, .bracket index ∈ pieces ∧ EmptyBracket index) ∨ ∀ piece ∈ pieces, piece = .dot)

/-- **Which paths do not parse.** -/
theorem parse_error_iff (path : Text) : (∃ error, parse path = .error error) ↔ Refused path := by
  -- What the machine does on balanced pieces was said piece by piece.
  have hread : ∀ {pieces}, Balanced (core path) pieces →
      PiecesRead pieces [] (({} : Scan).run (core path)) := by
    rintro pieces ⟨hclosed, htext⟩
    rw [← htext, run_pieces hclosed]
    exact take_pieces pieces [] []
  -- The loop succeeds exactly when a segment remains at the end.
  have hfinish : ∀ {next : Scan}, ({} : Scan).run (core path) = some next → next.bracket = none →
      parse path = if flush next.current next.segments = [] then .error (.badJsonPath (core path))
        else .ok (flush next.current next.segments) := by
    intro next hnext hout
    rw [parse_eq, hnext, Option.bind_some]
    unfold Scan.finish
    rw [hout]
    by_cases hnone : flush next.current next.segments = []
    · rw [if_pos hnone, if_pos hnone]
      rfl
    · rw [if_neg hnone, if_neg hnone]
      rfl
  constructor
  · rintro ⟨error, herror⟩
    -- A path that is balanced fails by an empty bracket or for want of a segment.
    by_cases hbalanced : ∃ pieces, Balanced (core path) pieces
    · obtain ⟨pieces, hpieces⟩ := hbalanced
      refine .inr ⟨pieces, hpieces, ?_⟩
      rcases hread hpieces with ⟨-, hempty⟩ | ⟨next, hnext, hout, -, hdots⟩
      · exact .inl hempty
      · rw [hfinish hnext hout] at herror
        by_cases hnone : flush next.current next.segments = []
        · exact .inr (hdots.mp hnone).2
        · rw [if_neg hnone] at herror
          cases herror
    · exact .inl fun pieces hpieces => hbalanced ⟨pieces, hpieces⟩
  · intro hrefused
    cases hparse : parse path with
    | error error => exact ⟨error, rfl⟩
    | ok segments =>
      -- A path that parses is balanced, has no empty bracket and keeps a segment.
      exfalso
      obtain ⟨scan, hrun, hsegments⟩ := parse_eq_ok_iff.mp hparse
      have hout : scan.bracket = none := (finish_eq_some_iff.mp hsegments).1
      rcases hrefused with hnone | ⟨pieces, hpieces, hbad⟩
      · obtain ⟨pieces, hpieces⟩ := exists_pieces hrun hout fun read heq =>
          absurd heq.symm (Option.some_ne_none read)
        exact hnone pieces hpieces
      · rcases hread hpieces with ⟨hfail, -⟩ | ⟨next, hnext, hout', hall, hdots⟩
        · rw [hrun] at hfail
          exact absurd hfail (Option.some_ne_none scan)
        · rcases hbad with ⟨index, hmem, hempty⟩ | honly
          · exact hall index hmem hempty
          · rw [hfinish hnext hout', if_pos (hdots.mpr ⟨rfl, honly⟩)] at hparse
            cases hparse

/-! ### Brackets behind a path -/

/-- The white space at the end of a path. -/
def trailing (path : Text) : Text := (path.dropWhile isWhitespace).rtakeWhile isWhitespace

/-- A trimmed path and what was trimmed behind it. -/
theorem trim_append_trailing (path : Text) :
    trim path ++ trailing path = path.dropWhile isWhitespace := List.rdropWhile_append_rtakeWhile

/-- What was trimmed is white space. -/
theorem isWhitespace_of_mem_trailing {path : Text} {c : Char} (h : c ∈ trailing path) :
    isWhitespace c = true := List.mem_rtakeWhile_imp h

/-- Dropping the `$.` or the `$` in front. -/
theorem stripPrefix_append {t : Text} (hne : t ≠ []) (hdollar : t ≠ ['$']) (more : Text) :
    (Resolver.stripPrefix "$.".toList (t ++ more)).getD
        ((Resolver.stripPrefix "$".toList (t ++ more)).getD (t ++ more))
      = (Resolver.stripPrefix "$.".toList t).getD ((Resolver.stripPrefix "$".toList t).getD t)
        ++ more := by
  have hlit : "$.".toList = ['$', '.'] ∧ "$".toList = ['$'] := ⟨rfl, rfl⟩
  unfold Resolver.stripPrefix
  rw [hlit.1, hlit.2]
  obtain ⟨c, rest, rfl⟩ := List.exists_cons_of_ne_nil hne
  by_cases hc : c = '$'
  · have hrest : rest ≠ [] := fun h => hdollar (by rw [hc, h])
    obtain ⟨d, rest, rfl⟩ := List.exists_cons_of_ne_nil hrest
    by_cases hd : d = '.'
    · simp [hc, hd]
    · simp [hc, Ne.symm hd]
  · simp [Ne.symm hc]

/-- What is appended to a path, behind the white space at its end, is appended to its core. -/
theorem core_append {path suffix : Text} (hcore : core path ≠ [])
    (hlast : ∀ c, suffix.getLast? = some c → isWhitespace c = false) (hne : suffix ≠ []) :
    core (path ++ suffix) = core path ++ trailing path ++ suffix := by
  -- A core that is not empty belongs to a path that is neither blank nor `$`.
  have htrim : trim path ≠ [] ∧ trim path ≠ ['$'] := by
    refine ⟨fun h => hcore ?_, fun h => hcore ?_⟩
    · unfold core
      rw [h]
      rfl
    · unfold core
      rw [h]
      rfl
  have hdrop : path.dropWhile isWhitespace ≠ [] := by
    rw [← trim_append_trailing]
    exact List.append_ne_nil_of_left_ne_nil htrim.1 _
  -- The white space at the end of the path is kept when something else follows.
  have hwhole : trim (path ++ suffix) = trim path ++ (trailing path ++ suffix) := by
    have hend : ¬ isWhitespace (suffix.getLast hne) = true := by
      rw [hlast _ (List.getLast?_eq_some_getLast hne)]
      exact Bool.false_ne_true
    unfold trim
    rw [List.dropWhile_append, if_neg (by simpa using hdrop), ← List.append_assoc]
    show _ = trim path ++ trailing path ++ suffix
    rw [trim_append_trailing, List.rdropWhile_eq_self_iff]
    intro hne'
    rw [List.getLast_append_of_ne_nil hne' hne]
    exact hend
  unfold core
  rw [hwhole, stripPrefix_append htrim.1 htrim.2, List.append_assoc]

/-- Characters that are no punctuation go to the key. -/
theorem run_plain {text : Text} (h : ∀ c ∈ text, c ≠ '.' ∧ c ≠ '[' ∧ c ≠ ']') (current : Text)
    (segments : List Segment) :
    (⟨none, current, segments⟩ : Scan).run text = some ⟨none, current ++ text, segments⟩ := by
  induction text generalizing current with
  | nil => rw [run_nil, List.append_nil]
  | cons c rest ih =>
    obtain ⟨hdot, hopen, hclose⟩ := h c List.mem_cons_self
    rw [run_cons]
    unfold Scan.step
    dsimp only
    rw [if_neg hdot, if_neg hopen, if_neg hclose, Option.bind_some,
      ih fun d hd => h d (List.mem_cons_of_mem _ hd), List.append_assoc]
    rfl

/-- A key with more characters is another key. -/
theorem flush_append_eq_iff (current more : Text) (segments : List Segment) :
    flush (current ++ more) segments = flush current segments ↔ more = [] := by
  unfold flush
  by_cases hmore : more = []
  · rw [hmore, List.append_nil]
    exact iff_of_true rfl rfl
  · rw [if_neg (List.append_ne_nil_of_right_ne_nil _ hmore)]
    refine iff_of_false (fun h => ?_) hmore
    by_cases hcurrent : current = []
    · rw [if_pos hcurrent] at h
      exact List.cons_ne_nil _ _ (List.append_right_eq_self.mp h)
    · rw [if_neg hcurrent] at h
      have hkey := Segment.key.inj (List.singleton_inj.mp (List.append_cancel_left h))
      exact hmore (List.append_right_eq_self.mp hkey)

/-- **A bracket behind a path adds its segment**, unless the path ends with white space, which is
then read as a part of a key. -/
theorem parse_bracket_iff {path : Text} {segments : List Segment}
    (hpath : parse path = .ok segments) {index : Text} (hindex : ']' ∉ index) (segment : Segment) :
    parse (path ++ '[' :: index ++ [']']) = .ok (segments ++ [segment])
      ↔ trailing path = [] ∧ bracketSegment index = some segment := by
  obtain ⟨scan, hrun, hfinish⟩ := parse_eq_ok_iff.mp hpath
  obtain ⟨bracket, current, before⟩ := scan
  -- The path ends outside a bracket, with some segment.
  obtain ⟨rfl, hflush, rfl⟩ : bracket = none ∧ flush current before ≠ []
      ∧ flush current before = segments := by
    obtain ⟨hout, hne, hflush⟩ := finish_eq_some_iff.mp hfinish
    exact ⟨hout, hflush ▸ hne, hflush⟩
  have hcore : core path ≠ [] := by
    intro hnil
    rw [hnil] at hrun
    obtain ⟨-, rfl, rfl⟩ := Scan.mk.inj (Option.some.inj hrun)
    exact hflush rfl
  have hwhole : core (path ++ '[' :: index ++ [']'])
      = core path ++ trailing path ++ (Piece.bracket index).text := by
    rw [List.append_assoc, core_append hcore]
    · rfl
    · intro c hc
      rw [List.getLast?_append_of_ne_nil _ (List.cons_ne_nil _ _)] at hc
      obtain rfl := Option.some.inj hc
      decide
    · exact List.cons_ne_nil _ _
  -- White space is none of the special characters, so it joins the key that is being read.
  have hspace : ∀ c ∈ trailing path, c ≠ '.' ∧ c ≠ '[' ∧ c ≠ ']' := by
    intro c hc
    have hwhite := isWhitespace_of_mem_trailing hc
    refine ⟨?_, ?_, ?_⟩
    all_goals
      rintro rfl
      exact absurd hwhite (by decide)
  -- Behind the path the machine reads the bracket as one piece.
  have hpiece := @run_piece (.bracket index) hindex (current ++ trailing path) before
  have hout : ({} : Scan).run (core (path ++ '[' :: index ++ [']']))
      = (bracketSegment index).map fun segment =>
        ⟨none, [], flush (current ++ trailing path) before ++ [segment]⟩ := by
    rw [hwhole, run_append, run_append, hrun, Option.bind_some, run_plain hspace, Option.bind_some,
      hpiece]
    rfl
  rw [parse_eq, hout]
  cases bracketSegment index with
  | none =>
    refine iff_of_false (fun h => ?_) fun h => absurd h.2.symm (Option.some_ne_none segment)
    cases h
  | some found =>
    have hlast : (⟨none, [], flush (current ++ trailing path) before ++ [found]⟩ : Scan).finish
        = some (flush (current ++ trailing path) before ++ [found]) := by
      unfold Scan.finish
      dsimp only
      rw [if_neg (by decide)]
      exact if_neg (List.append_ne_nil_of_right_ne_nil _ (List.cons_ne_nil _ _))
    rw [Option.map_some, Option.bind_some, hlast]
    show Except.ok _ = Except.ok _ ↔ _
    -- The segments are the old ones and a new one exactly when no white space joined the last key.
    rw [Except.ok.injEq, Option.some.injEq, ← flush_append_eq_iff current (trailing path) before]
    constructor
    · intro h
      obtain ⟨hsame, hfound⟩ := List.append_inj' h rfl
      exact ⟨hsame, List.singleton_inj.mp hfound⟩
    · rintro ⟨hsame, rfl⟩
      rw [hsame]

/-! ### Keys and indexes -/

/-- A key in brackets and quotes. -/
def quoted (key : Text) : Text := '[' :: ('"' :: key ++ ['"']) ++ [']']

/-- An index in brackets. -/
def indexed (n : UInt64) : Text := '[' :: natText n.toNat ++ [']']

/-- The segment of a quoted key: an index, when the key is one. -/
theorem bracketSegment_quoted {key : Text} (h : ∀ c ∈ key, isQuote c = false) :
    bracketSegment ('"' :: key ++ ['"'])
      = (parseUsize key).elim (if key = [] then none else some (.key key))
        fun n => some (.index n) := by
  -- The quotes are no white space, so nothing is trimmed.
  have htrim : trim ('"' :: key ++ ['"']) = '"' :: key ++ ['"'] := by
    refine trim_eq_self_iff.mpr ⟨fun c hc => ?_, fun c hc => ?_⟩
    · obtain rfl := Option.some.inj hc
      decide
    · rw [List.getLast?_concat] at hc
      obtain rfl := Option.some.inj hc
      decide
  -- And the key holds no quote of its own, so only the outer two are taken off.
  have hname : (('"' :: key ++ ['"']).dropWhile isQuote).rdropWhile isQuote = key := by
    rw [List.cons_append, List.dropWhile_cons_of_pos (by decide)]
    cases key with
    | nil => rfl
    | cons c rest =>
      have hc : ¬ isQuote c = true := by
        rw [h c List.mem_cons_self]
        exact Bool.false_ne_true
      rw [List.cons_append, List.dropWhile_cons_of_neg hc, ← List.cons_append,
        List.rdropWhile_concat_pos _ _ _ (by decide), List.rdropWhile_eq_self_iff]
      intro hne
      rw [h _ (List.getLast_mem hne)]
      exact Bool.false_ne_true
  unfold bracketSegment
  dsimp only
  rw [htrim, hname]
  cases parseUsize key <;> rfl

/-- A digit is no white space and no quote. -/
theorem plain_of_isDigit {c : Char} (h : c.isDigit = true) :
    isWhitespace c = false ∧ isQuote c = false := by
  have hrange : 48 ≤ c.toNat ∧ c.toNat ≤ 57 := by
    rwa [Char.isDigit_iff_toNat] at h
  constructor
  · unfold isWhitespace
    simp only [Bool.or_eq_false_iff, Bool.and_eq_false_iff, decide_eq_false_iff_not,
      beq_eq_false_iff_ne]
    omega
  · unfold isQuote
    rw [Bool.or_eq_false_iff, beq_eq_false_iff_ne, beq_eq_false_iff_ne]
    constructor
    all_goals
      rintro rfl
      exact absurd h (by decide)

/-- The segment of an index. -/
theorem bracketSegment_index (n : UInt64) :
    bracketSegment (natText n.toNat) = some (.index n.toNat) := by
  have hplain : ∀ c ∈ natText n.toNat, isWhitespace c = false ∧ isQuote c = false :=
    fun c hc => plain_of_isDigit (isDigit_of_mem_natText hc)
  have htrim : trim (natText n.toNat) = natText n.toNat :=
    trim_of_forall fun c hc => (hplain c hc).1
  have hquote : ∀ c ∈ natText n.toNat, ¬ isQuote c = true := by
    intro c hc
    rw [(hplain c hc).2]
    exact Bool.false_ne_true
  have hname : ((natText n.toNat).dropWhile isQuote).rdropWhile isQuote = natText n.toNat := by
    obtain ⟨c, rest, hcons⟩ := List.exists_cons_of_ne_nil
      (show natText n.toNat ≠ [] from Nat.toDigits_ne_nil)
    rw [hcons] at hquote ⊢
    rw [List.dropWhile_cons_of_neg (hquote c List.mem_cons_self), List.rdropWhile_eq_self_iff]
    exact fun hne => hquote _ (List.getLast_mem hne)
  unfold bracketSegment
  dsimp only
  rw [htrim, hname, parseUsize_natText n.toNat_lt]

/-- Following one more segment. -/
theorem walk_append (root : Json) (segments : List Segment) (segment : Segment) :
    walk root (segments ++ [segment])
      = (walk root segments).bind fun json => walk json [segment] := by
  induction segments generalizing root with
  | nil => rfl
  | cons first rest ih =>
    cases first with
    | key key =>
      rw [List.cons_append, walk, walk, Option.bind_assoc]
      exact congrArg _ (funext ih)
    | index index =>
      rw [List.cons_append, walk, walk, Option.bind_assoc]
      exact congrArg _ (funext ih)

/-- A text behind a path is one more step: the path leads to the same place, one segment further,
and finds what is there. -/
structure Adds (root : Json) (path suffix : Text) (segments : List Segment) (segment : Segment)
    (found : Option Json) : Prop where
  place : parse (path ++ suffix) = .ok (segments ++ [segment])
  value : select root (path ++ suffix) = .ok found

/-- A suffix adds a step exactly when the longer path is parsed as the longer route. -/
theorem adds_iff {root here : Json} {path suffix : Text} {segments : List Segment}
    (hhere : walk root segments = some here) (segment : Segment) :
    Adds root path suffix segments segment (walk here [segment])
      ↔ parse (path ++ suffix) = .ok (segments ++ [segment]) := by
  refine ⟨fun h => h.place, fun h => ⟨h, ?_⟩⟩
  unfold select
  rw [h]
  show Except.ok (walk root (segments ++ [segment])) = _
  rw [walk_append, hhere, Option.bind_some]

/-- **When brackets address what they should.** Behind a path that leads to an object, a quoted key
of the object leads to its value exactly when the path does not end with white space, and the key
is not empty and is no number. Behind one that leads to an array, an index leads to its item exactly
when the path does not end with white space. And a path does not parse exactly when a bracket is
unbalanced or empty or no segment remains. -/
theorem brackets_iff {root : Json} {path : Text} {segments : List Segment}
    (hpath : parse path = .ok segments) :
    (∀ fields key value, walk root segments = some (.object fields) →
      (Json.object fields).get? key = some value → (∀ c ∈ key, isQuote c = false ∧ c ≠ ']') →
      (Adds root path (quoted key) segments (.key key) (some value)
        ↔ trailing path = [] ∧ key ≠ [] ∧ parseUsize key = none))
    ∧ (∀ items (n : UInt64), walk root segments = some (.array items) →
      (Adds root path (indexed n) segments (.index n.toNat) items[n.toNat]?
        ↔ trailing path = []))
    ∧ ∀ path, (∃ error, parse path = .error error) ↔ Refused path := by
  refine ⟨fun fields key value hobject hvalue hkey => ?_, fun items n harray => ?_,
    parse_error_iff⟩
  -- The bracket adds its segment to the path, and the segment leads on from the object.
  · have hfound : walk (.object fields) [.key key] = some value := by
      rw [walk, hvalue]
      rfl
    have hbracket : ']' ∉ '"' :: key ++ ['"'] := by
      intro hmem
      rw [List.mem_append, List.mem_cons, List.mem_singleton] at hmem
      rcases hmem with (hmem | hmem) | hmem
      · exact absurd hmem (by decide)
      · exact (hkey _ hmem).2 rfl
      · exact absurd hmem (by decide)
    rw [← hfound, adds_iff hobject]
    have htext : path ++ quoted key = path ++ '[' :: ('"' :: key ++ ['"']) ++ [']'] :=
      (List.append_assoc path _ [']']).symm
    rw [htext, parse_bracket_iff hpath hbracket, bracketSegment_quoted fun c hc => (hkey c hc).1]
    refine and_congr_right fun _ => ?_
    -- A key that is a number is read as an index.
    cases hparse : parseUsize key with
    | some n =>
      refine iff_of_false (fun h => ?_) fun h => absurd h.2 (Option.some_ne_none n)
      exact Segment.noConfusion (Option.some.inj h)
    | none =>
      rw [Option.elim_none, and_iff_left rfl]
      by_cases hempty : key = []
      · rw [if_pos hempty]
        exact iff_of_false (Option.some_ne_none _).symm fun h => h hempty
      · rw [if_neg hempty]
        exact iff_of_true rfl hempty
  -- The digits of an index hold no bracket, and read back as the index.
  · have hfound : walk (.array items) [.index n.toNat] = items[n.toNat]? := by
      show (items[n.toNat]?).bind (walk · []) = _
      cases items[n.toNat]? <;> rfl
    have hbracket : ']' ∉ natText n.toNat :=
      fun hmem => absurd (isDigit_of_mem_natText hmem) (by decide)
    rw [← hfound, adds_iff harray]
    have htext : path ++ indexed n = path ++ '[' :: natText n.toNat ++ [']'] :=
      (List.append_assoc path _ [']']).symm
    rw [htext, parse_bracket_iff hpath hbracket, bracketSegment_index, and_iff_left rfl]

/-! ### Two keys -/

/-- A document with one field below `a`. -/
def nested (key : Text) : Json :=
  .object [("a".toList, .object [(key, .bool true)])]

/-- A key with a dot is addressed. -/
theorem brackets_dotted :
    Adds (nested "x.y".toList) "a".toList (quoted "x.y".toList) [.key "a".toList]
      (.key "x.y".toList) (some (.bool true)) := by
  have hpath : parse "a".toList = .ok [.key "a".toList] := by decide
  have hkey : trailing "a".toList = [] ∧ "x.y".toList ≠ [] ∧ parseUsize "x.y".toList = none := by
    decide
  have hplain : ∀ c ∈ "x.y".toList, isQuote c = false ∧ c ≠ ']' := by simp [isQuote]
  exact ((brackets_iff hpath).1 _ _ _ rfl rfl hplain).mpr hkey

/-- A key of digits is not: it is read as an index. -/
theorem not_brackets_digits :
    walk (nested "0".toList) [.key "a".toList] = some (.object [("0".toList, .bool true)])
      ∧ parse "a".toList = .ok [.key "a".toList]
      ∧ select (nested "0".toList) ("a".toList ++ quoted "0".toList) = .ok none := by
  have hparse : parse ("a".toList ++ quoted "0".toList) = .ok [.key "a".toList, .index 0] := by
    decide
  refine ⟨rfl, by decide, ?_⟩
  unfold select
  rw [hparse]
  rfl

end Gabriel.Core.Jsonpath
