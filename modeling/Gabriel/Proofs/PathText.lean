import Gabriel.Core.Diff
import Gabriel.Proofs.Jsonpath

/-!
# `Gabriel.Proofs.PathText`: the paths that a diff writes

The diff writes a path with dots and brackets, and the parser reads that notation. `pathText` is
what the diff writes for a place. The parser is the machine of `Proofs/Jsonpath`.

That a plain place is read back is a run of the machine. The converse counts. Each `]` of a text
closes one bracket, and a key that is read outside of a bracket is plain; a diff writes one `]` for
each index, so no key was read inside of one (`Marks`). And what is trimmed off a path is missing
in its keys (`weight`): two machines in the same bracket do the same with a character, so the
difference of what they hold stays to the end. The theorems:

* `run_pathText`: the machine reads the place that was written.
* `count_pathText`: a diff writes one `]` for each index.
* `Marks.run`: no more segments need a bracket than brackets were closed.
* `run_weight`: two machines in the same bracket read the same keys.
* `written_of_parse`: a place that is read back can be written.
* `parse_pathText_iff`: the paths that are read back are exactly those of the plain places.
-/

set_option autoImplicit false

namespace Gabriel.Core.Diff

open Text Jsonpath

/-! ### Places -/

/-- One step further down, as the walk writes it. -/
def extend (path : Text) : Segment → Text
  | .key key => join path key
  | .index index => itemPath path index

/-- The path of a place, as the walk writes it. -/
def pathText (route : List Segment) : Text := route.foldl extend []

/-- A longer route extends the text. -/
theorem pathText_concat (route : List Segment) (segment : Segment) :
    pathText (route ++ [segment]) = extend (pathText route) segment := List.foldl_concat ..

/-- No punctuation of a path. -/
def plainChar (c : Char) : Bool := c != '.' && c != '[' && c != ']'

/-- What a plain character is. -/
theorem plainChar_iff (c : Char) : plainChar c = true ↔ c ≠ '.' ∧ c ≠ '[' ∧ c ≠ ']' := by
  unfold plainChar
  rw [Bool.and_eq_true_iff, Bool.and_eq_true_iff, bne_iff_ne, bne_iff_ne, bne_iff_ne, and_assoc]

/-- A key that can stand between dots. -/
def plainKey (key : Text) : Bool := key ≠ [] && key.all plainChar

/-- What a plain key is. -/
theorem plainKey_iff {key : Text} :
    plainKey key = true ↔ key ≠ [] ∧ ∀ c ∈ key, c ≠ '.' ∧ c ≠ '[' ∧ c ≠ ']' := by
  unfold plainKey
  rw [Bool.and_eq_true_iff, decide_eq_true_iff, List.all_eq_true]
  exact and_congr_right fun _ => forall₂_congr fun c _ => plainChar_iff c

/-- The keys can stand between dots, and the indexes are those of a machine. -/
def Written (route : List Segment) : Prop :=
  (∀ key, .key key ∈ route → plainKey key = true) ∧ ∀ n, .index n ∈ route → n < 2 ^ 64

/-- A place with a path: not the whole document; its keys are not empty and have no punctuation;
the first one does not begin with a dollar sign, and no white space stands at the ends. -/
structure Plain (route : List Segment) : Prop where
  below : route ≠ []
  written : Written route
  first : ∀ key rest, route = .key key :: rest →
    ∀ c, key.head? = some c → isWhitespace c = false ∧ c ≠ '$'
  last : ∀ key front, route = front ++ [.key key] →
    ∀ c, key.getLast? = some c → isWhitespace c = false

/-! ### A plain place is read back -/

/-- The front of a route that is written is written. -/
theorem Written.front {route : List Segment} {segment : Segment}
    (h : Written (route ++ [segment])) : Written route :=
  ⟨fun key hkey => h.1 key (List.mem_append_left _ hkey),
    fun n hn => h.2 n (List.mem_append_left _ hn)⟩

/-- What a step writes. -/
def stepText (path : Text) : Segment → Text
  | .key key => if path = [] then key else '.' :: key
  | .index index => '[' :: natText index ++ [']']

/-- Extending a path puts the text of the step behind it. -/
theorem extend_eq (path : Text) (segment : Segment) :
    extend path segment = path ++ stepText path segment := by
  cases segment with
  | key key =>
    show (if path = [] then key else path ++ '.' :: key) = path ++ if path = [] then key else _
    by_cases hempty : path = []
    · rw [if_pos hempty, if_pos hempty, hempty, List.nil_append]
    · rw [if_neg hempty, if_neg hempty]
  | index index => exact List.append_assoc ..

/-- Something is written for a step. -/
theorem stepText_ne_nil {route : List Segment} {segment : Segment}
    (h : Written (route ++ [segment])) (path : Text) : stepText path segment ≠ [] := by
  cases segment with
  | key key =>
    have hkey := h.1 key (List.mem_append_right _ (List.mem_singleton.mpr rfl))
    rw [stepText]
    by_cases hempty : path = []
    · rw [if_pos hempty]
      exact (plainKey_iff.mp hkey).1
    · rw [if_neg hempty]
      exact List.cons_ne_nil _ _
  | index index => exact List.cons_ne_nil _ _

/-- Only the whole document has no path. -/
theorem pathText_eq_nil_iff {route : List Segment} (h : Written route) :
    pathText route = [] ↔ route = [] := by
  induction route using List.reverseRecOn with
  | nil => exact iff_of_true rfl rfl
  | append_singleton route segment ih =>
    rw [pathText_concat, extend_eq]
    refine iff_of_false (List.append_ne_nil_of_right_ne_nil _ (stepText_ne_nil h _)) ?_
    exact List.append_ne_nil_of_right_ne_nil _ (List.cons_ne_nil _ _)

/-- The machine reads the place. -/
theorem run_pathText {route : List Segment} (h : Written route) :
    ∃ current segments, ({} : Scan).run (pathText route) = some ⟨none, current, segments⟩
      ∧ flush current segments = route := by
  induction route using List.reverseRecOn with
  | nil => exact ⟨[], [], rfl, rfl⟩
  | append_singleton route segment ih =>
    obtain ⟨current, segments, hrun, hflush⟩ := ih h.front
    rw [pathText_concat, extend_eq, run_append, hrun, Option.bind_some]
    have hmem : segment ∈ route ++ [segment] := List.mem_append_right _ List.mem_cons_self
    cases segment with
    | key key =>
      obtain ⟨hkey, hplain⟩ := plainKey_iff.mp (h.1 key hmem)
      -- The machine stands before the key with the segments of the route.
      have hrest : (⟨none, [], route⟩ : Scan).run key = some ⟨none, key, route⟩ :=
        run_plain hplain [] route
      refine ⟨key, route, ?_, if_neg hkey⟩
      rw [stepText]
      by_cases hempty : pathText route = []
      · obtain rfl := (pathText_eq_nil_iff h.front).mp hempty
        obtain ⟨rfl, rfl⟩ := (flush_eq_nil_iff _ _).mp hflush
        rw [if_pos hempty]
        exact hrest
      · rw [if_neg hempty, run_cons]
        show (⟨none, [], flush current segments⟩ : Scan).run key = _
        rw [hflush, hrest]
    | index index =>
      have hindex : ']' ∉ natText index :=
        fun hmem => absurd (isDigit_of_mem_natText hmem) (by decide)
      have hsegment := bracketSegment_index (UInt64.ofNat index)
      rw [UInt64.toNat_ofNat_of_lt' (h.2 index hmem)] at hsegment
      refine ⟨[], route ++ [.index index], ?_, rfl⟩
      show (⟨none, current, segments⟩ : Scan).run (Piece.bracket (natText index)).text = _
      rw [@run_piece (.bracket (natText index)) hindex]
      show (bracketSegment (natText index)).map _ = _
      rw [hsegment, Option.map_some, hflush]

/-! ### What is trimmed off -/

/-- Nothing is trimmed off a path. -/
def Trimmed (path : Text) : Prop :=
  (∀ c, path.head? = some c → isWhitespace c = false ∧ c ≠ '$')
    ∧ ∀ c, path.getLast? = some c → isWhitespace c = false

/-- A path with nothing to trim is its own core. -/
theorem core_of_trimmed {path : Text} (h : Trimmed path) : core path = path := by
  have htrim : trim path = path := trim_eq_self_iff.mpr ⟨fun c hc => (h.1 c hc).1, h.2⟩
  unfold core
  rw [htrim]
  cases path with
  | nil => rfl
  | cons c rest =>
    have hc : ¬ '$' = c := fun heq => (h.1 c rfl).2 heq.symm
    unfold Resolver.stripPrefix
    have hlit : "$.".toList = ['$', '.'] ∧ "$".toList = ['$'] := ⟨rfl, rfl⟩
    rw [hlit.1, hlit.2]
    simp [hc]

/-- A path begins like the text of its first step. -/
theorem head?_pathText {segment : Segment} {rest : List Segment} (h : Written (segment :: rest)) :
    (pathText (segment :: rest)).head? = (stepText [] segment).head? := by
  induction rest using List.reverseRecOn with
  | nil =>
    show (extend [] segment).head? = _
    rw [extend_eq, List.nil_append]
  | append_singleton rest last ih =>
    have hfront : Written (segment :: rest) := h.front
    have hne : pathText (segment :: rest) ≠ [] :=
      fun hnil => List.cons_ne_nil _ _ ((pathText_eq_nil_iff hfront).mp hnil)
    rw [← List.cons_append, pathText_concat, extend_eq, List.head?_append_of_ne_nil _ hne,
      ih hfront]

/-- A path ends like the text of its last step. -/
theorem getLast?_pathText {segment : Segment} {front : List Segment}
    (h : Written (front ++ [segment])) (path : Text) :
    (pathText (front ++ [segment])).getLast? = (stepText path segment).getLast? := by
  rw [pathText_concat, extend_eq, List.getLast?_append_of_ne_nil _ (stepText_ne_nil h _)]
  cases segment with
  | key key =>
    have hkey : key ≠ [] :=
      (plainKey_iff.mp (h.1 key (List.mem_append_right _ List.mem_cons_self))).1
    have hall : ∀ before, (stepText before (.key key)).getLast? = key.getLast? := by
      intro before
      rw [stepText]
      by_cases hempty : before = []
      · rw [if_pos hempty]
      · rw [if_neg hempty, List.getLast?_cons_of_ne_nil hkey]
    rw [hall, hall]
  | index index => rfl

/-- Nothing is trimmed off the path of a plain place. -/
theorem plain_iff {route : List Segment} (hbelow : route ≠ []) (h : Written route) :
    Plain route ↔ Trimmed (pathText route) := by
  constructor
  · rintro ⟨-, -, hfirst, hlast⟩
    constructor
    -- The path begins with the first segment: a key as it stands, or the bracket of an index.
    · obtain ⟨segment, rest, rfl⟩ := List.exists_cons_of_ne_nil hbelow
      intro c hc
      rw [head?_pathText h] at hc
      cases segment with
      | key key => exact hfirst key rest rfl c hc
      | index index =>
        obtain rfl := Option.some.inj hc
        decide
    -- And it ends with the last one.
    · obtain ⟨front, segment, rfl⟩ := List.eq_nil_or_concat' route |>.resolve_left hbelow
      intro c hc
      rw [getLast?_pathText h []] at hc
      cases segment with
      | key key => exact hlast key front rfl c hc
      | index index =>
        rw [stepText, List.getLast?_concat] at hc
        obtain rfl := Option.some.inj hc
        decide
  · rintro ⟨hfirst, hlast⟩
    refine ⟨hbelow, h, ?_, ?_⟩
    · rintro key rest rfl c hc
      exact hfirst c ((head?_pathText h).trans hc)
    · rintro key front rfl c hc
      exact hlast c ((getLast?_pathText h []).trans hc)

/-- **A plain place is read back.** -/
theorem parse_pathText {route : List Segment} (h : Plain route) :
    parse (pathText route) = .ok route := by
  obtain ⟨current, segments, hrun, hflush⟩ := run_pathText h.written
  rw [parse_eq_ok_iff, core_of_trimmed ((plain_iff h.below h.written).mp h)]
  refine ⟨_, hrun, ?_⟩
  unfold Scan.finish
  dsimp only
  rw [hflush, if_neg (by decide), if_neg h.below]

/-! ### Closed brackets -/

/-- An index. -/
def isIndex : Segment → Bool
  | .key _ => false
  | .index _ => true

/-- A segment that the machine can only have read inside of a bracket. -/
def fromBracket : Segment → Bool
  | .key key => !plainKey key
  | .index _ => true

/-- What the machine holds after some brackets were closed: no more segments that need one, no key
with a `]`, and no index out of range. -/
structure Marks (scan : Scan) (closed : Nat) : Prop where
  segments : scan.segments.countP fromBracket ≤ closed
  keys : ∀ key, .key key ∈ scan.segments → ']' ∉ key
  indexes : ∀ n, .index n ∈ scan.segments → n < 2 ^ 64
  current : ∀ c ∈ scan.current, c ≠ '.' ∧ c ≠ '[' ∧ c ≠ ']'
  bracket : ∀ read, scan.bracket = some read → ']' ∉ read

/-- One more segment, for which a bracket was closed if it needs one. -/
theorem Marks.add {scan : Scan} {closed : Nat} (h : Marks scan closed) {segment : Segment}
    (hkey : ∀ key, segment = .key key → ']' ∉ key) (hindex : ∀ n, segment = .index n → n < 2 ^ 64)
    {bracket : Option Text} (hbracket : ∀ read, bracket = some read → ']' ∉ read) :
    Marks ⟨bracket, [], scan.segments ++ [segment]⟩
      (closed + if fromBracket segment then 1 else 0) := by
  refine ⟨?_, fun key hmem => ?_, fun n hmem => ?_, fun c hc => absurd hc List.not_mem_nil,
    hbracket⟩
  · show (scan.segments ++ [segment]).countP fromBracket ≤ _
    rw [List.countP_append, List.countP_singleton]
    exact Nat.add_le_add_right h.segments _
  · exact (List.mem_append.mp hmem).elim (h.keys key) fun hlast =>
      hkey key (List.mem_singleton.mp hlast).symm
  · exact (List.mem_append.mp hmem).elim (h.indexes n) fun hlast =>
      hindex n (List.mem_singleton.mp hlast).symm

/-- A key that is read outside of a bracket needs none. -/
theorem Marks.flush {scan : Scan} {closed : Nat} (h : Marks scan closed) {bracket : Option Text}
    (hbracket : ∀ read, bracket = some read → ']' ∉ read) :
    Marks ⟨bracket, [], Jsonpath.flush scan.current scan.segments⟩ closed := by
  unfold Jsonpath.flush
  by_cases hempty : scan.current = []
  · rw [if_pos hempty]
    exact ⟨h.segments, h.keys, h.indexes, fun c hc => absurd hc List.not_mem_nil, hbracket⟩
  · rw [if_neg hempty]
    have hplain : plainKey scan.current = true := plainKey_iff.mpr ⟨hempty, h.current⟩
    have hneeds : fromBracket (.key scan.current) = false := by
      show (!plainKey scan.current) = false
      rw [hplain]
      rfl
    have hadd := @Marks.add scan closed h (.key scan.current)
      (fun key heq hmem => (h.current _ (Segment.key.inj heq ▸ hmem)).2.2 rfl)
      (fun n heq => Segment.noConfusion heq) bracket hbracket
    rw [hneeds] at hadd
    exact hadd

/-- The segment of a bracket. -/
theorem bracketSegment_marks {index : Text} {segment : Segment} (h : ']' ∉ index)
    (hsegment : bracketSegment index = some segment) :
    (∀ key, segment = .key key → ']' ∉ key) ∧ ∀ n, segment = .index n → n < 2 ^ 64 := by
  unfold bracketSegment at hsegment
  dsimp only at hsegment
  have hwithin : trim index <:+: index := isInfix_trim index
  have hname : ']' ∉ ((trim index).dropWhile isQuote).rdropWhile isQuote := fun hmem =>
    h (hwithin.subset ((List.dropWhile_suffix _).subset ((List.rdropWhile_prefix _ _).subset hmem)))
  generalize ((trim index).dropWhile isQuote).rdropWhile isQuote = name at hsegment hname
  -- A name that is a number gives an index that fits, and any other name gives the key itself.
  cases hparse : parseUsize name with
  | some n =>
    rw [hparse] at hsegment
    obtain rfl := Option.some.inj hsegment
    refine ⟨fun key heq => Segment.noConfusion heq, fun m heq => ?_⟩
    obtain rfl := Segment.index.inj heq
    exact lt_of_parseUsize hparse
  | none =>
    rw [hparse] at hsegment
    dsimp only at hsegment
    by_cases hempty : name = []
    · rw [if_pos hempty] at hsegment
      exact absurd hsegment.symm (Option.some_ne_none segment)
    · rw [if_neg hempty] at hsegment
      obtain rfl := Option.some.inj hsegment
      refine ⟨fun key heq => ?_, fun n heq => Segment.noConfusion heq⟩
      obtain rfl := Segment.key.inj heq
      exact hname

/-- One character. -/
theorem Marks.step {scan next : Scan} {closed : Nat} (h : Marks scan closed) {c : Char}
    (hstep : scan.step c = some next) : Marks next (closed + if c = ']' then 1 else 0) := by
  unfold Scan.step at hstep
  -- The arms of the machine; only a `]` inside a bracket closes one.
  cases hbracket : scan.bracket with
  | some read =>
    rw [hbracket] at hstep
    dsimp only at hstep
    by_cases hclose : c = ']'
    · rw [if_pos hclose] at hstep ⊢
      obtain ⟨segment, hsegment, rfl⟩ := Option.map_eq_some_iff.mp hstep
      obtain ⟨hkey, hindex⟩ := bracketSegment_marks (h.bracket read hbracket) hsegment
      have hadd := @Marks.add scan closed h segment hkey hindex none
        fun other heq => absurd heq.symm (Option.some_ne_none other)
      refine ⟨hadd.segments.trans (Nat.add_le_add_left ?_ closed), hadd.keys, hadd.indexes,
        h.current, hadd.bracket⟩
      split_ifs <;> omega
    · rw [if_neg hclose] at hstep ⊢
      obtain rfl := Option.some.inj hstep
      refine ⟨h.segments, h.keys, h.indexes, h.current, fun other heq => ?_⟩
      obtain rfl := Option.some.inj heq
      rw [List.mem_append, List.mem_singleton]
      exact fun hmem => hmem.elim (h.bracket read hbracket) fun heq => hclose heq.symm
  | none =>
    rw [hbracket] at hstep
    dsimp only at hstep
    have hnone : ∀ read, (none : Option Text) = some read → ']' ∉ read :=
      fun read heq => absurd heq.symm (Option.some_ne_none read)
    -- A dot and a bracket end the key that is being read.
    by_cases hdot : c = '.'
    · rw [if_pos hdot] at hstep
      obtain rfl := Option.some.inj hstep
      rw [if_neg (hdot ▸ by decide)]
      exact h.flush hnone
    rw [if_neg hdot] at hstep
    by_cases hopen : c = '['
    · rw [if_pos hopen] at hstep
      obtain rfl := Option.some.inj hstep
      rw [if_neg (hopen ▸ by decide)]
      exact h.flush fun read heq => Option.some.inj heq ▸ List.not_mem_nil
    rw [if_neg hopen] at hstep
    by_cases hclose : c = ']'
    · rw [if_pos hclose] at hstep
      exact absurd hstep.symm (Option.some_ne_none next)
    · rw [if_neg hclose] at hstep ⊢
      obtain rfl := Option.some.inj hstep
      refine ⟨h.segments, h.keys, h.indexes, fun d hd => ?_, fun read heq => ?_⟩
      · rcases List.mem_append.mp hd with hd | hd
        · exact h.current d hd
        · obtain rfl := List.mem_singleton.mp hd
          exact ⟨hdot, hopen, hclose⟩
      · exact h.bracket read (hbracket.trans heq)

/-- **No more segments need a bracket than brackets were closed.** -/
theorem Marks.run {text : Text} {scan next : Scan} {closed : Nat} (h : Marks scan closed)
    (hrun : scan.run text = some next) : Marks next (closed + text.count ']') := by
  induction text generalizing scan closed with
  | nil =>
    obtain rfl := Option.some.inj hrun
    exact h
  | cons c rest ih =>
    rw [run_cons] at hrun
    obtain ⟨middle, hstep, hrest⟩ := Option.bind_eq_some_iff.mp hrun
    have hcount : closed + (c :: rest).count ']'
        = closed + (if c = ']' then 1 else 0) + rest.count ']' := by
      rw [List.count_cons]
      simp only [beq_iff_eq]
      omega
    rw [hcount]
    exact ih (h.step hstep) hrest

/-- A diff writes one `]` for each index. -/
theorem count_pathText {route : List Segment} (h : ∀ key, .key key ∈ route → ']' ∉ key) :
    (pathText route).count ']' = route.countP isIndex := by
  induction route using List.reverseRecOn with
  | nil => rfl
  | append_singleton route segment ih =>
    rw [pathText_concat, extend_eq, List.count_append, List.countP_append, List.countP_singleton,
      ih fun key hkey => h key (List.mem_append_left _ hkey)]
    congr 1
    cases segment with
    | key key =>
      have hkey : key.count ']' = 0 := List.count_eq_zero.mpr
        (h key (List.mem_append_right _ List.mem_cons_self))
      rw [stepText]
      by_cases hempty : pathText route = []
      · rw [if_pos hempty]
        exact hkey
      · rw [if_neg hempty, List.count_cons_of_ne (by decide)]
        exact hkey
    | index index =>
      have hdigits : (natText index).count ']' = 0 := List.count_eq_zero.mpr
        fun hmem => absurd (isDigit_of_mem_natText hmem) (by decide)
      rw [stepText, List.count_append, List.count_cons_of_ne (by decide), hdigits]
      rfl

/-! ### What the keys weigh -/

/-- The characters of a key. -/
def keyLength : Segment → Nat
  | .key key => key.length
  | .index _ => 0

/-- The characters of the keys. -/
def weight (scan : Scan) : Nat := scan.current.length + (scan.segments.map keyLength).sum

/-- Flushing the current key moves its characters, and loses none. -/
theorem weight_flush (bracket : Option Text) (current : Text) (segments : List Segment) :
    weight ⟨bracket, [], flush current segments⟩
      = current.length + (segments.map keyLength).sum := by
  unfold weight flush
  by_cases hempty : current = []
  · rw [if_pos hempty, hempty]
  · rw [if_neg hempty, List.map_append, List.sum_append]
    show 0 + (_ + (current.length + 0)) = _
    omega

/-- Two machines in the same bracket do the same with a character. -/
theorem step_weight {a b a' : Scan} {c : Char} (hbracket : a.bracket = b.bracket)
    (hstep : a.step c = some a') :
    ∃ b', b.step c = some b' ∧ a'.bracket = b'.bracket
      ∧ weight a' + weight b = weight b' + weight a := by
  obtain ⟨bracket, current, segments⟩ := a
  obtain ⟨bracket', current', segments'⟩ := b
  obtain rfl : bracket = bracket' := hbracket
  unfold Scan.step at hstep ⊢
  -- The same bracket, so the same arm; the weights differ by what the states hold already.
  cases bracket with
  | some read =>
    dsimp only at hstep ⊢
    by_cases hclose : c = ']'
    · rw [if_pos hclose] at hstep ⊢
      obtain ⟨segment, hsegment, rfl⟩ := Option.map_eq_some_iff.mp hstep
      refine ⟨⟨none, current', segments' ++ [segment]⟩, by rw [hsegment]; rfl, rfl, ?_⟩
      unfold weight
      simp only [List.map_append, List.sum_append]
      omega
    · rw [if_neg hclose] at hstep ⊢
      obtain rfl := Option.some.inj hstep
      exact ⟨_, rfl, rfl, Nat.add_comm _ _⟩
  | none =>
    dsimp only at hstep ⊢
    have hflush : ∀ bracket : Option Text,
        weight ⟨bracket, [], flush current segments⟩ + weight ⟨none, current', segments'⟩
          = weight ⟨bracket, [], flush current' segments'⟩ + weight ⟨none, current, segments⟩ := by
      intro bracket
      rw [weight_flush, weight_flush]
      exact Nat.add_comm _ _
    by_cases hdot : c = '.'
    · rw [if_pos hdot] at hstep ⊢
      obtain rfl := Option.some.inj hstep
      exact ⟨_, rfl, rfl, hflush none⟩
    rw [if_neg hdot] at hstep ⊢
    by_cases hopen : c = '['
    · rw [if_pos hopen] at hstep ⊢
      obtain rfl := Option.some.inj hstep
      exact ⟨_, rfl, rfl, hflush (some [])⟩
    rw [if_neg hopen] at hstep ⊢
    by_cases hclose : c = ']'
    · rw [if_pos hclose] at hstep
      exact absurd hstep.symm (Option.some_ne_none a')
    · rw [if_neg hclose] at hstep ⊢
      obtain rfl := Option.some.inj hstep
      refine ⟨_, rfl, rfl, ?_⟩
      unfold weight
      simp only [List.length_append]
      omega

/-- **Two machines in the same bracket read the same keys**: the difference of what they hold
stays. -/
theorem run_weight {text : Text} {a b a' : Scan} (hbracket : a.bracket = b.bracket)
    (hrun : a.run text = some a') :
    ∃ b', b.run text = some b' ∧ a'.bracket = b'.bracket
      ∧ weight a' + weight b = weight b' + weight a := by
  induction text generalizing a b with
  | nil =>
    obtain rfl := Option.some.inj hrun
    exact ⟨b, rfl, hbracket, Nat.add_comm _ _⟩
  | cons c rest ih =>
    rw [run_cons] at hrun
    obtain ⟨middle, hstep, hrest⟩ := Option.bind_eq_some_iff.mp hrun
    obtain ⟨middle', hstep', hbracket', hweight⟩ := step_weight hbracket hstep
    obtain ⟨last, hlast, hsame, hweight'⟩ := ih hbracket' hrest
    refine ⟨last, ?_, hsame, by omega⟩
    rw [run_cons, hstep']
    exact hlast

/-! ### A place that is read back is plain -/

/-- A path without its `$.` or `$`. -/
theorem core_prefix (path : Text) :
    ∃ dollar, trim path = dollar ++ core path
      ∧ (dollar = [] ∧ ¬ ['$'] <+: trim path ∨ dollar = ['$'] ∨ dollar = ['$', '.']) := by
  have hlit : "$.".toList = ['$', '.'] ∧ "$".toList = ['$'] := ⟨rfl, rfl⟩
  unfold core Resolver.stripPrefix
  rw [hlit.1, hlit.2]
  by_cases hlong : ['$', '.'] <+: trim path
  · obtain ⟨rest, hrest⟩ := hlong
    rw [← hrest, if_pos (List.prefix_append _ _)]
    exact ⟨['$', '.'], rfl, .inr (.inr rfl)⟩
  rw [if_neg hlong]
  by_cases hshort : ['$'] <+: trim path
  · obtain ⟨rest, hrest⟩ := hshort
    rw [← hrest, if_pos (List.prefix_append _ _)]
    exact ⟨['$'], rfl, .inr (.inl rfl)⟩
  · rw [if_neg hshort]
    exact ⟨[], rfl, .inl ⟨rfl, hshort⟩⟩

/-- Nothing is trimmed off a path that is its own core. -/
theorem trimmed_of_core_eq {path : Text} (h : core path = path) : Trimmed path := by
  obtain ⟨dollar, htrim, hdollar⟩ := core_prefix path
  rw [h] at htrim
  have hwithin : trim path <:+: path := isInfix_trim path
  have hlength : dollar.length + path.length ≤ path.length := by
    rw [← List.length_append, ← htrim]
    exact hwithin.length_le
  obtain rfl : dollar = [] := List.length_eq_zero_iff.mp (by omega)
  obtain ⟨-, hsign⟩ : ([] : Text) = [] ∧ ¬ ['$'] <+: trim path := by
    rcases hdollar with hnone | hnone | hnone
    · exact hnone
    · exact absurd hnone (List.cons_ne_nil _ _).symm
    · exact absurd hnone (List.cons_ne_nil _ _).symm
  rw [htrim] at hsign
  obtain ⟨hhead, hlast⟩ := trim_eq_self_iff.mp htrim
  refine ⟨fun c hc => ⟨hhead c hc, ?_⟩, hlast⟩
  rintro rfl
  obtain ⟨rest, rfl⟩ := List.head?_eq_some_iff.mp hc
  exact hsign (List.prefix_append ['$'] rest)

/-- Characters that are no punctuation, read from the start, are a key. -/
theorem run_start {text : Text} (h : ∀ c ∈ text, plainChar c = true) :
    ({} : Scan).run text = some ⟨none, text, []⟩ :=
  run_plain (fun c hc => (plainChar_iff c).mp (h c hc)) [] []

/-- White space is plain. -/
theorem plainChar_of_isWhitespace {c : Char} (h : isWhitespace c = true) : plainChar c = true := by
  rw [plainChar_iff]
  refine ⟨?_, ?_, ?_⟩
  all_goals
    rintro rfl
    exact absurd h (by decide)

/-- What is in front of the core of a path is read as keys, and weighs something. -/
theorem core_split (path : Text) :
    ∃ front scan, path = front ++ (core path ++ trailing path) ∧ ({} : Scan).run front = some scan
      ∧ scan.bracket = none ∧ (weight scan = 0 → front = []) := by
  obtain ⟨dollar, htrim, hdollar⟩ := core_prefix path
  have hwhole : path = path.takeWhile isWhitespace ++ dollar ++ (core path ++ trailing path) := by
    rw [List.append_assoc, ← List.append_assoc dollar, ← htrim, trim_append_trailing]
    exact List.takeWhile_append_dropWhile.symm
  have hspace : ∀ c ∈ path.takeWhile isWhitespace, plainChar c = true :=
    fun c hc => plainChar_of_isWhitespace (List.mem_takeWhile_imp hc)
  -- White space and the dollar sign are plain characters, which the machine reads as a key.
  have hsign : ∀ c ∈ path.takeWhile isWhitespace ++ ['$'], plainChar c = true := by
    intro c hc
    rcases List.mem_append.mp hc with hc | hc
    · exact hspace c hc
    · obtain rfl := List.mem_singleton.mp hc
      rfl
  generalize path.takeWhile isWhitespace = space at hwhole hspace hsign
  refine ⟨space ++ dollar, ?_⟩
  -- Nothing is taken off the path, a dollar sign is, or a dollar sign with its dot.
  rcases hdollar with ⟨rfl, -⟩ | rfl | rfl
  · rw [List.append_nil] at hwhole ⊢
    exact ⟨_, hwhole, run_start hspace, rfl, fun hzero => List.length_eq_zero_iff.mp hzero⟩
  · refine ⟨_, hwhole, run_start hsign, rfl, fun hzero => ?_⟩
    exact List.length_eq_zero_iff.mp hzero
  · -- The dot ends the key that the dollar sign stands in.
    refine ⟨⟨none, [], [.key (space ++ ['$'])]⟩, hwhole, ?_, rfl, fun hzero => ?_⟩
    · have hdot : space ++ ['$', '.'] = (space ++ ['$']) ++ ['.'] := by simp
      rw [hdot, run_append, run_start hsign, Option.bind_some]
      show some (⟨none, [], flush (space ++ ['$']) []⟩ : Scan) = _
      unfold flush
      rw [if_neg (List.append_ne_nil_of_right_ne_nil _ (List.cons_ne_nil _ _))]
      rfl
    · have hpos : weight ⟨none, [], [.key (space ++ ['$'])]⟩ = space.length + 1 := by
        show 0 + ((space ++ ['$']).length + 0) = _
        rw [List.length_append]
        exact Nat.zero_add _
      omega

/-- **A place that is read back can be written.** No key of it was read inside of a bracket. -/
theorem written_of_parse {route : List Segment} (h : parse (pathText route) = .ok route) :
    Written route := by
  obtain ⟨scan, hrun, hfinish⟩ := parse_eq_ok_iff.mp h
  obtain ⟨-, -, hflush⟩ := finish_eq_some_iff.mp hfinish
  have hnone : ∀ read, (none : Option Text) = some read → ']' ∉ read :=
    fun read heq => absurd heq.symm (Option.some_ne_none read)
  have hempty : Marks {} 0 := ⟨le_rfl, fun key hmem => absurd hmem List.not_mem_nil,
    fun n hmem => absurd hmem List.not_mem_nil, fun c hc => absurd hc List.not_mem_nil, hnone⟩
  have hmarks := (hempty.run hrun).flush hnone
  rw [hflush, Nat.zero_add] at hmarks
  have hkeys : ∀ key, .key key ∈ route → ']' ∉ key := hmarks.keys
  have hsublist : (core (pathText route)).Sublist (pathText route) := by
    obtain ⟨front, -, hpath, -⟩ := core_split (pathText route)
    have hpart : (core (pathText route)).Sublist
        (front ++ (core (pathText route) ++ trailing (pathText route))) :=
      (List.sublist_append_left _ _).trans (List.sublist_append_right _ _)
    rwa [← hpath] at hpart
  have hcount : route.countP fromBracket ≤ route.countP isIndex :=
    calc route.countP fromBracket ≤ (core (pathText route)).count ']' := hmarks.segments
      _ ≤ (pathText route).count ']' := hsublist.count_le _
      _ = route.countP isIndex := count_pathText hkeys
  -- Every index needs a bracket, so these are all that do.
  have hsame : route.filter isIndex = route.filter fromBracket := by
    refine List.Sublist.eq_of_length_le (List.monotone_filter_right route ?_) ?_
    · intro segment hsegment
      cases segment with
      | key key => exact absurd hsegment Bool.false_ne_true
      | index n => rfl
    · rw [← List.countP_eq_length_filter, ← List.countP_eq_length_filter]
      exact hcount
  refine ⟨fun key hkey => ?_, hmarks.indexes⟩
  by_contra hplain
  have hfrom : Segment.key key ∈ route.filter fromBracket := by
    rw [List.mem_filter]
    refine ⟨hkey, ?_⟩
    show (!plainKey key) = true
    rw [Bool.not_eq_true', Bool.eq_false_iff]
    exact hplain
  rw [← hsame, List.mem_filter] at hfrom
  exact Bool.false_ne_true hfrom.2

/-- The machine's keys are those of its segments at the end. -/
theorem weight_of_finish {scan : Scan} {segments : List Segment}
    (h : scan.finish = some segments) : weight scan = (segments.map keyLength).sum := by
  obtain ⟨-, -, hflush⟩ := finish_eq_some_iff.mp h
  rw [← hflush]
  have hweight := weight_flush none scan.current scan.segments
  unfold weight at hweight ⊢
  rw [← hweight]
  exact Nat.zero_add _

/-- **The paths that are read back are those of the plain places.** -/
theorem parse_pathText_iff (route : List Segment) :
    parse (pathText route) = .ok route ↔ Plain route := by
  refine ⟨fun h => ?_, parse_pathText⟩
  have hwritten := written_of_parse h
  obtain ⟨scan, hrun, hfinish⟩ := parse_eq_ok_iff.mp h
  obtain ⟨hout, hbelow, -⟩ := finish_eq_some_iff.mp hfinish
  -- The core alone and the whole path give the same keys.
  obtain ⟨current, segments, hwhole, hflush⟩ := run_pathText hwritten
  have hfinish' : (⟨none, current, segments⟩ : Scan).finish = some route :=
    finish_eq_some_iff.mpr ⟨rfl, hbelow, hflush⟩
  obtain ⟨front, before, hpath, hfront, hnone, hzero⟩ := core_split (pathText route)
  obtain ⟨middle, hmiddle, hbracket, hweight⟩ := @run_weight _ {} before scan hnone.symm hrun
  have hend : middle.run (trailing (pathText route))
      = some ⟨none, middle.current ++ trailing (pathText route), middle.segments⟩ := by
    obtain ⟨bracket, current', segments'⟩ := middle
    obtain rfl : none = bracket := hout.symm.trans hbracket
    exact run_plain (fun c hc => (plainChar_iff c).mp
      (plainChar_of_isWhitespace (isWhitespace_of_mem_trailing hc))) _ _
  rw [hpath, run_append, hfront, Option.bind_some, run_append, hmiddle, Option.bind_some, hend,
    Option.some.injEq] at hwhole
  have htotal : weight middle + (trailing (pathText route)).length
      = (route.map keyLength).sum := by
    rw [← weight_of_finish hfinish', ← hwhole]
    show middle.current.length + (middle.segments.map keyLength).sum + _
      = (middle.current ++ _).length + (middle.segments.map keyLength).sum
    rw [List.length_append, Nat.add_right_comm]
  have hcore := weight_of_finish hfinish
  have hempty : weight ({} : Scan) = 0 := rfl
  have hfrontNil : front = [] := hzero (by omega)
  have htrailing : trailing (pathText route) = [] := List.length_eq_zero_iff.mp (by omega)
  rw [hfrontNil, htrailing, List.append_nil, List.nil_append] at hpath
  exact (plain_iff hbelow hwritten).mpr (trimmed_of_core_eq hpath.symm)

end Gabriel.Core.Diff
