import Gabriel.Cli.Discover
import Gabriel.Proofs.Bundle

/-!
# `Gabriel.Proofs.Discover`: a new collection, and a half-made one

`init` makes three directories and then writes four files, the manifest first. Any of these calls
may fail. What a run of it changes is `GrowsAt`, on success and on failure: directories and files of
the new collection appear, and everything else stays. `Clear` is that nothing is in the way.

`discover` walks up from a directory to the nearest one that shows a collection (`rootAt`). A new
collection is below the directory it was made in and shows itself as well, so that it is found from
beside it and from inside it.

A run that stops leaves what it has made. `Collection.init` only looks for the manifest, so a run
that stopped before it can be repeated, and one that stopped after it cannot. The theorems:

* `keeps_init`: a run only changes what belongs to the new collection.
* `init_eq_ok`: a run that returns a collection has written all of its files, and has read it.
* `initRuns_clear`: as long as there is no manifest, no run has returned a collection, and nothing
  is in the way of the next one; by induction over the runs.
* `init_again_iff`: an init in which nothing fails succeeds exactly when no manifest is there, and
  once one is, nothing changes any more.
* `init_found`: a new collection is what every directory below finds that finds no nearer one, and
  the other directories find what they found before.
-/

set_option autoImplicit false

namespace Gabriel.Cli

open Gabriel.Core Text FileWrite Fallible

/-! ### Places -/

/-- The directories of a collection. -/
def initDirs (root : TreePath) : List TreePath :=
  [root, root ++ [requestsDir], root ++ [environmentsDir], root ++ [runtimeDir]]

/-- The files of a new collection. -/
def initFiles (root : TreePath) : List TreePath :=
  [root ++ [manifestFile], root ++ [environmentsDir, "dev.toml".toList],
    root ++ [requestsDir, "example.toml".toList], root ++ [runtimeDir, ".gitignore".toList]]

/-- Nothing is in the way of a new collection. -/
structure Clear (root : TreePath) (tree : FileTree) : Prop where
  above : ∀ path, path <+: root → tree.file path = none
  dirs : ∀ path ∈ initDirs root, tree.file path = none
  files : ∀ path ∈ initFiles root, tree.dir path = false

/-- What a run of `init` may change. -/
structure GrowsAt (root : TreePath) (tree after : FileTree) : Prop where
  file : ∀ path ∉ initFiles root, after.file path = tree.file path
  dir : ∀ path, tree.dir path = true → after.dir path = true
  made : ∀ path, after.dir path = true →
    tree.dir path = true ∨ path <+: root ∨ path ∈ initDirs root

section Places

variable {root : TreePath}

/-- The directories of a new collection. -/
theorem mem_initDirs {path : TreePath} : path ∈ initDirs root ↔ path = root ∨
    path = root ++ [requestsDir] ∨ path = root ++ [environmentsDir] ∨
    path = root ++ [runtimeDir] := by
  unfold initDirs
  rw [List.mem_cons, List.mem_cons, List.mem_cons, List.mem_singleton]

/-- The files of a new collection. -/
theorem mem_initFiles {path : TreePath} : path ∈ initFiles root ↔ path = root ++ [manifestFile] ∨
    path = root ++ [environmentsDir, "dev.toml".toList] ∨
    path = root ++ [requestsDir, "example.toml".toList] ∨
    path = root ++ [runtimeDir, ".gitignore".toList] := by
  unfold initFiles
  rw [List.mem_cons, List.mem_cons, List.mem_cons, List.mem_singleton]

/-- Nothing grows in a tree that stays. -/
theorem GrowsAt.refl (tree : FileTree) : GrowsAt root tree tree :=
  ⟨fun _ _ => rfl, fun _ h => h, fun _ h => Or.inl h⟩

/-- What grows twice grows. -/
theorem GrowsAt.trans (a b c : FileTree) (hab : GrowsAt root a b) (hbc : GrowsAt root b c) :
    GrowsAt root a c := by
  refine ⟨fun path h => (hbc.file path h).trans (hab.file path h),
    fun path h => hbc.dir path (hab.dir path h), fun path h => ?_⟩
  rcases hbc.made path h with h | h
  · exact hab.made path h
  · exact Or.inr h

/-- A file of the collection is no directory of it, and none above it. -/
theorem initFiles_apart {path : TreePath} (h : path ∈ initFiles root) :
    ¬ path <+: root ∧ path ∉ initDirs root := by
  have hlonger : root.length < path.length := by
    rw [mem_initFiles] at h
    rcases h with rfl | rfl | rfl | rfl
    all_goals simp
  refine ⟨fun hpre => ?_, fun hdir => ?_⟩
  · have hle := hpre.length_le
    omega
  · rw [mem_initFiles] at h
    rw [mem_initDirs] at hdir
    rcases hdir with rfl | hdir
    · omega
    · rcases h with rfl | rfl | rfl | rfl
      all_goals
        simp only [List.append_cancel_left_eq] at hdir
        revert hdir
        decide

/-- Nothing that `init` makes is in its way. -/
theorem Clear.grows {tree after : FileTree} (h : Clear root tree)
    (hgrows : GrowsAt root tree after) : Clear root after := by
  refine ⟨fun path hpath => ?_, fun path hpath => ?_, fun path hpath => ?_⟩
  · rw [hgrows.file path fun hfile => (initFiles_apart hfile).1 hpath]
    exact h.above path hpath
  · rw [hgrows.file path fun hfile => (initFiles_apart hfile).2 hpath]
    exact h.dirs path hpath
  · rw [Bool.eq_false_iff]
    intro hdir
    rcases hgrows.made path hdir with hold | hnew | hnew
    · rw [h.files path hpath] at hold
      exact Bool.false_ne_true hold
    · exact (initFiles_apart hpath).1 hnew
    · exact (initFiles_apart hpath).2 hnew

/-- What is above a directory of the collection. -/
theorem prefix_initDirs {dir path : TreePath} (hdir : dir ∈ initDirs root) (h : path <+: dir) :
    path <+: root ∨ path ∈ initDirs root := by
  rw [mem_initDirs] at hdir
  have hone : ∀ name : Text, dir = root ++ [name] → path <+: root ∨ path = dir := by
    rintro name rfl
    rcases List.prefix_concat_iff.mp h with heq | hpre
    · exact Or.inr heq
    · exact Or.inl hpre
  rcases hdir with rfl | hdir
  · exact Or.inl h
  · have hcases : ∃ name, dir = root ++ [name] := by
      rcases hdir with h | h | h
      exacts [⟨_, h⟩, ⟨_, h⟩, ⟨_, h⟩]
    obtain ⟨name, hname⟩ := hcases
    rcases hone name hname with h | rfl
    · exact Or.inl h
    · refine Or.inr ?_
      rw [mem_initDirs]
      exact Or.inr hdir

/-- What holds a file of the collection is a directory of it. -/
theorem dropLast_mem_initDirs {path : TreePath} (h : path ∈ initFiles root) :
    path.dropLast ∈ initDirs root := by
  have htwo : ∀ a b : Text, (root ++ [a, b]).dropLast = root ++ [a] := by
    intro a b
    rw [show root ++ [a, b] = root ++ [a] ++ [b] by simp, List.dropLast_concat]
  rw [mem_initFiles] at h
  rw [mem_initDirs]
  rcases h with rfl | rfl | rfl | rfl
  · exact Or.inl (List.dropLast_concat)
  · exact Or.inr (Or.inr (Or.inl (htwo _ _)))
  · exact Or.inr (Or.inl (htwo _ _))
  · exact Or.inr (Or.inr (Or.inr (htwo _ _)))

end Places

/-! ### One call -/

section Calls

variable {root : TreePath}

/-- The two outcomes of a call on the tree. -/
theorem exec_createDir (path : TreePath) (fault : Option Nat) (tree : FileTree) :
    exec (createDir path fault) tree
      = (if (tree.createDirAll path fault).1 then .ok ⟨⟩ else .error (.io path),
        (tree.createDirAll path fault).2) := rfl

/-- What writing bytes does: its result, and the tree behind it. -/
theorem exec_writeBytes (path : TreePath) (bytes : List UInt8) (fault : Option Fault)
    (tree : FileTree) :
    exec (writeBytes path bytes fault) tree
      = (if (tree.writeFile path bytes fault).1 then .ok ⟨⟩ else .error (.io path),
        (tree.writeFile path bytes fault).2) := rfl

/-- Making a directory of the collection grows the tree there. -/
theorem keeps_createDir {path : TreePath} (hpath : path ∈ initDirs root) (fault : Option Nat) :
    Keeps (GrowsAt root) (createDir path fault) := by
  intro tree
  rw [exec_createDir]
  refine ⟨fun q _ => congrFun (FileTree.createDirAll_file fault) q, fun q hq => ?_, fun q hq => ?_⟩
  all_goals unfold FileTree.createDirAll at *
  · split
    · show (tree.dir q || _) = true
      rw [hq]
      rfl
    · exact hq
  · split at hq
    · have hor : (tree.dir q || (path.inits.contains q && decide (q.length ≤ _))) = true := hq
      rw [Bool.or_eq_true, Bool.and_eq_true, List.contains_iff_mem, List.mem_inits] at hor
      rcases hor with hold | ⟨hpre, -⟩
      · exact Or.inl hold
      · exact Or.inr (prefix_initDirs hpath hpre)
    · exact Or.inl hq

/-- A call leaves the files but one as they are. -/
def Elsewhere (path : TreePath) (tree after : FileTree) : Prop :=
  ∀ q, q ≠ path → after.file q = tree.file q

/-- A file that is left alone twice is left alone. -/
theorem elsewhere_trans {path : TreePath} (a b c : FileTree) (hab : Elsewhere path a b)
    (hbc : Elsewhere path b c) : Elsewhere path a c :=
  fun q hq => (hbc q hq).trans (hab q hq)

/-- Writing a text leaves every other file alone, whatever fails. -/
theorem elsewhere_writeText (path : TreePath) (contents : Text) (faults : FileFaults) :
    Keeps (Elsewhere path) (writeText path contents faults) := by
  refine keeps_bind elsewhere_trans (fun tree q _ => ?_) fun _ tree q hq => ?_
  · rw [exec_createDir]
    exact congrFun (FileTree.createDirAll_file faults.parent) q
  · rw [exec_writeBytes]
    exact (FileTree.writeFile_frame (Utf8.encode contents) faults.write).2 hq

/-- So does writing a document. -/
theorem elsewhere_writeToml (path : TreePath) (text : Except Text Text) (faults : FileFaults) :
    Keeps (Elsewhere path) (writeToml path text faults) := by
  unfold writeToml
  cases text with
  | error message => exact keeps_throw (fun _ _ _ => rfl) _
  | ok text => exact elsewhere_writeText path text faults

/-- Writing a file of the collection grows the tree there. -/
theorem keeps_writeText {path : TreePath} (hpath : path ∈ initFiles root) (contents : Text)
    (faults : FileFaults) : Keeps (GrowsAt root) (writeText path contents faults) := by
  refine keeps_bind GrowsAt.trans (keeps_createDir (dropLast_mem_initDirs hpath) faults.parent)
    fun _ tree => ?_
  rw [exec_writeBytes]
  obtain ⟨hdir, -⟩ :=
    @FileTree.writeFile_frame tree path path (Utf8.encode contents) faults.write
  refine ⟨fun q hq => ?_, fun q hq => ?_, fun q hq => ?_⟩
  · refine (FileTree.writeFile_frame (Utf8.encode contents) faults.write).2 ?_
    rintro rfl
    exact hq hpath
  · rw [hdir]
    exact hq
  · rw [hdir] at hq
    exact Or.inl hq

/-- So does writing one of its documents. -/
theorem keeps_writeToml {path : TreePath} (hpath : path ∈ initFiles root) (text : Except Text Text)
    (faults : FileFaults) : Keeps (GrowsAt root) (writeToml path text faults) := by
  unfold writeToml
  cases text with
  | error message => exact keeps_throw GrowsAt.refl _
  | ok text => exact keeps_writeText hpath text faults

/-- A write that succeeds has written its file. -/
theorem writeText_eq_ok {path : TreePath} {contents : Text} {faults : FileFaults}
    {tree after : FileTree} (h : exec (writeText path contents faults) tree = (.ok ⟨⟩, after)) :
    after.file path = some (Utf8.encode contents) := by
  obtain ⟨_, made, -, hwrite⟩ := exec_bind_eq_ok.mp h
  rw [exec_writeBytes, Prod.mk.injEq] at hwrite
  obtain ⟨hdone, rfl⟩ := hwrite
  unfold FileTree.writeFile at hdone ⊢
  split at hdone
  · rename_i hcan
    rw [dif_pos hcan]
    cases hfault : faults.write with
    | none =>
      show Function.update made.file path _ path = _
      rw [Function.update_self]
      rfl
    | some fault =>
      rw [hfault] at hdone
      exact nomatch hdone
  · exact nomatch hdone

/-- A TOML file that was written holds the text of the library. -/
theorem writeToml_eq_ok {path : TreePath} {text : Except Text Text} {faults : FileFaults}
    {tree after : FileTree} (h : exec (writeToml path text faults) tree = (.ok ⟨⟩, after)) :
    ∃ contents, text = .ok contents ∧ after.file path = some (Utf8.encode contents) := by
  unfold writeToml at h
  cases text with
  | error message => exact nomatch congrArg Prod.fst h
  | ok contents => exact ⟨contents, rfl, writeText_eq_ok h⟩

/-- Where nothing is in the way, the call succeeds, and nothing is in the way after it. -/
def Succeeds {α : Type} (root : TreePath) (m : Call TreeError FileTree α) : Prop :=
  ∀ tree, Clear root tree → ∃ a after, exec m tree = (.ok a, after) ∧ Clear root after

/-- Two calls that succeed, one after the other. -/
theorem Succeeds.bind {α β : Type} {m : Call TreeError FileTree α}
    {f : α → Call TreeError FileTree β} (hm : Succeeds root m) (hf : ∀ a, Succeeds root (f a)) :
    Succeeds root (m >>= f) := by
  intro tree htree
  obtain ⟨a, middle, hok, hmiddle⟩ := hm tree htree
  rw [exec_bind_ok hok]
  exact hf a middle hmiddle

/-- The directory is made. -/
theorem createDir_clear {path : TreePath} (hpath : path ∈ initDirs root) {tree : FileTree}
    (hclear : Clear root tree) : ∃ after, exec (createDir path none) tree = (.ok ⟨⟩, after) ∧
      after.dir path = true ∧ Clear root after := by
  have hfree : ∀ above ∈ path.inits, tree.file above = none := by
    intro above habove
    rcases prefix_initDirs hpath ((List.mem_inits _ _).mp habove) with h | h
    · exact hclear.above above h
    · exact hclear.dirs above h
  have hafter := hclear.grows (keeps_createDir hpath none tree)
  rw [exec_createDir] at hafter ⊢
  unfold FileTree.createDirAll at hafter ⊢
  rw [dif_pos hfree] at hafter ⊢
  refine ⟨_, rfl, ?_, hafter⟩
  show (tree.dir path || (path.inits.contains path && decide (path.length ≤ path.length))) = true
  simp

/-- Where nothing is in the way, a directory of the collection is made. -/
theorem succeeds_createDir {path : TreePath} (hpath : path ∈ initDirs root) :
    Succeeds root (createDir path none) := by
  intro tree htree
  obtain ⟨after, hok, -, hafter⟩ := createDir_clear hpath htree
  exact ⟨⟨⟩, after, hok, hafter⟩

/-- Where nothing is in the way, a file of the collection is written. -/
theorem succeeds_writeText {path : TreePath} (hpath : path ∈ initFiles root) (contents : Text) :
    Succeeds root (writeText path contents {}) := by
  intro tree htree
  have hafter := htree.grows (keeps_writeText hpath contents {} tree)
  obtain ⟨made, hmade, hdir, hclear⟩ := createDir_clear (dropLast_mem_initDirs hpath) htree
  unfold writeText at hafter ⊢
  rw [exec_bind_ok hmade, exec_writeBytes] at hafter ⊢
  unfold FileTree.writeFile at hafter ⊢
  rw [dif_pos ⟨hdir, hclear.files path hpath⟩] at hafter ⊢
  exact ⟨_, _, rfl, hafter⟩

/-- So is a document that the library can print. -/
theorem succeeds_writeToml {path : TreePath} (hpath : path ∈ initFiles root)
    {text : Except Text Text} {contents : Text} (htext : text = .ok contents) :
    Succeeds root (writeToml path text {}) := by
  rw [htext]
  exact succeeds_writeText hpath contents

/-! ### One run -/

variable {tools : TomlTools} {dir : TreePath}

/-- Making the directories grows the tree at the collection. -/
theorem keeps_makeInitDirs (faults : InitFaults) :
    Keeps (GrowsAt root) (makeInitDirs root faults) := by
  unfold makeInitDirs
  refine keeps_bind GrowsAt.trans (keeps_createDir ?_ _) fun _ =>
    keeps_bind GrowsAt.trans (keeps_createDir ?_ _) fun _ => keeps_createDir ?_ _
  all_goals simp [initDirs]

/-- So does writing the files. -/
theorem keeps_writeInitFiles (faults : InitFaults) :
    Keeps (GrowsAt root) (writeInitFiles tools root faults) := by
  unfold writeInitFiles
  refine keeps_bind GrowsAt.trans (keeps_writeToml ?_ _ _) fun _ =>
    keeps_bind GrowsAt.trans (keeps_writeToml ?_ _ _) fun _ => keeps_writeText ?_ _ _
  all_goals simp [initFiles]

/-- And so do both together. -/
theorem keeps_makeInit (name : Text) (faults : InitFaults) :
    Keeps (GrowsAt root) (makeInit tools root name faults) :=
  keeps_bind GrowsAt.trans (keeps_makeInitDirs faults) fun _ =>
    keeps_bind GrowsAt.trans (keeps_writeToml List.mem_cons_self _ _) fun _ =>
      keeps_writeInitFiles faults

/-- A run only changes what belongs to the new collection, whether it succeeds or not. -/
theorem keeps_init (name : Text) (faults : InitFaults) :
    Keeps (GrowsAt (dir ++ [collectionDir])) (Collection.init tools dir name faults) := by
  unfold Collection.init
  refine keeps_bind GrowsAt.trans (keeps_get GrowsAt.refl) fun tree => ?_
  split
  · exact keeps_throw GrowsAt.refl _
  · refine keeps_bind GrowsAt.trans (keeps_makeInit name faults) fun _ =>
      keeps_bind GrowsAt.trans (keeps_get GrowsAt.refl) fun after => ?_
    split
    · exact keeps_pure GrowsAt.refl _
    · exact keeps_throw GrowsAt.refl _

/-- Where a manifest is, nothing is done. -/
theorem exec_init_present {tree : FileTree} (name : Text) (faults : InitFaults)
    (h : tree.has (dir ++ [collectionDir] ++ [manifestFile]) = true) :
    exec (Collection.init tools dir name faults) tree
      = (.error (.alreadyExists (dir ++ [collectionDir])), tree) := by
  unfold Collection.init
  rw [exec_bind_ok (exec_get tree), if_pos h, exec_throw]

/-- The files of a collection that was made. -/
structure Whole (tools : TomlTools) (root : TreePath) (name : Text) (tree : FileTree) : Prop where
  manifest : ∃ text, tools.renderManifest (newManifest name) = .ok text ∧
    tree.file (root ++ [manifestFile]) = some (Utf8.encode text)
  environment : ∃ text, tools.renderEnvironment devEnvironment = .ok text ∧
    tree.file (root ++ [environmentsDir, "dev.toml".toList]) = some (Utf8.encode text)
  starter : ∃ text, tools.renderRequest (exampleRequest tools.upper) = .ok text ∧
    tree.file (root ++ [requestsDir, "example.toml".toList]) = some (Utf8.encode text)
  ignore : tree.file (root ++ [runtimeDir, ".gitignore".toList])
    = some (Utf8.encode runtimeIgnore)

/-- The files are four. -/
theorem initFiles_ne : (root ++ [manifestFile] ≠ root ++ [environmentsDir, "dev.toml".toList] ∧
    root ++ [manifestFile] ≠ root ++ [requestsDir, "example.toml".toList] ∧
    root ++ [manifestFile] ≠ root ++ [runtimeDir, ".gitignore".toList]) ∧
    (root ++ [environmentsDir, "dev.toml".toList] ≠ root ++ [requestsDir, "example.toml".toList] ∧
    root ++ [environmentsDir, "dev.toml".toList] ≠ root ++ [runtimeDir, ".gitignore".toList]) ∧
    root ++ [requestsDir, "example.toml".toList] ≠ root ++ [runtimeDir, ".gitignore".toList] := by
  simp only [ne_eq, List.append_cancel_left_eq]
  decide

/-- Whatever was made is whole. -/
theorem whole_of_makeInit {tree after : FileTree} {name : Text} {faults : InitFaults}
    (h : exec (makeInit tools root name faults) tree = (.ok ⟨⟩, after)) :
    Whole tools root name after := by
  obtain ⟨_, dirs, -, h⟩ := exec_bind_eq_ok.mp h
  obtain ⟨_, first, hmanifest, h⟩ := exec_bind_eq_ok.mp h
  obtain ⟨_, second, henvironment, h⟩ := exec_bind_eq_ok.mp h
  obtain ⟨_, third, hstarter, hignore⟩ := exec_bind_eq_ok.mp h
  obtain ⟨⟨hme, hms, hmi⟩, ⟨hes, hei⟩, hsi⟩ := @initFiles_ne root
  have h2 := elsewhere_writeToml (root ++ [environmentsDir, "dev.toml".toList])
    (tools.renderEnvironment devEnvironment) faults.environment first
  have h3 := elsewhere_writeToml (root ++ [requestsDir, "example.toml".toList])
    (tools.renderRequest (exampleRequest tools.upper)) faults.starter second
  have h4 := elsewhere_writeText (root ++ [runtimeDir, ".gitignore".toList]) runtimeIgnore
    faults.ignore third
  rw [henvironment] at h2
  rw [hstarter] at h3
  rw [hignore] at h4
  refine ⟨?_, ?_, ?_, writeText_eq_ok hignore⟩
  · obtain ⟨text, htext, hfile⟩ := writeToml_eq_ok hmanifest
    exact ⟨text, htext, by rw [h4 _ hmi, h3 _ hms, h2 _ hme, hfile]⟩
  · obtain ⟨text, htext, hfile⟩ := writeToml_eq_ok henvironment
    exact ⟨text, htext, by rw [h4 _ hei, h3 _ hes, hfile]⟩
  · obtain ⟨text, htext, hfile⟩ := writeToml_eq_ok hstarter
    exact ⟨text, htext, by rw [h4 _ hsi, hfile]⟩

/-- A run that returns a collection has written all of its files, and has read it. -/
theorem init_eq_ok {tree after : FileTree} {name : Text} {faults : InitFaults}
    {collection : Collection}
    (h : exec (Collection.init tools dir name faults) tree = (.ok collection, after)) :
    Whole tools (dir ++ [collectionDir]) name after ∧
      Collection.load tools after (dir ++ [collectionDir]) = .ok collection := by
  unfold Collection.init at h
  rw [exec_bind_ok (exec_get tree)] at h
  split at h
  · exact nomatch congrArg Prod.fst h
  · obtain ⟨_, made, hmade, h⟩ := exec_bind_eq_ok.mp h
    rw [exec_bind_ok (exec_get made)] at h
    split at h
    · rename_i collection' hload
      rw [exec_pure, Prod.mk.injEq, Except.ok.injEq] at h
      obtain ⟨rfl, rfl⟩ := h
      exact ⟨whole_of_makeInit hmade, hload⟩
    · exact nomatch congrArg Prod.fst h

end Calls

/-! ### Many runs -/

section Runs

variable {tools : TomlTools} {dir : TreePath}

/-- What the libraries make of the texts they wrote, and what a walk lists. -/
structure TomlTools.Lawful (tools : TomlTools) : Prop where
  manifest : ∀ name, ∃ text, tools.renderManifest (newManifest name) = .ok text ∧
    tools.parseManifest text = .ok (newManifest name)
  environment : ∃ text, tools.renderEnvironment devEnvironment = .ok text
  starter : ∃ text, tools.renderRequest (exampleRequest tools.upper) = .ok text ∧
    tools.parseRequest text = .ok (exampleRequest tools.upper)
  walk : ∀ (tree : FileTree) (dir : TreePath),
    {path | dir <+: path ∧ (tree.file path).isSome = true}.Finite →
    (tools.walk tree dir).Nodup ∧
      ∀ path, path ∈ tools.walk tree dir ↔ dir <+: path ∧ (tree.file path).isSome = true

/-- The manifest is there when something is. -/
theorem Clear.has_manifest {root : TreePath} {tree : FileTree} (h : Clear root tree) :
    tree.has (root ++ [manifestFile]) = (tree.file (root ++ [manifestFile])).isSome := by
  unfold FileTree.has
  rw [h.files _ List.mem_cons_self, Bool.or_false]

/-- The manifest can be read back. -/
theorem readToml_manifest (hlaw : tools.Lawful) {root : TreePath} {name : Text} {tree : FileTree}
    (h : Whole tools root name tree) :
    readToml tools.parseManifest tree (root ++ [manifestFile]) = .ok (newManifest name) := by
  obtain ⟨text, htext, hfile⟩ := h.manifest
  obtain ⟨text', htext', hparse⟩ := hlaw.manifest name
  obtain rfl : text = text' := Except.ok.inj (htext.symm.trans htext')
  unfold readToml
  rw [hfile, Option.bind_some, (Utf8.decode?_eq_some_iff _ _).mpr rfl]
  dsimp only
  rw [hparse]
  rfl

/-- Where nothing is in the way, making a collection succeeds. -/
theorem succeeds_makeInit (hlaw : tools.Lawful) (root : TreePath) (name : Text) :
    Succeeds root (makeInit tools root name {}) := by
  obtain ⟨manifest, hmanifest, -⟩ := hlaw.manifest name
  obtain ⟨environment, henvironment⟩ := hlaw.environment
  obtain ⟨starter, hstarter, -⟩ := hlaw.starter
  have hdirs : Succeeds root (makeInitDirs root {}) := by
    refine (succeeds_createDir ?_).bind fun _ => (succeeds_createDir ?_).bind fun _ =>
      succeeds_createDir ?_
    all_goals simp [initDirs]
  have hfiles : Succeeds root (writeInitFiles tools root {}) := by
    refine (succeeds_writeToml ?_ henvironment).bind fun _ =>
      (succeeds_writeToml ?_ hstarter).bind fun _ => succeeds_writeText ?_ _
    all_goals simp [initFiles]
  exact hdirs.bind fun _ => (succeeds_writeToml List.mem_cons_self hmanifest).bind fun _ => hfiles

/-- Where nothing is in the way and no manifest is, a run in which nothing fails succeeds. -/
theorem init_clear (hlaw : tools.Lawful) {tree : FileTree}
    (hclear : Clear (dir ++ [collectionDir]) tree)
    (habsent : tree.file (dir ++ [collectionDir] ++ [manifestFile]) = none) (name : Text) :
    ∃ collection after,
      exec (Collection.init tools dir name {}) tree = (.ok collection, after) := by
  obtain ⟨_, after, hmade, -⟩ := succeeds_makeInit hlaw (dir ++ [collectionDir]) name tree hclear
  obtain ⟨collection, hload⟩ :
      ∃ collection, Collection.load tools after (dir ++ [collectionDir]) = .ok collection := by
    unfold Collection.load
    rw [readToml_manifest hlaw (whole_of_makeInit hmade)]
    exact ⟨_, rfl⟩
  refine ⟨collection, after, ?_⟩
  unfold Collection.init
  rw [exec_bind_ok (exec_get tree), if_neg (by rw [hclear.has_manifest, habsent]; decide),
    exec_bind_ok hmade, exec_bind_ok (exec_get after), hload]
  rfl

/-- What any number of runs do where nothing is in the way: as long as there is no manifest, none
has returned a collection; the first run that finds one there is the first of those that do nothing
any more. -/
theorem initRuns_clear {tree : FileTree} (calls : List InitCall)
    (hclear : Clear (dir ++ [collectionDir]) tree) :
    Clear (dir ++ [collectionDir]) (initRuns tools dir calls tree).2 ∧
      (tree.file (dir ++ [collectionDir] ++ [manifestFile]) ≠ none →
        (initRuns tools dir calls tree).2 = tree ∧
        ∀ result ∈ (initRuns tools dir calls tree).1,
          result = .error (.alreadyExists (dir ++ [collectionDir]))) ∧
      ((initRuns tools dir calls tree).1.filter (·.isOk)).length ≤ 1 ∧
      ∀ collection, .ok collection ∈ (initRuns tools dir calls tree).1 →
        ∃ call ∈ calls, Whole tools (dir ++ [collectionDir]) call.name
          (initRuns tools dir calls tree).2 := by
  induction calls generalizing tree with
  | nil => exact ⟨hclear, fun _ => ⟨rfl, fun _ h => absurd h List.not_mem_nil⟩, Nat.zero_le 1,
      fun _ h => absurd h List.not_mem_nil⟩
  | cons call calls ih =>
    unfold initRuns
    have hafter := hclear.grows (@keeps_init tools dir call.name call.faults tree)
    have hpresent := @exec_init_present tools dir tree call.name call.faults
    rw [hclear.has_manifest] at hpresent
    rcases hrun : exec (Collection.init tools dir call.name call.faults) tree with ⟨result, after⟩
    rw [hrun] at hafter hpresent
    dsimp only
    obtain ⟨hlast, hdone, hone, hwhole⟩ := ih hafter
    refine ⟨hlast, fun hthere => ?_, ?_, fun collection hmem => ?_⟩
    · -- The manifest is there already: this run has changed nothing.
      have hsame := hpresent (Option.isSome_iff_ne_none.mpr hthere)
      rw [Prod.mk.injEq] at hsame
      obtain ⟨rfl, rfl⟩ := hsame
      obtain ⟨hfinal, hresults⟩ := hdone hthere
      refine ⟨hfinal, fun r hr => ?_⟩
      rcases List.mem_cons.mp hr with rfl | hr
      · rfl
      · exact hresults r hr
    · cases result with
      | error e => exact hone
      | ok collection =>
        -- The manifest is there now, and no later run returns anything.
        obtain ⟨text, -, hfile⟩ := (init_eq_ok hrun).1.manifest
        have hnone := (hdone (by rw [hfile]; exact Option.some_ne_none _)).2
        rw [List.filter_cons_of_pos rfl, List.filter_eq_nil_iff.mpr]
        · rfl
        · intro r hr
          rw [hnone r hr]
          exact Bool.false_ne_true
    · rcases List.mem_cons.mp hmem with hthis | hlater
      · rw [← hthis] at hrun
        have hmade := (init_eq_ok hrun).1
        obtain ⟨text, -, hfile⟩ := hmade.manifest
        rw [(hdone (by rw [hfile]; exact Option.some_ne_none _)).1]
        exact ⟨call, List.mem_cons_self, hmade⟩
      · obtain ⟨other, hother, h⟩ := hwhole collection hlater
        exact ⟨other, List.mem_cons_of_mem call hother, h⟩

/-- **A run of `init` that stopped can be repeated exactly when it stopped before the manifest.**
After any number of runs, of which each may fail anywhere: one in which nothing fails returns a
collection if and only if no manifest is there. When one is there, no run changes anything any
more, one run at most has returned a collection, and if one has, all files are whole. -/
theorem init_again_iff (hlaw : tools.Lawful) {tree : FileTree}
    (hclear : Clear (dir ++ [collectionDir]) tree) (calls : List InitCall) (name : Text) :
    ((∃ collection, (exec (Collection.init tools dir name {})
        (initRuns tools dir calls tree).2).1 = .ok collection) ↔
      (initRuns tools dir calls tree).2.file (dir ++ [collectionDir] ++ [manifestFile]) = none) ∧
    ((initRuns tools dir calls tree).2.file (dir ++ [collectionDir] ++ [manifestFile]) ≠ none →
      (∀ later,
        (initRuns tools dir later (initRuns tools dir calls tree).2).2
            = (initRuns tools dir calls tree).2 ∧
          ∀ result ∈ (initRuns tools dir later (initRuns tools dir calls tree).2).1,
            result = .error (.alreadyExists (dir ++ [collectionDir]))) ∧
      ((initRuns tools dir calls tree).1.filter (·.isOk)).length ≤ 1 ∧
      ∀ collection, .ok collection ∈ (initRuns tools dir calls tree).1 →
        ∃ call ∈ calls, Whole tools (dir ++ [collectionDir]) call.name
          (initRuns tools dir calls tree).2) := by
  obtain ⟨hlast, -, hone, hwhole⟩ := @initRuns_clear tools dir tree calls hclear
  generalize (initRuns tools dir calls tree).2 = final at hlast hwhole ⊢
  refine ⟨⟨fun ⟨collection, hok⟩ => ?_, fun habsent => ?_⟩, fun hthere => ⟨fun later => ?_, hone,
    hwhole⟩⟩
  · by_contra hthere
    -- With a manifest in the tree, the run stops before its first call.
    rw [exec_init_present name {} (by
      rw [hlast.has_manifest]; exact Option.isSome_iff_ne_none.mpr hthere)] at hok
    exact nomatch hok
  · obtain ⟨collection, after, hrun⟩ := init_clear hlaw hlast habsent name
    exact ⟨collection, congrArg Prod.fst hrun⟩
  · exact (initRuns_clear later hlast).2.1 hthere

end Runs

/-! ### Finding it again -/

section Finding

variable {tools : TomlTools} {dir root : TreePath} {tree after : FileTree}

/-- What is above a directory is a directory. -/
theorem FileTree.dir_above {above rest : TreePath} (h : tree.dir (above ++ rest) = true) :
    tree.dir above = true := by
  induction rest using List.reverseRecOn with
  | nil => rwa [List.append_nil] at h
  | append_singleton rest name ih =>
    rw [← List.append_assoc] at h
    exact ih (tree.parent (above ++ rest) name (Or.inr h))

/-- Where nothing is, there is no file and no directory. -/
theorem FileTree.nothing_at {path : TreePath} (h : tree.has path = false) :
    tree.file path = none ∧ tree.dir path = false := by
  unfold FileTree.has at h
  rw [Bool.or_eq_false_iff, Option.isSome_eq_false_iff, Option.isNone_iff_eq_none] at h
  exact h

/-- In a directory without a collection, nothing is in the way of one. -/
theorem clear_of_fresh (hdir : tree.dir dir = true)
    (hnone : ∀ path, dir ++ [collectionDir] <+: path → tree.has path = false) :
    Clear (dir ++ [collectionDir]) tree := by
  have hunder : ∀ rest, tree.file (dir ++ [collectionDir] ++ rest) = none ∧
      tree.dir (dir ++ [collectionDir] ++ rest) = false :=
    fun rest => FileTree.nothing_at (hnone _ (List.prefix_append (dir ++ [collectionDir]) rest))
  refine ⟨fun path hpath => ?_, fun path hpath => ?_, fun path hpath => ?_⟩
  · rcases List.prefix_concat_iff.mp hpath with rfl | ⟨rest, hrest⟩
    · have hself := (hunder []).1
      rwa [List.append_nil] at hself
    · rw [← hrest] at hdir
      exact tree.apart path (FileTree.dir_above hdir)
  · rw [mem_initDirs] at hpath
    rcases hpath with rfl | rfl | rfl | rfl
    · have hself := (hunder []).1
      rwa [List.append_nil] at hself
    all_goals exact (hunder _).1
  · rw [mem_initFiles] at hpath
    rcases hpath with rfl | rfl | rfl | rfl
    all_goals exact (hunder _).2

/-- Walking up goes on in the directory above. -/
theorem findRoot_concat (tree : FileTree) (start : TreePath) (name : Text) :
    findRoot tree (start ++ [name]) = (rootAt tree (start ++ [name])).or (findRoot tree start) := by
  have hinits : (start ++ [name]).inits.reverse = (start ++ [name]) :: start.inits.reverse := by
    rw [List.inits_append, List.reverse_append]
    rfl
  unfold findRoot
  rw [hinits, List.findSome?_cons]
  cases rootAt tree (start ++ [name]) with
  | none => rfl
  | some root => rfl

/-- A directory that shows a collection finds this one. -/
theorem findRoot_of_rootAt {start : TreePath} (h : rootAt tree start = some root) :
    findRoot tree start = some root := by
  induction start using List.reverseRecOn with
  | nil =>
    unfold findRoot
    rw [show ([] : TreePath).inits.reverse = [[]] from rfl, List.findSome?_cons, h]
  | append_singleton start name =>
    rw [findRoot_concat, h]
    rfl

/-- Of the files of a collection, only the manifest has its name. -/
theorem eq_of_manifest_mem {path : TreePath} (h : path ++ [manifestFile] ∈ initFiles root) :
    path = root := by
  rw [mem_initFiles] at h
  rcases h with h | h | h | h
  · exact List.append_cancel_right h
  all_goals
    have hlast := congrArg List.getLast? h
    rw [List.getLast?_append_of_ne_nil _ (List.cons_ne_nil _ _),
      List.getLast?_append_of_ne_nil _ (List.cons_ne_nil _ _)] at hlast
    exact absurd hlast (by decide)

/-- A directory shows what it showed before, unless the new collection is in it or is it. -/
theorem rootAt_grows (hgrows : GrowsAt (dir ++ [collectionDir]) tree after) {path : TreePath}
    (hdir : path ≠ dir) (hroot : path ≠ dir ++ [collectionDir]) :
    rootAt after path = rootAt tree path := by
  have hinside : path ++ [collectionDir, manifestFile] ∉ initFiles (dir ++ [collectionDir]) := by
    rw [show path ++ [collectionDir, manifestFile] = path ++ [collectionDir] ++ [manifestFile] by
      simp]
    exact fun h => hdir (List.append_cancel_right (eq_of_manifest_mem h))
  unfold rootAt
  rw [hgrows.file _ hinside, hgrows.file _ fun h => hroot (eq_of_manifest_mem h)]

/-- The new collection shows itself, or nothing nearer does. -/
theorem rootAt_self (hgrows : GrowsAt root tree after)
    (hfree : tree.file (root ++ [collectionDir, manifestFile]) = none) :
    (rootAt after root).or (some root) = some root := by
  have hinside : root ++ [collectionDir, manifestFile] ∉ initFiles root := by
    rw [show root ++ [collectionDir, manifestFile] = root ++ [collectionDir] ++ [manifestFile] by
      simp]
    intro hmem
    have hlength := congrArg List.length (eq_of_manifest_mem hmem)
    rw [List.length_append, List.length_singleton] at hlength
    omega
  unfold rootAt
  rw [hgrows.file _ hinside, hfree, if_neg (by decide)]
  split
  · rfl
  · rfl

/-- What a new collection is. -/
def newCollection (tools : TomlTools) (root : TreePath) (name : Text) : Collection where
  root := treeText root
  manifest := newManifest name
  requests := [⟨requestPath (treeText root) "example".toList, "example".toList,
    exampleRequest tools.upper⟩]
  problems := []

/-- The starter request is read back. -/
theorem load_new (hlaw : tools.Lawful) {name : Text} (hwhole : Whole tools root name after)
    (honly : ∀ path, root ++ [requestsDir] <+: path → (after.file path).isSome = true →
      path = root ++ [requestsDir] ++ ["example.toml".toList]) :
    Collection.load tools after root = .ok (newCollection tools root name) := by
  -- The starter text is on the disk, and the TOML reader knows it.
  obtain ⟨text, htext, hfile⟩ := hwhole.starter
  obtain ⟨text', htext', hparse⟩ := hlaw.starter
  obtain rfl : text = text' := Except.ok.inj (htext.symm.trans htext')
  rw [show root ++ [requestsDir, "example.toml".toList]
    = root ++ [requestsDir] ++ ["example.toml".toList] by simp] at hfile
  have hdir : after.dir (root ++ [requestsDir]) = true :=
    after.parent _ _ (Or.inl (by rw [hfile]; rfl))
  -- No other file is below the directory of the requests.
  have hset : ∀ path, root ++ [requestsDir] <+: path ∧ (after.file path).isSome = true ↔
      path = root ++ [requestsDir] ++ ["example.toml".toList] := by
    refine fun path => ⟨fun h => honly path h.1 h.2, ?_⟩
    rintro rfl
    exact ⟨List.prefix_append _ _, by rw [hfile]; rfl⟩
  -- So the walk finds it alone, whatever order it takes.
  have hwalk : tools.walk after (root ++ [requestsDir])
      = [root ++ [requestsDir] ++ ["example.toml".toList]] := by
    obtain ⟨hnodup, hmem⟩ := hlaw.walk after (root ++ [requestsDir])
      (by simp only [hset, Set.ofPred_eq_eq_singleton, Set.finite_singleton])
    refine List.perm_singleton.mp ((List.perm_ext_iff_of_nodup hnodup
      (List.nodup_singleton _)).mpr fun path => ?_)
    rw [hmem, hset, List.mem_singleton]
  -- The file is read as the example request, under its own name.
  have hread : readRequest tools after (root ++ [requestsDir])
      (root ++ [requestsDir] ++ ["example.toml".toList])
        = ⟨"example".toList, .ok (exampleRequest tools.upper)⟩ := by
    unfold readRequest requestId readToml
    rw [List.drop_left, hfile, Option.bind_some, (Utf8.decode?_eq_some_iff _ _).mpr rfl]
    dsimp only
    rw [hparse]
    rfl
  have htoml : isToml (root ++ [requestsDir] ++ ["example.toml".toList]) = true := by
    unfold isToml
    rw [List.getLast?_concat]
    decide
  -- Loading reads the manifest and then this one file.
  unfold Collection.load
  rw [readToml_manifest hlaw hwhole]
  dsimp only [bind, Except.bind]
  rw [if_pos hdir, hwalk, List.filter_cons_of_pos htoml, List.filter_nil, List.map_singleton, hread]
  rfl

/-- A directory below the new collection finds it, unless one on the way shows another. -/
theorem findRoot_below (hgrows : GrowsAt (dir ++ [collectionDir]) tree after)
    (hfree : tree.file (dir ++ [collectionDir] ++ [collectionDir, manifestFile]) = none)
    (hshown : rootAt after dir = some (dir ++ [collectionDir])) {rest : TreePath}
    (hrest : ∀ path, path <+: rest → path ≠ [] → rootAt tree (dir ++ path) = none) :
    findRoot after (dir ++ rest) = some (dir ++ [collectionDir]) := by
  induction rest using List.reverseRecOn with
  | nil =>
    rw [List.append_nil]
    exact findRoot_of_rootAt hshown
  | append_singleton rest part ih =>
    have habove := ih fun path hpath => hrest path (hpath.trans (List.prefix_append _ _))
    rw [← List.append_assoc, findRoot_concat, habove]
    by_cases hself : dir ++ rest ++ [part] = dir ++ [collectionDir]
    · -- The start is in the collection itself.
      rw [hself, rootAt_self hgrows hfree]
    · have hdeeper : dir ++ rest ++ [part] ≠ dir := by
        intro heq
        have hlength := congrArg List.length heq
        simp only [List.length_append, List.length_singleton] at hlength
        omega
      rw [rootAt_grows hgrows hdeeper hself, List.append_assoc,
        hrest (rest ++ [part]) List.prefix_rfl (by simp)]
      rfl

/-- Any other directory finds what it found before. -/
theorem findRoot_elsewhere (hgrows : GrowsAt (dir ++ [collectionDir]) tree after)
    {start : TreePath} (hstart : ¬ dir <+: start) : findRoot after start = findRoot tree start := by
  have hshown : ∀ path, ¬ dir <+: path → rootAt after path = rootAt tree path := by
    intro path hpath
    refine rootAt_grows hgrows ?_ ?_
    · rintro rfl
      exact hpath List.prefix_rfl
    · rintro rfl
      exact hpath (List.prefix_append _ _)
  induction start using List.reverseRecOn with
  | nil =>
    unfold findRoot
    rw [show ([] : TreePath).inits.reverse = [[]] from rfl, List.findSome?_cons,
      List.findSome?_cons, hshown [] hstart]
    rfl
  | append_singleton start part ih =>
    rw [findRoot_concat, findRoot_concat, hshown _ hstart,
      ih fun hpre => hstart (hpre.trans (List.prefix_append _ _))]

/-- In a new collection, the starter request is the only file of its directory. -/
theorem only_starter (hgrows : GrowsAt root tree after)
    (hfree : ∀ path, root <+: path → tree.file path = none) {path : TreePath}
    (hpath : root ++ [requestsDir] <+: path) (hsome : (after.file path).isSome = true) :
    path = root ++ [requestsDir] ++ ["example.toml".toList] := by
  by_cases hmem : path ∈ initFiles root
  · rw [mem_initFiles] at hmem
    obtain ⟨rest, rfl⟩ := hpath
    have hmanifest : requestsDir ≠ manifestFile := by decide
    have henvironments : requestsDir ≠ environmentsDir := by decide
    have hruntime : requestsDir ≠ runtimeDir := by decide
    simp only [List.append_assoc, List.append_cancel_left_eq, List.cons_append, List.nil_append,
      List.cons.injEq, hmanifest, henvironments, hruntime, false_and, true_and, false_or,
      or_false] at hmem ⊢
    exact hmem
  · rw [hgrows.file path hmem, hfree path ((List.prefix_append _ _).trans hpath)] at hsome
    exact nomatch hsome

/-- **A new collection is found.** In a directory without one, a run of `init` in which nothing
fails returns the collection with the starter request. It is what every directory below finds that
finds no nearer one, and all others find the collection that they found before. -/
theorem init_found (hlaw : tools.Lawful) (hdir : tree.dir dir = true)
    (hnone : ∀ path, dir ++ [collectionDir] <+: path → tree.has path = false) (name : Text) :
    ∃ after, exec (Collection.init tools dir name {}) tree
        = (.ok (newCollection tools (dir ++ [collectionDir]) name), after) ∧
      (∀ rest, (∀ path, path <+: rest → path ≠ [] → rootAt tree (dir ++ path) = none) →
        Collection.discover tools after (dir ++ rest)
          = .ok (newCollection tools (dir ++ [collectionDir]) name)) ∧
      ∀ start, ¬ dir <+: start → findRoot after start = findRoot tree start := by
  have hfree : ∀ path, dir ++ [collectionDir] <+: path → tree.file path = none :=
    fun path hpath => (FileTree.nothing_at (hnone path hpath)).1
  obtain ⟨collection, after, hrun⟩ :=
    init_clear hlaw (clear_of_fresh hdir hnone) (hfree _ (List.prefix_append _ _)) name
  obtain ⟨hwhole, hload⟩ := init_eq_ok hrun
  have hgrows := @keeps_init tools dir name {} tree
  rw [hrun] at hgrows
  -- What the run has read is what any later command reads.
  have hnew := load_new hlaw hwhole fun path => only_starter hgrows hfree
  rw [hnew] at hload
  obtain rfl := Except.ok.inj hload
  refine ⟨after, hrun, fun rest hrest => ?_, fun start => findRoot_elsewhere hgrows⟩
  have hshown : rootAt after dir = some (dir ++ [collectionDir]) := by
    obtain ⟨text, -, hfile⟩ := hwhole.manifest
    unfold rootAt
    rw [show dir ++ [collectionDir, manifestFile] = dir ++ [collectionDir] ++ [manifestFile] by
      simp, hfile]
    rfl
  unfold Collection.discover
  rw [findRoot_below hgrows (hfree _ (List.prefix_append _ _)) hshown hrest]
  exact hnew

end Finding

/-! ### A home directory -/

/-- The text of a manifest that only has a name. -/
def manifestText (name : Text) : Text := "name = \"".toList ++ name ++ "\"\n".toList

/-- The starter request, as the library writes it. -/
def starterText : Text :=
  ("name = \"Example request\"\nmethod = \"GET\"\nurl = \"\x7b\x7bbase_url\x7d\x7d/get\"\n\n" ++
    "[headers]\nAccept = \"application/json\"\n").toList

/-- The library reads back what it wrote. -/
def parseStarter (text : Text) : Except Text RequestSpec :=
  if text = starterText then .ok (exampleRequest id) else .error "expected a request".toList

/-- The starter request is what its own text reads as. -/
theorem parseStarter_self : parseStarter starterText = .ok (exampleRequest id) := if_pos rfl

open Classical in
/-- Libraries for new collections. -/
noncomputable def plainToml : TomlTools where
  parseManifest text := .ok (newManifest (text.drop 8).dropLast.dropLast)
  parseRequest := parseStarter
  renderManifest manifest := .ok (manifestText (manifest.name.getD []))
  renderEnvironment _ :=
    .ok "name = \"dev\"\n\n[vars]\nbase_url = \"https://httpbin.org\"\n".toList
  renderRequest _ := .ok starterText
  walk tree dir :=
    if h : {path | dir <+: path ∧ (tree.file path).isSome = true}.Finite then h.toFinset.toList
    else []
  upper := id

open Classical in
/-- The library of the sample prints what it reads back. -/
theorem plainToml_lawful : plainToml.Lawful where
  manifest name := by
    refine ⟨_, rfl, ?_⟩
    have hdrop : (manifestText name).drop 8 = name ++ ['"'] ++ ['\n'] := by
      unfold manifestText
      rw [List.append_assoc, List.append_assoc]
      exact List.drop_left' rfl
    show Except.ok (newManifest ((manifestText name).drop 8).dropLast.dropLast)
      = .ok (newManifest name)
    rw [hdrop, List.dropLast_concat, List.dropLast_concat]
  environment := ⟨_, rfl⟩
  starter := ⟨starterText, rfl, parseStarter_self⟩
  walk tree dir h := by
    show List.Nodup (dite _ _ _) ∧ ∀ path, path ∈ dite _ _ _ ↔ _
    rw [dif_pos h]
    refine ⟨Finset.nodup_toList _, fun path => ?_⟩
    rw [Finset.mem_toList, Set.Finite.mem_toFinset, Set.mem_ofPred_eq]

/-- A tree with one empty directory. -/
def homeTree : FileTree where
  file _ := none
  dir path := path <+: ["home".toList]
  parent path name h := by
    rcases h with h | h
    · exact nomatch h
    · exact decide_eq_true ((List.prefix_append path [name]).trans (of_decide_eq_true h))
  apart _ _ := rfl

/-- There is no collection in the home directory of the sample. -/
theorem homeTree_fresh (path : TreePath) (h : ["home".toList] ++ [collectionDir] <+: path) :
    homeTree.has path = false := by
  show (false || decide (path <+: ["home".toList])) = false
  rw [Bool.false_or, decide_eq_false_iff_not]
  intro hpre
  have hshort := (h.trans hpre).length_le
  exact absurd hshort (by decide)

/-- A new collection is found from a directory beside it. -/
theorem init_found_home : ∃ after,
    exec (Collection.init plainToml ["home".toList] "demo".toList {}) homeTree
        = (.ok (newCollection plainToml ["home".toList, collectionDir] "demo".toList), after) ∧
      Collection.discover plainToml after ["home".toList, "src".toList]
        = .ok (newCollection plainToml ["home".toList, collectionDir] "demo".toList) := by
  obtain ⟨after, hrun, hbelow, -⟩ := @init_found plainToml ["home".toList] homeTree
    plainToml_lawful (by decide) homeTree_fresh "demo".toList
  exact ⟨after, hrun, hbelow ["src".toList] fun path _ _ => rfl⟩

/-- A run whose last write fails. -/
def stoppedCall : InitCall :=
  ⟨"demo".toList, { ignore := { write := some .opening } }⟩

/-- The run has written the manifest, and no later run writes the file that it did not get to: the
runtime directory is never kept out of a commit. -/
theorem init_again_iff_stopped :
    (initRuns plainToml ["home".toList] [stoppedCall] homeTree).2.file
        ["home".toList, collectionDir, manifestFile] ≠ none ∧
      ∀ later, (initRuns plainToml ["home".toList] later
          (initRuns plainToml ["home".toList] [stoppedCall] homeTree).2).2.file
        ["home".toList, collectionDir, runtimeDir, ".gitignore".toList] = none := by
  have hclear := @clear_of_fresh ["home".toList] homeTree (by decide) homeTree_fresh
  have hmanifest : (initRuns plainToml ["home".toList] [stoppedCall] homeTree).2.file
      ["home".toList, collectionDir, manifestFile] ≠ none := by decide +kernel
  have hthere := (init_again_iff plainToml_lawful hclear [stoppedCall] "demo".toList).2 hmanifest
  refine ⟨hmanifest, fun later => ?_⟩
  rw [(hthere.1 later).1]
  decide +kernel

end Gabriel.Cli
