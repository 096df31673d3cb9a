import Gabriel.Cli.Output
import Gabriel.Lib.FileWrite

/-!
# `Gabriel.Cli.Bundle`: writing the support bundle

`write_bundle` and `record_error` of `gabriel-cli/src/feedback.rs`, the checks of
`gabriel-cli/src/doctor.rs` that try whether a directory can be written, and what
`gabriel feedback` and `main` do with them in `gabriel-cli/src/main.rs`. What the files of the
bundle say is an argument.

A disk has regular files and directories, by their paths from the root. Every call on it can
fail, and the arguments say where: `Leftover` is what a failed removal leaves of a directory.

The definitions:

* `FileTree`: the disk, with `createDirAll`, `writeFile`, `removeDirAll` and their faults.
* `writeBundle`: remove what is in the way, make the directories, and write the files.
* `recordError`: append a line to the error log, and keep the last fifty.
* `checkAll`: the checks that write a probe and remove it.
* `bundle`, `feedback`: the command, and what `main` does around it.
-/

set_option autoImplicit false

namespace Gabriel.Cli

open Gabriel.Core Text FileWrite

/-! ### The disk -/

/-- A path from the root, by its components. -/
abbrev TreePath := List Text

/-- The regular files and the directories. -/
structure FileTree where
  file : TreePath → Option (List UInt8)
  dir : TreePath → Bool
  /-- What holds a file or a directory is a directory. -/
  parent : ∀ path name, (file (path ++ [name])).isSome = true ∨ dir (path ++ [name]) = true →
    dir path = true
  /-- No path is both. -/
  apart : ∀ path, dir path = true → file path = none

namespace FileTree

/-- Whether something is there. -/
def has (disk : FileTree) (path : TreePath) : Bool := (disk.file path).isSome || disk.dir path

/-- What a removal leaves of a directory. What holds something that is left is left too. -/
structure Leftover where
  keeps : TreePath → Bool
  parent : ∀ path name, keeps (path ++ [name]) = true → keeps path = true

/-- Nothing is left. -/
def Leftover.nothing : Leftover := ⟨fun _ => false, fun _ _ h => h⟩

/-- Remove what is at a path and under it, except what is left. -/
def prune (disk : FileTree) (dir : TreePath) (left : Leftover) : FileTree where
  file path := if dir <+: path ∧ left.keeps path = false then none else disk.file path
  dir path := if dir <+: path ∧ left.keeps path = false then false else disk.dir path
  parent path name h := by
    have hkept : ¬ (dir <+: path ++ [name] ∧ left.keeps (path ++ [name]) = false) := by
      intro hgone
      simp [hgone] at h
    rw [if_neg hkept, if_neg hkept] at h
    rw [if_neg ?_]
    · exact disk.parent path name h
    · rintro ⟨hunder, hgone⟩
      refine hkept ⟨hunder.trans (List.prefix_append path [name]), ?_⟩
      rw [Bool.eq_false_iff] at hgone ⊢
      exact fun hkeeps => hgone (left.parent path name hkeeps)
  apart path h := by
    split at h
    · exact absurd h (by decide)
    · rename_i hkept
      rw [if_neg hkept]
      exact disk.apart path h

/-- `remove_dir_all`. -/
def removeDirAll (disk : FileTree) (dir : TreePath) (fault : Option Leftover) : Bool × FileTree :=
  if disk.dir dir then
    match fault with
    | none => (true, disk.prune dir .nothing)
    | some left => (false, disk.prune dir left)
  else (false, disk)

/-- Create the directories of a path, as far as a depth. -/
def makeDirs (disk : FileTree) (path : TreePath) (depth : Nat)
    (h : ∀ above ∈ path.inits, disk.file above = none) : FileTree where
  file := disk.file
  dir q := disk.dir q || (path.inits.contains q && q.length ≤ depth)
  parent q name hq := by
    simp only [Bool.or_eq_true, Bool.and_eq_true, List.contains_iff_mem, List.mem_inits,
      decide_eq_true_eq, List.length_append, List.length_singleton] at hq ⊢
    rcases hq with hfile | hdir | ⟨habove, hdepth⟩
    · exact Or.inl (disk.parent q name (Or.inl hfile))
    · exact Or.inl (disk.parent q name (Or.inr hdir))
    · exact Or.inr ⟨(List.prefix_append q [name]).trans habove, by omega⟩
  apart q hq := by
    simp only [Bool.or_eq_true, Bool.and_eq_true, List.contains_iff_mem] at hq
    rcases hq with hdir | ⟨hmem, -⟩
    · exact disk.apart q hdir
    · exact h q hmem

/-- `create_dir_all`. A fault lets it come down to a depth. -/
def createDirAll (disk : FileTree) (path : TreePath) (fault : Option Nat) : Bool × FileTree :=
  if h : ∀ above ∈ path.inits, disk.file above = none then
    (fault.isNone, disk.makeDirs path (fault.getD path.length) h)
  -- A regular file is in the way.
  else (false, disk)

/-- Put a file into a directory that is there. -/
def putFile (disk : FileTree) (path : TreePath) (content : Option (List UInt8))
    (hparent : disk.dir path.dropLast = true) (hfree : disk.dir path = false) : FileTree where
  file := Function.update disk.file path content
  dir := disk.dir
  parent q name hq := by
    by_cases heq : q ++ [name] = path
    · rw [← heq, List.dropLast_concat] at hparent
      exact hparent
    · rw [Function.update_of_ne heq] at hq
      exact disk.parent q name hq
  apart q hq := by
    have hne : q ≠ path := by
      rintro rfl
      rw [hfree] at hq
      exact absurd hq (by decide)
    rw [Function.update_of_ne hne]
    exact disk.apart q hq

/-- `fs::write`. -/
def writeFile (disk : FileTree) (path : TreePath) (bytes : List UInt8) (fault : Option Fault) :
    Bool × FileTree :=
  if h : disk.dir path.dropLast = true ∧ disk.dir path = false then
    (fault.isNone, disk.putFile path (write (disk.file path) bytes fault) h.1 h.2)
  else (false, disk)

/-- `remove_file`, of a file that is there. -/
def removeFile (disk : FileTree) (path : TreePath) : FileTree where
  file := Function.update disk.file path none
  dir := disk.dir
  parent q name hq := by
    by_cases heq : q ++ [name] = path
    · rw [heq, Function.update_self] at hq
      rw [← heq] at hq
      exact disk.parent q name (Or.inr (hq.resolve_left (by decide)))
    · rw [Function.update_of_ne heq] at hq
      exact disk.parent q name hq
  apart q hq := by
    by_cases heq : q = path
    · rw [heq, Function.update_self]
    · rw [Function.update_of_ne heq]
      exact disk.apart q hq

end FileTree

/-! ### Trying to write -/

/-- What is written to try whether a directory can be written. -/
def probeBytes : List UInt8 := Utf8.encode "probe".toList

/-- Where a try fails: at the write, or at the removal after it. -/
structure ProbeFaults where
  write : Option Fault := none
  stays : Bool := false

/-- Write a file and remove it again. A write that fails leaves what it has written. -/
def FileTree.probe (disk : FileTree) (path : TreePath) (faults : ProbeFaults) : FileTree :=
  match disk.writeFile path probeBytes faults.write with
  | (true, disk) => if faults.stays then disk else disk.removeFile path
  | (false, disk) => disk

/-- The file that the check of the temporary directory writes. -/
def tempProbe (tempDir : TreePath) (pid : UInt32) : TreePath :=
  tempDir ++ ["gabriel-doctor-".toList ++ natText pid.toNat]

/-- The file that the check of the runtime directory writes. -/
def doctorProbe (runtimeDir : TreePath) : TreePath := runtimeDir ++ [".doctor-probe".toList]

/-! ### The bundle -/

/-- A file of the bundle. -/
structure BundleFile where
  path : TreePath
  contents : List UInt8

/-- The names of the files, in the order in which they are written. -/
def bundleNames : List TreePath :=
  [["version.txt".toList], ["platform.json".toList], ["doctor.json".toList],
    ["config-redacted.toml".toList], ["logs".toList, "recent-errors.json".toList],
    ["logs".toList, "captures-summary.json".toList], [".gitignore".toList], ["README.md".toList]]

/-- The files of the bundle. -/
def bundleFiles (contents : TreePath → List UInt8) : List BundleFile :=
  bundleNames.map fun path => ⟨path, contents path⟩

/-- Where writing one file fails. -/
structure FileFaults where
  parent : Option Nat := none
  write : Option Fault := none

/-- Where writing the bundle fails. -/
structure BundleFaults where
  removal : Option FileTree.Leftover := none
  create : Option Nat := none
  file : TreePath → FileFaults := fun _ => {}

/-- Write the files, until one fails. -/
def writeFiles (dir : TreePath) (faults : TreePath → FileFaults) :
    List BundleFile → FileTree → Bool × FileTree
  | [], disk => (true, disk)
  | file :: rest, disk =>
    let path := dir ++ file.path
    match disk.createDirAll path.dropLast (faults file.path).parent with
    | (false, disk) => (false, disk)
    | (true, disk) =>
      match disk.writeFile path file.contents (faults file.path).write with
      | (false, disk) => (false, disk)
      | (true, disk) => writeFiles dir faults rest disk

/-- Write the bundle. -/
def writeBundle (dir : TreePath) (files : List BundleFile) (faults : BundleFaults)
    (disk : FileTree) : Bool × FileTree :=
  match (if disk.has dir then disk.removeDirAll dir faults.removal else (true, disk)) with
  | (false, disk) => (false, disk)
  | (true, disk) =>
    match disk.createDirAll dir faults.create with
    | (false, disk) => (false, disk)
    | (true, disk) => writeFiles dir faults.file files disk

/-! ### The error log -/

/-- `MAX_ERRORS`. -/
def maxErrors : Nat := 50

/-- The error log with one more line. -/
def errorLog (old : Option (List UInt8)) (line : Text) : List UInt8 :=
  let kept := (textLines ((old.bind Utf8.decode?).getD [])).filter (trim · ≠ []) ++ [line]
  Utf8.encode (List.intercalate ['\n'] (kept.drop (kept.length - maxErrors)) ++ ['\n'])

/-- `errors_path`. -/
def errorsPath (runtimeDir : TreePath) : TreePath := runtimeDir ++ ["errors.jsonl".toList]

/-- Append a failure to the error log of a collection. Every error here is swallowed. -/
def recordError (runtimeDir : TreePath) (line : Text) (fault : Option Fault)
    (disk : FileTree) : FileTree :=
  if disk.dir runtimeDir then
    let path := errorsPath runtimeDir
    (disk.writeFile path (errorLog (disk.file path) line) fault).2
  else disk

/-! ### The command -/

/-- A run of `gabriel feedback`. -/
structure FeedbackRun where
  out : TreePath
  contents : TreePath → List UInt8
  tempDir : TreePath
  pid : UInt32 := 0
  tempFaults : ProbeFaults := {}
  /-- The runtime directory of the collection that is found from the start directory. -/
  runtimeDir : FileTree → Option TreePath := fun _ => none
  runtimeFaults : ProbeFaults := {}
  faults : BundleFaults := {}
  /-- The line that a failure is recorded with. -/
  errorLine : Text := []
  recordFault : Option Fault := none

namespace FeedbackRun

/-- The disk after `check_temp_dir`. -/
def checkTempDir (run : FeedbackRun) (disk : FileTree) : FileTree :=
  disk.probe (tempProbe run.tempDir run.pid) run.tempFaults

/-- The disk after `check_all`: two of the checks write. -/
def checkAll (run : FeedbackRun) (disk : FileTree) : FileTree :=
  let disk := run.checkTempDir disk
  match run.runtimeDir disk with
  | some runtimeDir =>
    if disk.has runtimeDir then disk.probe (doctorProbe runtimeDir) run.runtimeFaults else disk
  | none => disk

/-- Whether the bundle is written, and the disk after it. -/
def bundle (run : FeedbackRun) (disk : FileTree) : Bool × FileTree :=
  writeBundle run.out (bundleFiles run.contents) run.faults (run.checkAll disk)

/-- The disk after a failure was recorded. -/
def record (run : FeedbackRun) (disk : FileTree) : FileTree :=
  match run.runtimeDir disk with
  | some runtimeDir => recordError runtimeDir run.errorLine run.recordFault disk
  | none => disk

end FeedbackRun

/-- `gabriel feedback`: whether it succeeds, and the disk after it. -/
def feedback (run : FeedbackRun) (disk : FileTree) : Bool × FileTree :=
  match run.bundle disk with
  | (true, disk) => (true, disk)
  | (false, disk) => (false, run.record disk)

end Gabriel.Cli
