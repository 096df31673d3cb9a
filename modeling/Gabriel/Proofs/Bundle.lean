import Gabriel.Cli.Bundle

/-!
# `Gabriel.Proofs.Bundle`: what the bundle does to the files that were there

`gabriel feedback --out DIR` replaces `DIR`. `Untouched` is what it owes a file under `DIR` that is
no file of the bundle: it is there, with the same contents, after every step of the run.

The steps are three: the checks of `doctor` write and remove two files, the bundle removes the
directory before it writes, and a failure is recorded in the error log of the collection. Any call
may fail, and a removal may fail half-way. `Spared` is the condition that each of the three steps
leaves the file alone. The comment of `write_bundle` says that it refuses an existing directory; it
removes it, so a foreign file is spared only where the removal fails. The theorems:

* `file_checkAll_iff`: the checks leave a file alone exactly when both tries do.
* `file_bundle_iff`: the bundle leaves a file alone exactly when the removal fails and leaves it.
* `file_record_iff`: recording leaves a file alone exactly when it is not the error log, or the log
  stays as it was.
* `untouched_iff`: the three steps together, after each of them.
* `keepsOthers_iff`: for every disk and output path, the files of others are kept exactly when every
  one of them is spared.
-/

set_option autoImplicit false

namespace Gabriel.Cli

open Gabriel.Core Text FileWrite

namespace FileTree

variable {disk : FileTree} {path q : TreePath}

/-- What holds a file is a directory, and so is everything above it. -/
theorem dir_of_prefix {dir rest : TreePath} (hrest : rest ≠ [])
    (h : (disk.file (dir ++ rest)).isSome = true) : disk.dir dir = true := by
  induction rest using List.reverseRecOn generalizing disk with
  | nil => exact absurd rfl hrest
  | append_singleton rest name ih =>
    rw [← List.append_assoc] at h
    have habove := disk.parent (dir ++ rest) name (Or.inl h)
    -- The directories above a directory are directories.
    clear ih hrest h
    induction rest using List.reverseRecOn with
    | nil => rwa [List.append_nil] at habove
    | append_singleton rest' name' ih' =>
      rw [← List.append_assoc] at habove
      exact ih' (disk.parent (dir ++ rest') name' (Or.inr habove))

/-! ### What a call leaves alone -/

/-- A write changes one file and no directory. -/
theorem writeFile_frame (bytes : List UInt8) (fault : Option Fault) :
    (disk.writeFile path bytes fault).2.dir = disk.dir ∧
      (q ≠ path → (disk.writeFile path bytes fault).2.file q = disk.file q) := by
  unfold writeFile
  by_cases h : disk.dir path.dropLast = true ∧ disk.dir path = false
  · rw [dif_pos h]
    exact ⟨rfl, fun hne => Function.update_of_ne hne _ _⟩
  · rw [dif_neg h]
    exact ⟨rfl, fun _ => rfl⟩

/-- A write to a file that is there. -/
theorem writeFile_existing {old : List UInt8} (hold : disk.file path = some old)
    (hpath : path ≠ []) (bytes : List UInt8) (fault : Option Fault) :
    (disk.writeFile path bytes fault).1 = fault.isNone ∧
      (disk.writeFile path bytes fault).2.file path = write (some old) bytes fault := by
  have hparent : disk.dir path.dropLast = true := by
    refine dir_of_prefix (List.cons_ne_nil (path.getLast hpath) []) ?_
    rw [List.dropLast_append_getLast hpath, hold]
    rfl
  have hfree : disk.dir path = false := by
    rw [Bool.eq_false_iff]
    intro hdir
    rw [disk.apart path hdir] at hold
    exact nomatch hold
  unfold writeFile
  rw [dif_pos ⟨hparent, hfree⟩]
  refine ⟨rfl, ?_⟩
  show Function.update disk.file path _ path = _
  rw [Function.update_self, hold]

/-- Creating directories changes no file. -/
theorem createDirAll_file (fault : Option Nat) :
    (disk.createDirAll path fault).2.file = disk.file := by
  unfold createDirAll
  split <;> rfl

/-- Trying to write changes one file and no directory. -/
theorem probe_frame (faults : ProbeFaults) :
    (disk.probe path faults).dir = disk.dir ∧
      (q ≠ path → (disk.probe path faults).file q = disk.file q) := by
  have hframe := @writeFile_frame disk path q probeBytes faults.write
  unfold probe
  rcases hwrite : disk.writeFile path probeBytes faults.write with ⟨done, after⟩
  rw [hwrite] at hframe
  cases done with
  | false => exact hframe
  | true =>
    dsimp only
    by_cases hstays : faults.stays = true
    · rw [if_pos hstays]
      exact hframe
    · rw [if_neg hstays]
      refine ⟨hframe.1, fun hne => ?_⟩
      show Function.update after.file path none q = disk.file q
      rw [Function.update_of_ne hne]
      exact hframe.2 hne

end FileTree

/-- A try leaves these contents of the file as they are. -/
def ProbeFaults.spares (faults : ProbeFaults) (old : List UInt8) : Prop :=
  FileWrite.write (some old) probeBytes faults.write = some old ∧
    (faults.write = none → faults.stays = true)

/-- A try at a file that is there leaves it as it was exactly when it spares it. -/
theorem FileTree.probe_existing {disk : FileTree} {path : TreePath} {old : List UInt8}
    (hold : disk.file path = some old) (hpath : path ≠ []) (faults : ProbeFaults) :
    (disk.probe path faults).file path = some old ↔ faults.spares old := by
  -- The write says if the try came to its end; only then the file is removed again.
  obtain ⟨hdone, hfile⟩ := FileTree.writeFile_existing hold hpath probeBytes faults.write
  unfold FileTree.probe ProbeFaults.spares
  rcases hwrite : disk.writeFile path probeBytes faults.write with ⟨done, after⟩
  rw [hwrite] at hdone hfile
  dsimp only at hdone hfile
  cases hfault : faults.write with
  | none =>
    rw [hfault] at hdone hfile
    rw [hdone]
    dsimp only [Option.isNone_none]
    -- The removal can fail, and then the file stays as it was written.
    by_cases hstays : faults.stays = true
    · rw [if_pos hstays, hfile]
      exact ⟨fun h => ⟨h, fun _ => hstays⟩, fun h => h.1⟩
    · rw [if_neg hstays]
      refine iff_of_false ?_ fun h => hstays (h.2 rfl)
      show Function.update after.file path none path ≠ some old
      rw [Function.update_self]
      exact fun h => nomatch h
  | some fault =>
    -- Without the write nothing is removed.
    rw [hfault] at hdone hfile
    rw [hdone]
    dsimp only [Option.isNone_some]
    rw [hfile]
    exact ⟨fun h => ⟨h, fun hnone => nomatch hnone⟩, fun h => h.1⟩

/-! ### The files of others -/

/-- A path that is the output path or under it, and is no file of the bundle. -/
def Foreign (out path : TreePath) : Prop :=
  out <+: path ∧ ∀ name ∈ bundleNames, path ≠ out ++ name

namespace FeedbackRun

/-- The file is there, with the same contents, after every step of the run. -/
structure Untouched (run : FeedbackRun) (disk : FileTree) (path : TreePath) (old : List UInt8) :
    Prop where
  checked : (run.checkAll disk).file path = some old
  bundled : (run.bundle disk).2.file path = some old
  finished : (feedback run disk).2.file path = some old

/-- The run leaves the files of others alone. -/
def KeepsOthers (run : FeedbackRun) (disk : FileTree) : Prop :=
  ∀ path old, Foreign run.out path → disk.file path = some old → run.Untouched disk path old

/-- The disk after a removal that failed. -/
def refused (run : FeedbackRun) (disk : FileTree) : FileTree :=
  if disk.dir run.out then (run.checkAll disk).prune run.out (run.faults.removal.getD .nothing)
  else run.checkAll disk

/-- What it takes for a file to be left alone. -/
structure Spared (run : FeedbackRun) (disk : FileTree) (path : TreePath) (old : List UInt8) :
    Prop where
  /-- It is not the file that the check of the temporary directory writes, or is spared by it. -/
  temp : path = tempProbe run.tempDir run.pid → run.tempFaults.spares old
  /-- It is not the file that the check of the runtime directory writes, or is spared by it. -/
  runtime : ∀ dir, run.runtimeDir (run.checkTempDir disk) = some dir →
    path = doctorProbe dir → run.runtimeFaults.spares old
  /-- The output path is no directory, or removing it fails and leaves the file. -/
  removal : disk.dir run.out = true →
    ∃ left, run.faults.removal = some left ∧ left.keeps path = true
  /-- It is not the error log that the failure is recorded in, or recording leaves it as it was. -/
  recorded : ∀ dir, run.runtimeDir (run.refused disk) = some dir → path = errorsPath dir →
    write (some old) (errorLog (some old) run.errorLine) run.recordFault = some old

section Steps

variable {run : FeedbackRun} {disk : FileTree} {path : TreePath} {old : List UInt8}

/-- The checks change no directory. -/
theorem dir_checkAll : (run.checkAll disk).dir = disk.dir := by
  have htemp : (run.checkTempDir disk).dir = disk.dir :=
    (@FileTree.probe_frame disk _ [] run.tempFaults).1
  unfold checkAll
  dsimp only
  cases run.runtimeDir (run.checkTempDir disk) with
  | none => exact htemp
  | some dir =>
    dsimp only
    split
    · rw [(@FileTree.probe_frame (run.checkTempDir disk) _ [] run.runtimeFaults).1, htemp]
    · exact htemp

/-- The two files that the checks write have different names. -/
theorem tempProbe_ne_doctorProbe (tempDir dir : TreePath) (pid : UInt32) :
    tempProbe tempDir pid ≠ doctorProbe dir := by
  intro h
  unfold tempProbe doctorProbe at h
  have hlast := (List.append_inj' h rfl).2
  exact absurd (List.cons_eq_cons.mp (List.cons_eq_cons.mp hlast).1).1 (by decide)

/-- What the second try does to the disk. -/
theorem checkAll_of_runtimeDir {dir : TreePath}
    (hdir : run.runtimeDir (run.checkTempDir disk) = some dir) :
    run.checkAll disk = if (run.checkTempDir disk).has dir
      then (run.checkTempDir disk).probe (doctorProbe dir) run.runtimeFaults
      else run.checkTempDir disk := by
  unfold checkAll
  dsimp only
  rw [hdir]

/-- Without a collection there is no second try. -/
theorem checkAll_of_none (hnone : run.runtimeDir (run.checkTempDir disk) = none) :
    run.checkAll disk = run.checkTempDir disk := by
  unfold checkAll
  dsimp only
  rw [hnone]

/-- The second try touches its own file only. -/
theorem file_checkAll_of_ne
    (hne : ∀ dir, run.runtimeDir (run.checkTempDir disk) = some dir → path ≠ doctorProbe dir) :
    (run.checkAll disk).file path = (run.checkTempDir disk).file path := by
  cases hdir : run.runtimeDir (run.checkTempDir disk) with
  | none => rw [checkAll_of_none hdir]
  | some dir =>
    rw [checkAll_of_runtimeDir hdir]
    by_cases hhas : (run.checkTempDir disk).has dir = true
    · rw [if_pos hhas]
      exact (FileTree.probe_frame run.runtimeFaults).2 (hne dir hdir)
    · rw [if_neg hhas]

/-- The checks leave a file alone exactly when both tries do. -/
theorem file_checkAll_iff (hold : disk.file path = some old) :
    (run.checkAll disk).file path = some old ↔
      (path = tempProbe run.tempDir run.pid → run.tempFaults.spares old) ∧
      ∀ dir, run.runtimeDir (run.checkTempDir disk) = some dir →
        path = doctorProbe dir → run.runtimeFaults.spares old := by
  -- No path is both of the two tries, so that at most one of them can touch the file.
  by_cases htemp : path = tempProbe run.tempDir run.pid
  · have hnot : ∀ dir, run.runtimeDir (run.checkTempDir disk) = some dir →
        path ≠ doctorProbe dir := by
      intro dir _ hdoctor
      exact tempProbe_ne_doctorProbe _ _ _ (htemp.symm.trans hdoctor)
    have hfirst : (run.checkTempDir disk).file path = some old ↔ run.tempFaults.spares old := by
      rw [htemp] at hold ⊢
      exact FileTree.probe_existing hold (List.append_ne_nil_of_right_ne_nil _ (by simp)) _
    rw [file_checkAll_of_ne hnot, hfirst]
    exact ⟨fun h => ⟨fun _ => h, fun dir hdir hdoctor => absurd hdoctor (hnot dir hdir)⟩,
      fun h => h.1 htemp⟩
  · have hmiddle : (run.checkTempDir disk).file path = some old := by
      rw [← hold]
      exact (FileTree.probe_frame run.tempFaults).2 htemp
    rw [and_iff_right (fun h => absurd h htemp)]
    cases hdir : run.runtimeDir (run.checkTempDir disk) with
    | none =>
      rw [checkAll_of_none hdir]
      exact iff_of_true hmiddle fun dir h => nomatch h
    | some dir =>
      by_cases hdoctor : path = doctorProbe dir
      -- The file is there, and so is the directory that it is in.
      · have hhas : (run.checkTempDir disk).has dir = true := by
          rw [hdoctor] at hmiddle
          have hparent := (run.checkTempDir disk).parent dir _ (Or.inl (by
            rw [show dir ++ [".doctor-probe".toList] = doctorProbe dir from rfl, hmiddle]
            rfl))
          rw [FileTree.has, hparent, Bool.or_true]
        rw [checkAll_of_runtimeDir hdir, if_pos hhas]
        have hprobe : ((run.checkTempDir disk).probe (doctorProbe dir) run.runtimeFaults).file path
            = some old ↔ run.runtimeFaults.spares old := by
          rw [hdoctor] at hmiddle ⊢
          exact FileTree.probe_existing hmiddle (List.append_ne_nil_of_right_ne_nil _ (by simp)) _
        rw [hprobe]
        refine ⟨fun h other hother _ => h, fun h => h dir rfl hdoctor⟩
      -- The path is the try of no directory.
      · have hnot : ∀ other, run.runtimeDir (run.checkTempDir disk) = some other →
            path ≠ doctorProbe other := by
          intro other hother
          rw [← Option.some.inj (hdir.symm.trans hother)]
          exact hdoctor
        rw [file_checkAll_of_ne hnot]
        refine iff_of_true hmiddle fun other hother hsame => absurd hsame ?_
        rw [← Option.some.inj hother]
        exact hdoctor

/-- Writing the files of the bundle changes no other file. -/
theorem writeFiles_frame {dir : TreePath} {faults : TreePath → FileFaults} {files : List BundleFile}
    (hfiles : ∀ file ∈ files, path ≠ dir ++ file.path) (disk : FileTree) :
    (writeFiles dir faults files disk).2.file path = disk.file path := by
  -- By induction on the files of the bundle; the first failure stops the rest.
  induction files generalizing disk with
  | nil => rfl
  | cons file rest ih =>
    unfold writeFiles
    dsimp only
    have hmake := congrFun (@FileTree.createDirAll_file disk (dir ++ file.path).dropLast
      (faults file.path).parent) path
    rcases hcreate : disk.createDirAll (dir ++ file.path).dropLast (faults file.path).parent
      with ⟨made, after⟩
    rw [hcreate] at hmake
    -- The directory could not be made, and the loop stops.
    cases made with
    | false => exact hmake
    | true =>
      dsimp only at hmake ⊢
      have hput := (@FileTree.writeFile_frame after (dir ++ file.path) path file.contents
        (faults file.path).write).2 (hfiles file List.mem_cons_self)
      rcases hwrite : after.writeFile (dir ++ file.path) file.contents (faults file.path).write
        with ⟨written, after'⟩
      rw [hwrite] at hput
      -- The file could not be written, and the loop stops.
      cases written with
      | false =>
        dsimp only at hput ⊢
        rw [hput, hmake]
      | true =>
        dsimp only at hput ⊢
        rw [ih (fun other hother => hfiles other (List.mem_cons_of_mem file hother)), hput, hmake]

/-- What is at the output path or under it makes the output path one that is there. -/
theorem has_out (hforeign : Foreign run.out path) (hold : disk.file path = some old) :
    (disk.dir run.out = true ∨ path = run.out) ∧ disk.has run.out = true := by
  obtain ⟨rest, hrest⟩ := hforeign.1
  by_cases hempty : rest = []
  · rw [hempty, List.append_nil] at hrest
    refine ⟨Or.inr hrest.symm, ?_⟩
    rw [FileTree.has, hrest, hold]
    rfl
  · have hdir : disk.dir run.out = true := by
      refine FileTree.dir_of_prefix hempty ?_
      rw [hrest, hold]
      rfl
    exact ⟨Or.inl hdir, by rw [FileTree.has, hdir, Bool.or_true]⟩

/-- A removal that succeeds takes the file of another with it, and nothing brings it back. -/
theorem file_bundle_removed (hforeign : Foreign run.out path)
    (hdir : (run.checkAll disk).dir run.out = true) (hremoval : run.faults.removal = none) :
    (run.bundle disk).2.file path = none := by
  have hfiles : ∀ file ∈ bundleFiles run.contents, path ≠ run.out ++ file.path := by
    intro file hfile
    obtain ⟨name, hname, rfl⟩ := List.mem_map.mp hfile
    exact hforeign.2 name hname
  have hgone : ((run.checkAll disk).prune run.out .nothing).file path = none :=
    if_pos ⟨hforeign.1, rfl⟩
  have hhas : (run.checkAll disk).has run.out = true := by rw [FileTree.has, hdir, Bool.or_true]
  unfold bundle writeBundle FileTree.removeDirAll
  rw [if_pos hhas, if_pos hdir, hremoval]
  dsimp only
  have hmake := congrFun (@FileTree.createDirAll_file ((run.checkAll disk).prune run.out .nothing)
    run.out run.faults.create) path
  rcases hcreate : ((run.checkAll disk).prune run.out .nothing).createDirAll run.out
    run.faults.create with ⟨made, after⟩
  rw [hcreate] at hmake
  cases made with
  | false => exact hmake.trans hgone
  | true => exact (writeFiles_frame hfiles after).trans (hmake.trans hgone)

/-- A removal that fails ends the writing of the bundle. -/
theorem bundle_refused (hhas : (run.checkAll disk).has run.out = true)
    (hfails : disk.dir run.out = true → run.faults.removal ≠ none) :
    run.bundle disk = (false, run.refused disk) := by
  unfold bundle writeBundle FileTree.removeDirAll refused
  rw [if_pos hhas, dir_checkAll]
  by_cases hdir : disk.dir run.out = true
  · rw [if_pos hdir, if_pos hdir]
    cases hremoval : run.faults.removal with
    | none => exact absurd hremoval (hfails hdir)
    | some left => rfl
  · rw [if_neg hdir, if_neg hdir]

/-- The bundle leaves a file alone exactly when the removal fails and leaves it. -/
theorem file_bundle_iff (hforeign : Foreign run.out path)
    (hold : (run.checkAll disk).file path = some old) :
    (run.bundle disk).2.file path = some old ↔
      (disk.dir run.out = true → ∃ left, run.faults.removal = some left ∧
        left.keeps path = true) := by
  have hhas := (has_out hforeign hold).2
  -- The directory is removed first when it exists; a file below it goes with it.
  by_cases hdir : disk.dir run.out = true
  · cases hremoval : run.faults.removal with
    | none =>
      have hdir' : (run.checkAll disk).dir run.out = true := by rw [dir_checkAll, hdir]
      rw [file_bundle_removed hforeign hdir' hremoval]
      refine iff_of_false (fun h => nomatch h) fun h => ?_
      obtain ⟨left, hleft, -⟩ := h hdir
      exact nomatch hleft
    | some left =>
      rw [bundle_refused hhas fun _ => by rw [hremoval]; exact Option.some_ne_none left]
      unfold refused
      rw [if_pos hdir, hremoval]
      show (if run.out <+: path ∧ left.keeps path = false then none
        else (run.checkAll disk).file path) = some old ↔ _
      -- The removal failed and left this file, or took it along.
      by_cases hkeeps : left.keeps path = true
      · rw [if_neg (by rw [hkeeps]; exact fun h => Bool.noConfusion h.2)]
        exact iff_of_true hold fun _ => ⟨left, rfl, hkeeps⟩
      · rw [if_pos ⟨hforeign.1, Bool.eq_false_of_not_eq_true hkeeps⟩]
        refine iff_of_false (fun h => nomatch h) fun h => ?_
        obtain ⟨other, hother, hkept⟩ := h hdir
        rw [← Option.some.inj hother] at hkept
        exact hkeeps hkept
  · rw [bundle_refused hhas fun h => absurd h hdir, refused, if_neg hdir]
    -- Nothing was there to be removed.
    exact iff_of_true hold fun h => absurd h hdir

/-- Recording a failure leaves a file alone exactly when it is not the error log, or the log stays
as it was. -/
theorem file_record_iff (hold : disk.file path = some old) :
    (run.record disk).file path = some old ↔
      ∀ dir, run.runtimeDir disk = some dir → path = errorsPath dir →
        write (some old) (errorLog (some old) run.errorLine) run.recordFault = some old := by
  unfold record
  cases hdir : run.runtimeDir disk with
  | none => exact iff_of_true hold fun dir h => nomatch h
  | some dir =>
    dsimp only
    unfold recordError
    -- The log is the only file that the recording writes.
    by_cases hpath : path = errorsPath dir
    -- The log was there, so that its directory is there too.
    · have hthere : disk.dir dir = true := by
        refine disk.parent dir "errors.jsonl".toList (Or.inl ?_)
        rw [show dir ++ ["errors.jsonl".toList] = errorsPath dir from rfl, ← hpath, hold]
        rfl
      rw [if_pos hthere]
      dsimp only
      rw [← hpath, hold]
      have hne : path ≠ [] := by
        rw [hpath]
        exact List.append_ne_nil_of_right_ne_nil _ (by simp)
      rw [(FileTree.writeFile_existing hold hne _ run.recordFault).2]
      exact ⟨fun h _ _ _ => h, fun h => h dir rfl hpath⟩
    · refine iff_of_true ?_ fun other hother hsame => absurd hsame ?_
      · split
        · rw [(FileTree.writeFile_frame _ run.recordFault).2 hpath, hold]
        · exact hold
      · rw [← Option.some.inj hother]
        exact hpath

/-- A file of another is left alone exactly when every step spares it. -/
theorem untouched_iff (hforeign : Foreign run.out path) (hold : disk.file path = some old) :
    run.Untouched disk path old ↔ run.Spared disk path old := by
  -- When bundle and checks leave the file alone the bundle was refused, and only the recording is
  -- left.
  have hfinish : (run.bundle disk).2.file path = some old →
      (run.checkAll disk).file path = some old →
      ((feedback run disk).2.file path = some old ↔
        ∀ dir, run.runtimeDir (run.refused disk) = some dir → path = errorsPath dir →
          write (some old) (errorLog (some old) run.errorLine) run.recordFault = some old) := by
    intro hbundled hchecked
    have hremoval := (file_bundle_iff hforeign hchecked).mp hbundled
    have hrefused : run.bundle disk = (false, run.refused disk) := by
      refine bundle_refused (has_out hforeign hchecked).2 fun hdir => ?_
      obtain ⟨left, hleft, -⟩ := hremoval hdir
      rw [hleft]
      exact Option.some_ne_none left
    rw [hrefused] at hbundled
    unfold feedback
    rw [hrefused]
    exact file_record_iff hbundled
  constructor
  -- Each step is read off the state behind it.
  · intro h
    obtain ⟨htemp, hruntime⟩ := (file_checkAll_iff hold).mp h.checked
    exact ⟨htemp, hruntime, (file_bundle_iff hforeign h.checked).mp h.bundled,
      (hfinish h.bundled h.checked).mp h.finished⟩
  · intro h
    have hchecked := (file_checkAll_iff hold).mpr ⟨h.temp, h.runtime⟩
    have hbundled := (file_bundle_iff hforeign hchecked).mpr h.removal
    exact ⟨hchecked, hbundled, (hfinish hbundled hchecked).mpr h.recorded⟩

end Steps

/-- **A bundle destroys the files of others unless its removal fails.** For every disk, every output
path and every point at which a step fails: the files that were at the output path or under it, and
are not of the bundle, are there with the same contents after every step, if and only if each of
them is spared. -/
theorem keepsOthers_iff (run : FeedbackRun) (disk : FileTree) :
    run.KeepsOthers disk ↔ ∀ path old, Foreign run.out path → disk.file path = some old →
      run.Spared disk path old := by
  constructor
  · intro h path old hforeign hold
    exact (untouched_iff hforeign hold).mp (h path old hforeign hold)
  · intro h path old hforeign hold
    exact (untouched_iff hforeign hold).mpr (h path old hforeign hold)

end FeedbackRun

/-! ### A directory with a file of its own -/

/-- The directory. -/
def homeDir : TreePath := ["home".toList]

/-- Its file. -/
def notesPath : TreePath := homeDir ++ ["notes.txt".toList]

/-- A disk with that file. -/
def notesDisk : FileTree where
  file path := if path = notesPath then some (Utf8.encode "hi".toList) else none
  dir path := path = [] ∨ path = homeDir
  parent path name h := by
    have hcases : path ++ [name] = notesPath ∨ path ++ [name] = homeDir := by
      rcases h with hfile | hdir
      · refine Or.inl ?_
        by_contra hne
        rw [if_neg hne] at hfile
        exact absurd hfile Bool.false_ne_true
      · exact Or.inr ((of_decide_eq_true hdir).resolve_left (by simp))
    refine decide_eq_true ?_
    rcases hcases with hnotes | hhome
    · exact Or.inr (List.append_inj' hnotes rfl).1
    · have hsplit : path ++ [name] = [] ++ ["home".toList] := hhome
      exact Or.inl (List.append_inj' hsplit rfl).1
  apart path h := by
    refine if_neg ?_
    rintro rfl
    exact absurd h (by decide)

/-- Writing the bundle to the directory removes its file. -/
theorem not_keepsOthers_home :
    ¬ FeedbackRun.KeepsOthers { out := homeDir, contents := fun _ => [], tempDir := [] }
      notesDisk := by
  intro h
  have hforeign : Foreign homeDir notesPath := by
    refine ⟨List.prefix_append _ _, fun name hname => ?_⟩
    have hall : ∀ name ∈ bundleNames, notesPath ≠ homeDir ++ name := by decide
    exact hall name hname
  have hnotes : notesDisk.file notesPath = some (Utf8.encode "hi".toList) := by
    decide +kernel
  have hfile := (h notesPath _ hforeign hnotes).finished
  rw [show (feedback { out := homeDir, contents := fun _ => [], tempDir := [] } notesDisk).2.file
    notesPath = none by decide +kernel] at hfile
  exact nomatch hfile

end Gabriel.Cli
