import Gabriel.Proofs.Jar

/-!
# `Gabriel.Engine.SessionFile`: one session file, several processes

`load` and `save` of `gabriel-engine/src/session.rs`. A process reads the whole file once, works
on its copy, and writes the whole copy back: the proxy after every response with cookies,
`gabriel run` and `gabriel session clear` once at their end, and `gabriel ws`, which records
nothing, as well. Nothing holds the file in between.

The file is the store that was written to it, or `none` while it does not exist; reads and writes
succeed, and a file that was written is read back. A process is a number.

The definitions:

* `FileStep`: a process loads the file, changes its copy, or saves it.
* `SessionFile.step`, `SessionFile.run`: the file and the copies after a step, and after many.
* `proxySteps`, `runSteps`: the steps of the commands.
-/

set_option autoImplicit false

namespace Gabriel.Engine

open Gabriel.Core Text

/-- What a process does. -/
inductive FileStep where
  | load (process : Nat)
  | update (process : Nat) (op : JarOp)
  | save (process : Nat)

/-- The file, and the copy of each process. -/
structure SessionFile where
  file : Option SessionStore
  copy : Nat → Option SessionStore

/-- The processes at their start. -/
def SessionFile.start (file : Option SessionStore) : SessionFile := ⟨file, fun _ => none⟩

/-- The store that a load finds. -/
def SessionFile.content (world : SessionFile) : SessionStore := world.file.getD .new

/-- One step. A process that has not loaded has nothing to change or to save. -/
def SessionFile.step (world : SessionFile) : FileStep → SessionFile
  | .load process =>
    { world with copy := Function.update world.copy process (some world.content) }
  | .update process op =>
    { world with
      copy := Function.update world.copy process
        ((world.copy process).map fun store => store.applyOp op) }
  | .save process =>
    match world.copy process with
    | some store => { world with file := some store }
    | none => world

/-- A run of steps. -/
def SessionFile.run (world : SessionFile) (steps : List FileStep) : SessionFile :=
  steps.foldl SessionFile.step world

/-! ### The programs -/

/-- The proxy: it loads once, and saves after each response that it records. -/
def proxySteps (process : Nat) (records : List JarOp) : List FileStep :=
  .load process :: records.flatMap fun record => [.update process record, .save process]

/-- `gabriel run`: it loads, records, and saves at the end. `gabriel ws` is the same with nothing to
record, and `gabriel session clear` with one clearing. -/
def runSteps (process : Nat) (records : List JarOp) : List FileStep :=
  .load process :: records.map (.update process) ++ [.save process]

end Gabriel.Engine
