import Gabriel.Proxy.Store

/-!
# `Gabriel.Proxy.Processes`: one capture log, several processes

`append` and `clear` of `gabriel-proxy/src/store.rs` as the operating system sees them. The lock
of a store is between the threads of one process. To another process an append is two writes, the
line and its newline (`writeln!` on a file), each at the end of the file, and the file is an inode
that a name may or may not lead to.

`Write` is for the first part: what two processes write to one open file. `Disk` is for the
second: the files that the path has named, and the one that it names now. A write that fails
leaves nothing in the file.

The definitions:

* `Append`, `Write`: an append as its two writes.
* `Disk`: the files that the path has named; `openAppend`, `write` and `unlink` are the calls.
* `SharedLog.step`, `SharedLog.run`: the proxy and a process that clears the log.
* `Serial`: the steps that the lock of the proxy allows.
-/

set_option autoImplicit false

namespace Gabriel.Proxy

open Gabriel.Core Text

namespace CaptureStore

/-! ### Writes -/

/-- How an append ends. It stops at the first write that fails. -/
inductive AppendEnd where
  | ok
  | newlineFailed
  | lineFailed
  deriving DecidableEq

/-- An append of a capture. -/
structure Append where
  capture : Capture
  ending : AppendEnd
  deriving DecidableEq

/-- A write that succeeds: the line of an append, or a newline. -/
inductive Write where
  | line (append : Append)
  | newline

/-- The writes of an append. -/
def Append.writes (append : Append) : List Write :=
  match append.ending with
  | .ok => [.line append, .newline]
  | .newlineFailed => [.line append]
  | .lineFailed => []

/-- The bytes of a write. -/
def Write.bytes (render : Capture → List UInt8) : Write → List UInt8
  | .line append => render append.capture
  | .newline => [CaptureStore.newline]

/-- The captures whose append succeeded. -/
def succeeded (appends : List Append) : List Capture :=
  appends.filterMap fun append => if append.ending = .ok then some append.capture else none

/-- A log that does not end in the middle of a line. -/
structure EndedLog where
  bytes : List UInt8
  ended : bytes = [] ∨ ∃ lines, bytes = lines ++ [newline]

/-! ### Files -/

/-- The files that the path has named, and the one that it names now. -/
structure Disk where
  files : List (List UInt8) := []
  linked : Option Nat := none

/-- Open the path for appending; a new file when it names none. -/
def Disk.openAppend (disk : Disk) : Disk × Nat :=
  match disk.linked with
  | some file => (disk, file)
  | none => ({ files := disk.files ++ [[]], linked := some disk.files.length }, disk.files.length)

/-- Bytes at the end of an open file. -/
def Disk.write (disk : Disk) (file : Nat) (bytes : List UInt8) : Disk :=
  { disk with files := disk.files.modify file (· ++ bytes) }

/-- Remove the name. -/
def Disk.unlink (disk : Disk) : Disk := { disk with linked := none }

/-- What a reader of the path finds. -/
def Disk.content (disk : Disk) : Option (List UInt8) := disk.linked.bind (disk.files[·]?)

/-- The disk, and the file that the proxy holds open. -/
structure SharedLog where
  disk : Disk := {}
  writer : Option Nat := none

/-- What happens to the log. An append of the proxy starts and ends; others may clear the log in
between. -/
inductive LogStep where
  | start
  | finish (capture : Capture) (ok : Bool)
  /-- The proxy clears its log. -/
  | ownClear
  /-- Another process clears the log: it has opened nothing. -/
  | otherClear

/-- One step. -/
def SharedLog.step (render : Capture → List UInt8) (log : SharedLog) : LogStep → SharedLog
  | .start =>
    match log.writer with
    | some _ => log
    | none =>
      let opened := log.disk.openAppend
      { disk := opened.1, writer := some opened.2 }
  | .finish capture ok =>
    match log.writer, ok with
    | some file, true => { log with disk := log.disk.write file (lineBytes render capture) }
    | _, _ => log
  | .ownClear => { disk := log.disk.unlink, writer := none }
  | .otherClear => { log with disk := log.disk.unlink }

/-- A run of steps. -/
def SharedLog.run (render : Capture → List UInt8) (log : SharedLog) (steps : List LogStep) :
    SharedLog :=
  steps.foldl (SharedLog.step render) log

/-- The lock: an append of the proxy ends before the next one or a clear of its own. `busy` says
whether one has started. -/
def Serial : Bool → List LogStep → Prop
  | _, [] => True
  | false, .start :: steps => Serial true steps
  | true, .finish _ _ :: steps => Serial false steps
  | false, .ownClear :: steps => Serial false steps
  | busy, .otherClear :: steps => Serial busy steps
  | true, .start :: _ => False
  | false, .finish _ _ :: _ => False
  | true, .ownClear :: _ => False

end CaptureStore

end Gabriel.Proxy
