import Gabriel.Core.Capture
import Gabriel.Lib.Visit

/-!
# `Gabriel.Proxy.Store`: the capture log

`append` and the queries of `gabriel-proxy/src/store.rs`. The log is newline-delimited JSON, and
every query reads it backwards in chunks. The file is its bytes, or `none` while it does not
exist; reads of it succeed. `render` and `parse` are the JSON encoder and decoder of one line.

A write that fails may have put a part of its bytes into the file: `tearAppend` is an `append`
that failed after `n` bytes.

The definitions:

* `scanBackwards`: the reverse scan, chunk by chunk (`scanLoop`), with a visitor that may stop it.
* `list`, `get`, `count`: the queries.
* `append`, `tearAppend`: an append that succeeds, and one that fails midway.
-/

set_option autoImplicit false

namespace Gabriel.Proxy

open Gabriel.Core Text Visit

/-- What to include when listing captures. -/
structure CaptureFilter where
  /-- Substring match against the host. -/
  host : Option Text := none
  /-- Substring match against the full URL. -/
  url : Option Text := none
  method : Option Text := none
  statusMin : Option UInt16 := none
  statusMax : Option UInt16 := none
  session : Option Text := none

/-- Whether a capture passes the filter. -/
def CaptureFilter.matchesCapture (filter : CaptureFilter) (capture : Capture) : Bool :=
  if filter.host.any fun host => ¬ host <:+: capture.host then false
  else if filter.url.any fun url => ¬ url <:+: capture.request.url then false
  else if filter.method.any fun method => !eqIgnoreAsciiCase capture.request.method method then
    false
  else if filter.session.any fun session => capture.session ≠ some session then false
  else match capture.status, filter.statusMin, filter.statusMax with
    | _, none, none => true
    | some status, min, max => min.getD 0 ≤ status ∧ status ≤ max.getD 65535
    | none, _, _ => false

namespace CaptureStore

/-- The byte that ends a line. -/
def newline : UInt8 := 0x0A

/-- Bytes read at a time. -/
def chunkSize : Nat := 64 * 1024

/-- The capture of one line. An empty line has none. -/
def parseLine (parse : List UInt8 → Option Capture) (line : List UInt8) : Option Capture :=
  if line = [] then none else parse line

section Scan

variable {σ : Type}

/-- Visit the lines of a chunk from the last one to the first. -/
def visitLines (parse : List UInt8 → Option Capture) (visit : σ → Capture → σ × Bool) (s : σ)
    (complete : List UInt8) : σ × Bool :=
  visitWhile (visitSome (parseLine parse) visit) s (complete.splitOn newline).reverse

/-- Visit what is left: the first line of the file. -/
def visitFirstLine (parse : List UInt8 → Option Capture) (visit : σ → Capture → σ × Bool) (s : σ)
    (tail : List UInt8) : σ :=
  (visitSome (parseLine parse) visit s tail).1

/-- The chunk loop. `remaining` bytes are still to read, and `tail` holds the head of a line
whose start lies in them. -/
def scanLoop (parse : List UInt8 → Option Capture) (visit : σ → Capture → σ × Bool)
    (content : List UInt8) (remaining : Nat) (tail : List UInt8) (s : σ) : σ :=
  if hpos : remaining = 0 then visitFirstLine parse visit s tail
  else
    let readSize := min chunkSize remaining
    let rest := remaining - readSize
    have : rest < remaining := by
      show remaining - min chunkSize remaining < remaining
      unfold chunkSize
      omega
    let chunk := (content.drop rest).take readSize ++ tail
    match splitOnce [newline] chunk with
    | some (carry, complete) =>
      let visited := visitLines parse visit s complete
      if visited.2 then scanLoop parse visit content rest carry visited.1 else visited.1
    | none =>
      -- One partial line, unless this is the start of the file.
      if 0 < rest then scanLoop parse visit content rest chunk s
      else
        let visited := visitLines parse visit s chunk
        if visited.2 then scanLoop parse visit content rest [] visited.1 else visited.1
termination_by remaining

/-- Walk the log newest first, handing each capture to `visit` until it answers `false`. -/
def scanBackwards (parse : List UInt8 → Option Capture) (visit : σ → Capture → σ × Bool)
    (file : Option (List UInt8)) (s : σ) : σ :=
  match file with
  | none => s
  | some content => scanLoop parse visit content content.length [] s

end Scan

/-- Most recent first, at most `limit`. -/
def list (parse : List UInt8 → Option Capture) (file : Option (List UInt8))
    (filter : CaptureFilter) (limit : Nat) : List Capture :=
  if limit = 0 then []
  else scanBackwards parse (collect filter.matchesCapture limit) file []

/-- One capture by its id, or by a prefix of it: the newest that fits. -/
def get (parse : List UInt8 → Option Capture) (file : Option (List UInt8)) (id : Text) :
    Option Capture :=
  scanBackwards parse
    (fun found capture =>
      if capture.id = id ∨ id <+: capture.id then (some capture, false) else (found, true))
    file none

/-- The number of captures. -/
def count (parse : List UInt8 → Option Capture) (file : Option (List UInt8)) : Nat :=
  scanBackwards parse (fun total _ => (total + 1, true)) file 0

/-! ### The writer -/

/-- A store and its file. -/
structure Log where
  file : Option (List UInt8)
  /-- Whether the store holds the file open. -/
  isOpen : Bool
  /-- An open file exists. -/
  exists_of_open : isOpen = true → file.isSome = true

/-- A store that has not opened its file, which does not exist. -/
def Log.new : Log := ⟨none, false, fun h => absurd h (by decide)⟩

/-- The file, opened for appending and created when it does not exist. -/
def Log.opened (log : Log) : Log :=
  if log.isOpen then log else ⟨some (log.file.getD []), true, fun _ => rfl⟩

/-- Bytes at the end of the open file. -/
def Log.write (log : Log) (bytes : List UInt8) : Log where
  file := log.file.map (· ++ bytes)
  isOpen := log.isOpen
  exists_of_open h := by
    rw [Option.isSome_map]
    exact log.exists_of_open h

/-- A new store for the same file. -/
def Log.reopened (log : Log) : Log := ⟨log.file, false, fun h => absurd h (by decide)⟩

/-- What an append writes. -/
def lineBytes (render : Capture → List UInt8) (capture : Capture) : List UInt8 :=
  render capture ++ [newline]

/-- Append one capture. -/
def append (render : Capture → List UInt8) (log : Log) (capture : Capture) : Log :=
  log.opened.write (lineBytes render capture)

/-- An append that failed after `n` bytes. -/
def tearAppend (render : Capture → List UInt8) (log : Log) (capture : Capture) (n : Nat) : Log :=
  log.opened.write ((lineBytes render capture).take n)

end CaptureStore

end Gabriel.Proxy
