import Gabriel.Core.Har
import Gabriel.Proxy.Store

/-!
# `Gabriel.Cli.HarExport`: the `har export` command

The export arm of `har_command` in `gabriel-cli/src/main.rs`, up to the value that is written. The
log can be read; a log that cannot be read ends the command before it writes anything.

The definitions:

* `HarExport`: what the command was asked for: a filter and a limit.
* `harExport`: the captures that match, up to the limit, as a HAR; with a comment when the limit was
  reached.
-/

set_option autoImplicit false

namespace Gabriel.Cli

open Gabriel.Core Gabriel.Proxy Text

/-- The options of `har export`. -/
structure HarExport where
  host : Option Text := none
  url : Option Text := none
  method : Option Text := none
  status : Option UInt16 := none
  session : Option Text := none
  limit : Option Nat := none

/-- The filter of an export. -/
def HarExport.filter (args : HarExport) : CaptureFilter :=
  { host := args.host, url := args.url, method := args.method, statusMin := args.status,
    statusMax := none, session := args.session }

/-- The HAR that the command writes. -/
def harExport (b64Decode : Text → Option (List UInt8)) (parse : List UInt8 → Option Capture)
    (file : Option (List UInt8)) (args : HarExport) : Har.Log :=
  -- A file that holds one percent of the log looks complete, so the default is everything.
  let captures := CaptureStore.list parse file args.filter (args.limit.getD usizeMax)
  let truncated := args.limit.any fun n => captures.length = n
  if truncated then Har.exportPartial b64Decode captures (CaptureStore.count parse file)
  else Har.exportAll b64Decode captures

end Gabriel.Cli
