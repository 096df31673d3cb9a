import Gabriel.Core.Numbers
import Gabriel.Proxy.Store

/-!
# `Gabriel.Cli.CaptureSummary`: what the support bundle says about the traffic

`collect_capture_summary` of `gabriel-cli/src/main.rs`, and `captures_json` and `json_string` of
`gabriel-cli/src/feedback.rs`: the contents of `logs/captures-summary.json`.

The definitions:

* `collectCaptureSummary`: count the captures of a log by host and by status.
* `summaryHost`: the host of a URL as the summary shows it.
* `jsonString`: a JSON string, written by hand.
* `capturesJson`: the file, line by line.
-/

set_option autoImplicit false

namespace Gabriel.Cli

open Gabriel.Core Gabriel.Proxy Text

/-! ### The counts -/

/-- Counts only. -/
structure CaptureSummary where
  total : Nat := 0
  byHost : SortedMap Text Nat := SortedMap.empty
  byStatus : SortedMap Nat Nat := SortedMap.empty
  oldestMs : Option UInt64 := none
  newestMs : Option UInt64 := none

/-- The host of a URL, as the summary reads it: from `://` to the next `/`. -/
def summaryHost (url : Text) : Text :=
  match (splitSeq "://".toList url)[1]? with
  | some rest => rest.takeWhile (· ≠ '/')
  | none => "unknown".toList

/-- Count a key. -/
def countKey {κ : Type} [LinearOrder κ] (map : SortedMap κ Nat) (key : κ) : SortedMap κ Nat :=
  map.insert key ((map.get? key).getD 0 + 1)

/-- Count a capture. -/
def CaptureSummary.add (summary : CaptureSummary) (capture : Capture) : CaptureSummary :=
  { summary with
    byHost := countKey summary.byHost (summaryHost capture.request.url)
    byStatus := match capture.status with
      | some status => countKey summary.byStatus status.toNat
      | none => summary.byStatus
    oldestMs := some ((summary.oldestMs.map (min · capture.atMs)).getD capture.atMs)
    newestMs := some ((summary.newestMs.map (max · capture.atMs)).getD capture.atMs) }

/-- The summary of a log, or `none` while there is no log. -/
def collectCaptureSummary (parse : List UInt8 → Option Capture) (file : Option (List UInt8)) :
    Option CaptureSummary :=
  if file = none then none
  else
    let captures := CaptureStore.list parse file {} usizeMax
    some (captures.foldl CaptureSummary.add { total := captures.length })

/-! ### The file -/

/-- One character of a JSON string. -/
def jsonChar (c : Char) : Text :=
  if c = '"' then ['\\', '"']
  else if c = '\\' then ['\\', '\\']
  else if c = '\n' then ['\\', 'n']
  else if c = '\r' then ['\\', 'r']
  else if c = '\t' then ['\\', 't']
  else if c.toNat < 0x20 then '\\' :: 'u' :: paddedHex 4 c.toNat
  else [c]

/-- A JSON string. -/
def jsonString (value : Text) : Text := '"' :: value.flatMap jsonChar ++ ['"']

/-- A time, or `null`. -/
def jsonTime : Option UInt64 → Text
  | some ms => natText ms.toNat
  | none => "null".toList

/-- The line of a host. -/
def hostLine (e : Text × Nat) : Text :=
  "    ".toList ++ jsonString e.1 ++ ": ".toList ++ natText e.2

/-- The line of a status. -/
def statusCountLine (e : Nat × Nat) : Text :=
  "    \"".toList ++ natText e.1 ++ "\": ".toList ++ natText e.2

/-- The contents of `logs/captures-summary.json`. -/
def capturesJson : Option CaptureSummary → Text
  | none =>
    "\x7b\"captures\": null, \"note\": \"no capture log in this collection\"\x7d\n".toList
  | some summary =>
    "\x7b\n  \"total\": ".toList ++ natText summary.total
      ++ ",\n  \"oldest_ms\": ".toList ++ jsonTime summary.oldestMs
      ++ ",\n  \"newest_ms\": ".toList ++ jsonTime summary.newestMs
      ++ ",\n  \"by_host\": \x7b\n".toList
      ++ List.intercalate ",\n".toList (summary.byHost.entries.map hostLine)
      ++ "\n  \x7d,\n  \"by_status\": \x7b\n".toList
      ++ List.intercalate ",\n".toList (summary.byStatus.entries.map statusCountLine)
      ++ "\n  \x7d\n\x7d\n".toList

end Gabriel.Cli
