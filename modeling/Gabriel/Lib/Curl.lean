import Gabriel.Lib.Text

/-!
# `Gabriel.Lib.Curl`: the request of a curl command line

The options `-X`, `-H` and `--data-raw` of curl, and what it adds by itself. An argument that starts
with a dash is an option; the model knows no other ones. A command line without a URL, or with
several, is not one request.

Two more rules of curl are not here: it expands braces and brackets in a URL, and it leaves out a
header whose value is empty.
-/

set_option autoImplicit false

namespace Curl

open Text

/-- What a command line asks for. -/
structure Options where
  method : Option Text := none
  /-- Header lines, in order. -/
  headers : List Text := []
  data : Option Text := none
  urls : List Text := []
  deriving DecidableEq

/-- Whether an argument is an option. -/
def isOption (arg : Text) : Bool := arg.head? = some '-'

/-- A URL among the arguments. -/
def addUrl (o : Options) (arg : Text) : Option Options :=
  if isOption arg then none else some { o with urls := o.urls ++ [arg] }

/-- Read the arguments. An option takes the argument after it, whatever that is. -/
def parseArgs (o : Options) : List Text → Option Options
  | [] => some o
  | [arg] => addUrl o arg
  | arg :: value :: rest =>
    if arg = "-X".toList then parseArgs { o with method := some value } rest
    else if arg = "-H".toList then parseArgs { o with headers := o.headers ++ [value] } rest
    else if arg = "--data-raw".toList then
      parseArgs { o with data := some (o.data.elim value fun data => data ++ '&' :: value) } rest
    else (addUrl o arg).bind fun o => parseArgs o (value :: rest)

/-- A request that curl sends. -/
structure Request where
  method : Text
  url : Text
  /-- The header lines of the command line. -/
  headers : List Text
  /-- The header lines that curl adds, besides those about the connection and the client. -/
  added : List Text
  body : Text
  deriving DecidableEq

/-- Whether a header line is the type of the content. -/
def isContentType (line : Text) : Bool :=
  eqIgnoreAsciiCase (line.takeWhile (· ≠ ':')) "content-type".toList

/-- The request of some options: `POST` when there is data, and the data is a form unless a header
says otherwise. -/
def Options.request (o : Options) : Option Request :=
  match o.urls with
  | [url] => some {
      method := o.method.getD (if o.data.isSome then "POST".toList else "GET".toList)
      url
      headers := o.headers
      added := if o.data.isSome && !o.headers.any isContentType then
        ["Content-Type: application/x-www-form-urlencoded".toList] else []
      body := o.data.getD [] }
  | _ => none

/-- The request of a command. -/
def perform : List Text → Option Request
  | [] => none
  | program :: args =>
    if program = "curl".toList then (parseArgs {} args).bind Options.request else none

end Curl
