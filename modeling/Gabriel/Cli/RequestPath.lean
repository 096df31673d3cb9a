import Gabriel.Core.Capture

/-!
# `Gabriel.Cli.RequestPath`: the paths of request files

`slugify`, `sanitize_request_path` and `looks_absolute` of `gabriel-collection/src/lib.rs`, and the
errors of that crate.

`sanitize_request_path` takes its input apart with `Path::components` and asks
`Path::is_absolute`, which follow the platform that the program is compiled for. `PathRules` names
the two sets of rules. What stands before the first component, a root or a drive or a share, is one
`anchor` here: the code refuses every kind of it.

The definitions:

* `slugify`: a path of any text.
* `components`: the components of a path, by the rules of a platform.
* `looksAbsolute`: what the code takes for an absolute path.
* `sanitizeRequestPath`: a path under `requests/`, or why there is none.
-/

set_option autoImplicit false

namespace Gabriel.Cli

open Gabriel.Core Text

/-- What reading or writing a collection can fail with. -/
inductive CollectionError where
  | notFound (start : Text)
  | io (path message : Text)
  | parse (path message : Text)
  | noSuchRequest (query : Text)
  | ambiguousRequest (query : Text) (candidates : List Text)
  | noSuchEnvironment (name : Text) (available : List Text)
  | unsafePath (path : Text)
  deriving DecidableEq

/-- Drop every occurrence of a pattern at the end. -/
def trimEndMatches (pat t : Text) : Text :=
  (trimStartMatches pat.reverse t.length t.reverse).reverse

/-- The extension of a request file. -/
def tomlSuffix : Text := ".toml".toList

/-- Turn `POST /v1/users` into `post-v1-users`. A run of other characters is one dash. -/
def slugify (input : Text) : Text :=
  let out := input.foldl
    (fun (out : Text × Bool) ch =>
      if ch.isAlphanum then (out.1 ++ [ch.toLower], false)
      else if out.2 then out
      else (out.1 ++ ['-'], true))
    ([], true)
  let trimmed := trimMatches '-' out.1
  if trimmed = [] then "request".toList else trimmed

/-! ### Paths of a platform -/

/-- The rules that a path is read by. -/
inductive PathRules where
  | unix
  | windows
  deriving DecidableEq

/-- One part of a path. -/
inductive PathComponent where
  /-- A root, a drive or a share. -/
  | anchor
  | curDir
  | parentDir
  | normal (part : Text)
  deriving DecidableEq

namespace PathRules

/-- Whether a character separates components. -/
def isSeparator : PathRules → Char → Bool
  | .unix, c => c == '/'
  | .windows, c => c == '/' || c == '\\'

/-- Whether a path begins with a drive: a letter and a colon. -/
def hasDrive : Text → Bool
  | letter :: ':' :: _ => letter.isAlpha
  | _ => false

/-- Whether a path begins with a root, or on Windows with a drive. -/
def isAnchored (rules : PathRules) (path : Text) : Bool :=
  path.head?.any rules.isSeparator || (rules == .windows && hasDrive path)

/-- `Path::is_absolute`. Windows wants a drive and a root, or a share; a share begins with two
separators. -/
def isAbsolute : PathRules → Text → Bool
  | .unix, path => path.head? == some '/'
  | .windows, path =>
    (hasDrive path && (path.drop 2).head?.any windows.isSeparator)
      || (path.length ≥ 2 && (path.take 2).all windows.isSeparator)

/-- One piece between two separators. -/
def component (piece : Text) : PathComponent :=
  if piece = ".".toList then .curDir
  else if piece = "..".toList then .parentDir
  else .normal piece

/-- `Path::components`. The source drops a `.` that is not the first component; here it stays, and
`sanitizeRequestPath` drops it. -/
def components (rules : PathRules) (path : Text) : List PathComponent :=
  (if rules.isAnchored path then [.anchor] else [])
    ++ ((path.splitOnP rules.isSeparator).filter (· ≠ [])).map component

end PathRules

/-! ### Paths of requests -/

/-- Whether some platform calls a path absolute. -/
def looksAbsolute (rules : PathRules) (rel : Text) : Bool :=
  let path := trim rel
  rules.isAbsolute path || path.head? == some '/' || path.head? == some '\\'
    || PathRules.hasDrive path

/-- What a component adds to the path of a request, or `none` where it is refused. A backslash is a
separator on Windows and an ordinary character elsewhere. -/
def keptPart : PathComponent → Option (List Text)
  | .normal part => if '\\' ∈ part then none else some [part]
  | .curDir => some []
  | .parentDir => none
  | .anchor => none

/-- The loop over the components of a path. -/
def keptParts (rules : PathRules) (path : Text) : Option (List Text) :=
  ((rules.components path).mapM keptPart).map List.flatten

/-- A path without white space and slashes around it and without its extension. -/
def trimmedPath (rel : Text) : Text := trimEndMatches tomlSuffix (trimMatches '/' (trim rel))

/-- Normalise a request path and refuse anything that escapes `requests/`. -/
def sanitizeRequestPath (rules : PathRules) (rel : Text) : Except CollectionError Text :=
  if looksAbsolute rules rel then .error (.unsafePath rel)
  else if trimmedPath rel = [] then .error (.unsafePath rel)
  else
    match keptParts rules (trimmedPath rel) with
    | none => .error (.unsafePath rel)
    | some parts =>
      if parts = [] then .error (.unsafePath rel) else .ok (List.intercalate ['/'] parts)

example : sanitizeRequestPath .unix " ./users//me.toml/".toList = .ok "users/me".toList := by
  decide +kernel

example : (sanitizeRequestPath .windows "a\\..\\b".toList).toOption = none := by decide +kernel

end Gabriel.Cli
