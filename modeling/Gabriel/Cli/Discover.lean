import Gabriel.Cli.Bundle
import Gabriel.Cli.Collection

/-!
# `Gabriel.Cli.Discover`: a collection in a file tree

`discover`, `load` and `init` of `gabriel-collection/src/lib.rs`, over the file tree of the support
bundle. `Disk` of `Gabriel.Cli.Collection` is what a collection has once it was found; here is how
it is found, read and made.

`TomlTools` is what the libraries do: the TOML parser and writer, and the walk over a directory. A
start directory is a path from the root already. A file of the tree can always be read, and each
call of `init` that changes the tree can fail, as `InitFaults` says.

The definitions:

* `findRoot`, `Collection.discover`: the nearest directory above a start that holds a collection.
* `Collection.load`: read the manifest, the requests and the environments.
* `makeInit`, `Collection.init`: make a collection: the directories, and then the files.
* `initRuns`: some calls of `init` on one tree.
-/

set_option autoImplicit false

namespace Gabriel.Cli

open Gabriel.Core Text FileWrite Fallible

/-! ### Names -/

/-- `COLLECTION_DIR`. -/
def collectionDir : Text := "gabriel".toList
/-- `MANIFEST_FILE`. -/
def manifestFile : Text := "collection.toml".toList
/-- `REQUESTS_DIR`. -/
def requestsDir : Text := "requests".toList
/-- `ENVIRONMENTS_DIR`. -/
def environmentsDir : Text := "environments".toList
/-- `RUNTIME_DIR`. -/
def runtimeDir : Text := ".runtime".toList

/-- The text of a path. -/
def treeText : TreePath → Text
  | [] => ['/']
  | path => path.flatMap ('/' :: ·)

/-- What finding, reading or making a collection can fail with. -/
inductive TreeError where
  | notFound (start : TreePath)
  | io (path : TreePath)
  | parse (path : TreePath) (message : Text)
  | alreadyExists (root : TreePath)
  deriving DecidableEq

/-- The text of an error. -/
def TreeError.text : TreeError → Text
  | .notFound start => "no Gabriel collection found in ".toList ++ treeText start
      ++ " or any parent — run `gabriel init` to create one".toList
  | .io path => treeText path
  | .parse path message => treeText path ++ ": ".toList ++ message
  | .alreadyExists root => "a collection already exists at ".toList ++ treeText root

/-- The cause alone: the path is shown beside it. -/
def TreeError.cause : TreeError → Text
  | .parse _ message => message
  | other => other.text

/-- The libraries. -/
structure TomlTools where
  parseManifest : Text → Except Text Manifest
  parseRequest : Text → Except Text RequestSpec
  renderManifest : Manifest → Except Text Text
  renderEnvironment : Environment → Except Text Text
  renderRequest : RequestSpec → Except Text Text
  /-- The regular files below a directory, sorted by the names on the way to them. -/
  walk : FileTree → TreePath → List TreePath
  /-- The upper-case mapping of the texts. -/
  upper : Text → Text

/-! ### Reading -/

/-- Read a TOML file. -/
def readToml {α : Type} (parse : Text → Except Text α) (tree : FileTree) (path : TreePath) :
    Except TreeError α :=
  match (tree.file path).bind Utf8.decode? with
  | none => .error (.io path)
  | some text => (parse text).mapError (.parse path)

/-- Whether the extension of a name is `toml`. A name that is all extension has none. -/
def isToml (path : TreePath) : Bool :=
  path.getLast?.any fun name => tomlSuffix <:+ name && tomlSuffix.length < name.length

/-- The path under `requests/`, without the extension. -/
def requestId (requestsRoot path : TreePath) : Text :=
  let relative := path.drop requestsRoot.length
  let name := relative.getLast?.getD []
  let stem := name.take (name.length - tomlSuffix.length)
  -- A `.` is a component of a path only at its start.
  if stem = ['.'] ∧ relative.dropLast ≠ [] then List.intercalate ['/'] relative.dropLast
  else List.intercalate ['/'] (relative.dropLast ++ [stem])

/-- A request file of the walk. -/
def readRequest (tools : TomlTools) (tree : FileTree) (requestsRoot path : TreePath) :
    RequestFile where
  id := requestId requestsRoot path
  content := (readToml tools.parseRequest tree path).mapError TreeError.cause

/-- Read the collection in a directory. A request file that cannot be read does not stop the
rest. -/
def Collection.load (tools : TomlTools) (tree : FileTree) (root : TreePath) :
    Except TreeError Collection := do
  let manifest ← readToml tools.parseManifest tree (root ++ [manifestFile])
  let requestsRoot := root ++ [requestsDir]
  let files :=
    if tree.dir requestsRoot then
      ((tools.walk tree requestsRoot).filter isToml).map (readRequest tools tree requestsRoot)
    else []
  .ok { root := treeText root, manifest
        requests := files.filterMap (RequestFile.entry? (treeText root))
        problems := files.filterMap (RequestFile.problem? (treeText root)) }

/-! ### Finding -/

/-- The collection directory that a directory shows: the one in it, or the directory itself. -/
def rootAt (tree : FileTree) (dir : TreePath) : Option TreePath :=
  if (tree.file (dir ++ [collectionDir, manifestFile])).isSome then some (dir ++ [collectionDir])
  -- The command is run inside the collection directory.
  else if (tree.file (dir ++ [manifestFile])).isSome ∧ dir.getLast? = some collectionDir then
    some dir
  else none

/-- Walk up from a directory, the way `git` finds `.git`. -/
def findRoot (tree : FileTree) (start : TreePath) : Option TreePath :=
  start.inits.reverse.findSome? (rootAt tree)

/-- Find the collection of a directory, and read it. -/
def Collection.discover (tools : TomlTools) (tree : FileTree) (start : TreePath) :
    Except TreeError Collection :=
  match findRoot tree start with
  | some root => Collection.load tools tree root
  | none => .error (.notFound start)

/-! ### Making -/

/-- A call on the tree. It fails with the path that it was given. -/
def onTree (path : TreePath) (call : FileTree → Bool × FileTree) :
    Call TreeError FileTree PUnit :=
  ExceptT.mk fun tree => (if (call tree).1 then .ok ⟨⟩ else .error (.io path), (call tree).2)

/-- Create a directory. -/
def createDir (path : TreePath) (fault : Option Nat) : Call TreeError FileTree PUnit :=
  onTree path fun tree => tree.createDirAll path fault

/-- `fs::write`. -/
def writeBytes (path : TreePath) (bytes : List UInt8) (fault : Option Fault) :
    Call TreeError FileTree PUnit :=
  onTree path fun tree => tree.writeFile path bytes fault

/-- Write a file, into a directory that is created first. -/
def writeText (path : TreePath) (contents : Text) (faults : FileFaults) :
    Call TreeError FileTree PUnit := do
  createDir path.dropLast faults.parent
  writeBytes path (Utf8.encode contents) faults.write

/-- Write a TOML file. -/
def writeToml (path : TreePath) (text : Except Text Text) (faults : FileFaults) :
    Call TreeError FileTree PUnit :=
  match text with
  | .error message => throw (.parse path message)
  | .ok text => writeText path text faults

/-- The manifest of a new collection. -/
def newManifest (name : Text) : Manifest where
  name := some name
  vars := .empty
  defaults := { headers := .empty, auth := none, settings := none }

/-- The environment of a new collection. -/
def devEnvironment : Environment where
  name := some "dev".toList
  description := none
  vars := SortedMap.empty.insert "base_url".toList "https://httpbin.org".toList
  secrets := .empty

/-- The request of a new collection. -/
def exampleRequest (upper : Text → Text) : RequestSpec :=
  { RequestSpec.new upper "GET".toList "\x7b\x7bbase_url\x7d\x7d/get".toList with
    name := some "Example request".toList
    headers := FieldMap.empty.set "Accept".toList "application/json".toList }

/-- The file that keeps the runtime directory out of a commit. -/
def runtimeIgnore : Text := "# Machine-local: vault, sessions, captured traffic.\n*\n".toList

/-- Where a run of `init` fails. -/
structure InitFaults where
  requests : Option Nat := none
  environments : Option Nat := none
  runtime : Option Nat := none
  manifest : FileFaults := {}
  environment : FileFaults := {}
  starter : FileFaults := {}
  ignore : FileFaults := {}

/-- The directories of a new collection. -/
def makeInitDirs (root : TreePath) (faults : InitFaults) : Call TreeError FileTree PUnit := do
  createDir (root ++ [requestsDir]) faults.requests
  createDir (root ++ [environmentsDir]) faults.environments
  createDir (root ++ [runtimeDir]) faults.runtime

/-- The files of a new collection besides its manifest. -/
def writeInitFiles (tools : TomlTools) (root : TreePath) (faults : InitFaults) :
    Call TreeError FileTree PUnit := do
  writeToml (root ++ [environmentsDir, "dev.toml".toList])
    (tools.renderEnvironment devEnvironment) faults.environment
  writeToml (root ++ [requestsDir, "example.toml".toList])
    (tools.renderRequest (exampleRequest tools.upper)) faults.starter
  writeText (root ++ [runtimeDir, ".gitignore".toList]) runtimeIgnore faults.ignore

/-- The directories and files of a new collection. The manifest is the first file. -/
def makeInit (tools : TomlTools) (root : TreePath) (name : Text) (faults : InitFaults) :
    Call TreeError FileTree PUnit := do
  makeInitDirs root faults
  writeToml (root ++ [manifestFile]) (tools.renderManifest (newManifest name)) faults.manifest
  writeInitFiles tools root faults

/-- Create a new collection in a directory, with a starter request and environment. -/
def Collection.init (tools : TomlTools) (dir : TreePath) (name : Text) (faults : InitFaults) :
    Call TreeError FileTree Collection := do
  let root := dir ++ [collectionDir]
  let tree ← get
  if tree.has (root ++ [manifestFile]) then throw (.alreadyExists root)
  else do
    makeInit tools root name faults
    let tree ← get
    match Collection.load tools tree root with
    | .ok collection => pure collection
    | .error error => throw error

/-- A call of `gabriel init` in a directory. -/
structure InitCall where
  name : Text
  faults : InitFaults

/-- Calls of `gabriel init` in a directory, one after the other: what each returns, and the tree
after them. -/
def initRuns (tools : TomlTools) (dir : TreePath) : List InitCall → FileTree →
    List (Except TreeError Collection) × FileTree
  | [], tree => ([], tree)
  | call :: calls, tree =>
    let (result, tree) := exec (Collection.init tools dir call.name call.faults) tree
    let (results, tree) := initRuns tools dir calls tree
    (result :: results, tree)

end Gabriel.Cli
