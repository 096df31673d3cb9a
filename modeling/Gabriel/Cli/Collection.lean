import Gabriel.Cli.RequestPath
import Gabriel.Core.Vars

/-!
# `Gabriel.Cli.Collection`: a collection on disk

The collection of `gabriel-collection/src/lib.rs`: a manifest with shared variables and defaults,
the request files, and the environment files. `Disk` is what is stored, and `Disk.load` reads it.
A request file is known by its id, which is its path under `requests/` without the extension: a
file is a regular file `<id>.toml`. A file `..toml` of a subdirectory is none of these. The source
reads it with the id of the subdirectory, and the name of its file is `.`, which is left out here.

The environment files are read again at every call. `EnvironmentDir` is what those reads find: the
names in the directory, and the file of a name. A name can reach outside the directory, so the
file of a name is there or not independently of the listing.

A write can fail, and it can fail after it has emptied the file: `WriteFate` says which.
-/

set_option autoImplicit false

namespace Gabriel.Cli

open Gabriel.Core Text Fallible

/-! ### The files -/

/-- What every request inherits. -/
structure Defaults where
  headers : FieldMap
  auth : Option Auth
  settings : Option Settings
  deriving DecidableEq

/-- The file `collection.toml`. -/
structure Manifest where
  name : Option Text
  /-- Variables of every request, below those of an environment. -/
  vars : SortedMap Text Text
  defaults : Defaults
  deriving DecidableEq

/-- One environment file. -/
structure Environment where
  name : Option Text
  description : Option Text
  vars : SortedMap Text Text
  /-- The vault key of a variable. -/
  secrets : SortedMap Text Text
  deriving DecidableEq

/-- A request file that was read. -/
structure RequestEntry where
  path : Text
  /-- The path under `requests/`, without the extension. -/
  id : Text
  spec : RequestSpec
  deriving DecidableEq

/-- A request file that could not be read. -/
structure LoadProblem where
  path : Text
  id : Text
  message : Text
  deriving DecidableEq

/-- A collection that was loaded. -/
structure Collection where
  root : Text
  manifest : Manifest
  requests : List RequestEntry
  problems : List LoadProblem
  deriving DecidableEq

/-- The environment files of a collection. -/
structure EnvironmentDir where
  /-- The names of the files in the directory, in its order. -/
  names : List Text
  /-- The file of a name, or why it is no environment. -/
  file : Text → Option (Except Text Environment)

/-! ### Environments -/

/-- The variables of an environment; a secret is a reference to its vault key. -/
def Environment.variables (environment : Environment) : SortedMap Text Text :=
  environment.vars.insertAll (environment.secrets.entries.map fun e => (e.1, secretRef e.2))

/-! ### Writes -/

/-- What becomes of a write to a file: it is done, it is refused and the file is as before, or it
fails with something else left in the file. -/
inductive WriteFate (α : Type) where
  | done
  | refused (message : Text)
  | torn (message : Text) (left : α)

namespace EnvironmentDir

/-- The names of the environments, sorted. -/
def environmentNames (dir : EnvironmentDir) : List Text := dir.names.insertionSort (· ≤ ·)

/-- Read an environment. -/
def environment (dir : EnvironmentDir) (name : Text) : Except CollectionError Environment :=
  match dir.file name with
  | none => .error (.noSuchEnvironment name dir.environmentNames)
  | some (.error message) => .error (.parse name message)
  | some (.ok environment) => .ok { environment with name := some (environment.name.getD name) }

/-- Put something into the file of a name. A name with a `/` in it leaves the directory. -/
def put (dir : EnvironmentDir) (name : Text) (content : Except Text Environment) :
    EnvironmentDir :=
  { names := if name ∈ dir.names ∨ '/' ∈ name then dir.names else dir.names ++ [name]
    file := fun n => if n = name then some content else dir.file n }

end EnvironmentDir

/-- The environment of a command: the one that is named, or the only one. -/
def chooseEnvironment (environments : EnvironmentDir) (env : Option Text) :
    Except CollectionError (Option Environment) :=
  let name := match env, environments.environmentNames with
    | some name, _ => some name
    | none, [only] => some only
    | none, _ => none
  match name with
  | some name => (environments.environment name).map some
  | none => .ok none

/-! ### The disk -/

/-- A file under `requests/`: its id, and the request in it or why there is none. -/
structure RequestFile where
  id : Text
  content : Except Text RequestSpec

/-- What a walk over `requests/` sorts a file by: the names on the way to it. -/
def walkKey (id : Text) : List Text := (id ++ tomlSuffix).splitOn '/'

/-- The request files, in the order of a walk over the directory. -/
structure RequestFiles where
  files : List RequestFile
  /-- An id is a path, so there is one file with it. -/
  nodup : (files.map RequestFile.id).Nodup

/-- Whether there is a file with an id. -/
def RequestFiles.has (requests : RequestFiles) (id : Text) : Bool :=
  requests.files.any (·.id = id)

/-- What the commands read and write. -/
structure Disk where
  /-- The collection directory, when one is found. -/
  root : Except CollectionError Text
  /-- The manifest in it, when it can be read. -/
  manifest : Except CollectionError Manifest
  requests : RequestFiles
  environments : EnvironmentDir
  /-- The capture log. -/
  captures : Option (List UInt8)
  /-- The vault, when there is one: what it decrypts to, or why it cannot be opened. -/
  vault : Option (Except Text (SortedMap Text Text))

/-- The file of a request. -/
def requestPath (root id : Text) : Text := root ++ "/requests/".toList ++ id ++ tomlSuffix

/-- The last name of a path. -/
def fileStem (id : Text) : Text := ((id.splitOn '/').getLast?).getD []

/-- The entry of a file that holds a request. A request without a name has the one of its file. -/
def RequestFile.entry? (root : Text) (file : RequestFile) : Option RequestEntry :=
  file.content.toOption.map fun spec =>
    { path := requestPath root file.id, id := file.id
      spec := { spec with name := some (spec.name.getD (fileStem file.id)) } }

/-- The problem of a file that holds none. -/
def RequestFile.problem? (root : Text) (file : RequestFile) : Option LoadProblem :=
  match file.content with
  | .ok _ => none
  | .error message => some { path := requestPath root file.id, id := file.id, message }

/-- Read the collection. A file that cannot be read does not stop the rest. -/
def Disk.load (disk : Disk) : Except CollectionError Collection := do
  let root ← disk.root
  let manifest ← disk.manifest
  .ok { root, manifest
        requests := disk.requests.files.filterMap (RequestFile.entry? root)
        problems := disk.requests.files.filterMap (RequestFile.problem? root) }

/-! ### Requests -/

namespace Collection

/-- Manifest variables merged under an environment's, which win. -/
def variablesFor (collection : Collection) (environment : Option Environment) :
    SortedMap Text Text :=
  match environment with
  | some environment => collection.manifest.vars.insertAll environment.variables.entries
  | none => collection.manifest.vars

/-- Find one request by its id, by a part of it, or by its name. `lower` is the lower-case mapping
of the texts. -/
def find (collection : Collection) (lower : Text → Text) (query : Text) :
    Except CollectionError RequestEntry :=
  let queryNorm := trimMatches '/' (trimEndMatches tomlSuffix query)
  match collection.requests.find? (·.id = queryNorm) with
  | some exact => .ok exact
  | none =>
    let close (id : Text) : Bool :=
      ('/' :: queryNorm) <:+ id ∨ lower queryNorm <:+: lower id
    match collection.requests.filter fun r => close r.id ∨ r.spec.name = some query with
    | [] =>
      match collection.problems.find? fun p => p.id = queryNorm ∨ close p.id with
      | some problem => .error (.parse problem.path problem.message)
      | none => .error (.noSuchRequest query)
    | [only] => .ok only
    | several => .error (.ambiguousRequest query (several.map (·.id)))

/-- Apply the defaults of the collection to a request: a header fills a gap, an authentication
replaces one that inherits, and settings replace settings that say nothing. -/
def applyDefaults (collection : Collection) (spec : RequestSpec) : RequestSpec :=
  let defaults := collection.manifest.defaults
  let headers := defaults.headers.iterPairs.foldl
    (fun headers e => if headers.containsKey e.1 then headers else headers.insert e.1 e.2)
    spec.headers
  let inherits : Bool := spec.auth = none ∨ spec.auth = some .inherit
  { spec with
    headers
    auth := if inherits then defaults.auth.or spec.auth else spec.auth
    settings := if spec.settings = {} then defaults.settings.getD spec.settings else spec.settings }

end Collection

/-! ### Saving a request -/

namespace Collection

/-- A path that no request has: `get-user`, `get-user-2`, and so on. One of the first names is
free, as there are more of them than requests. -/
def uniqueRequestPath (collection : Collection) (preferred : Text) : Text :=
  let taken (id : Text) : Bool := collection.requests.any (·.id = id)
  let base := slugify preferred
  if taken base then
    let candidates := (List.range (collection.requests.length + 1)).map fun n =>
      base ++ '-' :: natText (n + 2)
    (candidates.find? fun candidate => !taken candidate).getD base
  else base

end Collection

/-- Put something into the file of a request, in the order of the walk. -/
def RequestFiles.put (requests : RequestFiles) (id : Text) (content : Except Text RequestSpec) :
    RequestFiles :=
  let others := requests.files.filter (·.id ≠ id)
  { files := (⟨id, content⟩ :: others).insertionSort fun a b => walkKey a.id ≤ walkKey b.id
    nodup := by
      have hperm := (List.perm_insertionSort (fun a b => walkKey a.id ≤ walkKey b.id)
        (⟨id, content⟩ :: others)).map RequestFile.id
      rw [hperm.nodup_iff, List.map_cons, List.nodup_cons]
      refine ⟨?_, requests.nodup.sublist (List.filter_sublist.map _)⟩
      intro hmem
      obtain ⟨file, hfile, hid⟩ := List.mem_map.mp hmem
      exact absurd hid (by simpa using (List.mem_filter.mp hfile).2) }

/-- Put something into the file of a request. -/
def Disk.putRequest (disk : Disk) (id : Text) (content : Except Text RequestSpec) : Disk :=
  { disk with requests := disk.requests.put id content }

/-- Write a request into the collection. The in-memory collection gets the request too, in place of
the one with its id. -/
def saveRequest (rules : PathRules)
    (fate : Text → WriteFate (Except Text RequestSpec)) (collection : Collection) (rel : Text)
    (spec : RequestSpec) : Call CollectionError Disk (Collection × RequestEntry) :=
  match sanitizeRequestPath rules rel with
  | .error error => throw error
  | .ok id =>
    let path := requestPath collection.root id
    match fate id with
    | .refused message => throw (.io path message)
    | .torn message left => do
      modify (·.putRequest id left)
      throw (.io path message)
    | .done => do
      modify (·.putRequest id (.ok spec))
      let entry : RequestEntry := { path, id, spec }
      let requests :=
        if collection.requests.any (·.id = id) then
          collection.requests.replaceF fun r => if r.id = id then some entry else none
        else (collection.requests ++ [entry]).insertionSort fun a b => a.id ≤ b.id
      pure ({ collection with requests }, entry)

end Gabriel.Cli
