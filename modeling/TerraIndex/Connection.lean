import TerraIndex.File.Load
import TerraIndex.Listing
/-!
# Connections

A `Connection` says which paths to list and how to classify them. Configuration paths have an old
spelling, `paths`, that wins where both are set.
-/

namespace TerraIndex

structure Connection where
  paths : Option (List String)
  configurationPaths : Option (List String)
  planPaths : List String
  statePaths : List String
deriving DecidableEq

/-- Why a connection cannot be made. A list or a string in place of a map is taken for the sequence
of its keys. -/
inductive ConnectionError
  | unknownKeys (keys : List String)
  | notStrings (key : String)
  | notSequence (typeName : String)
  | notMap (typeName : String)
  | unhashable (typeName : String)
  | unreadable (e : ReadError)
  | notUtf8 (fault : Text.Utf8.Fault)
  | json (fault : Json.Fault)
  | exhausted (e : Exhaustion)
deriving DecidableEq

def ConnectionError.message : ConnectionError → String
  | .unknownKeys keys => "unknown configuration keys: " ++ String.intercalate ", " keys
  | .notStrings key => "'" ++ key ++ "' must be a list of strings"
  | .notSequence typeName => "'" ++ typeName ++ "' object is not iterable"
  | .notMap typeName => "'" ++ typeName ++ "' object has no attribute 'get'"
  | .unhashable typeName => "unhashable type: '" ++ typeName ++ "'"
  | .unreadable e => e.message
  | .notUtf8 fault => fault.message
  | .json fault => fault.message
  | .exhausted e => e.message

namespace Connection

def keys : List String :=
  ["paths", "configuration_file_paths", "plan_file_paths", "state_file_paths"]

/-- The keys of no meaning here, sorted and each once. -/
def unknownKeys (found : List String) : List String :=
  let unknown := (found.filter fun key => !keys.contains key).eraseDups
  (sortEntries (unknown.map fun key => (key, ()))).map (·.1)

def texts? : List Raw → Option (List String)
  | [] => some []
  | .text s :: rest => (texts? rest).map (s :: ·)
  | _ => none

/-- The list of paths under a key; a null counts as missing. -/
def pathsAt (entries : RawMap) (key : String) : Except ConnectionError (Option (List String)) :=
  match entryAt? entries key with
  | none => .ok none
  | some .null => .ok none
  | some (.list items) =>
    match texts? items with
    | some paths => .ok (some paths)
    | none => .error (.notStrings key)
  | some _ => .error (.notStrings key)

def ofEntries (entries : RawMap) : Except ConnectionError Connection := do
  let unknown := unknownKeys (entries.map (·.1))
  if unknown ≠ [] then throw (.unknownKeys unknown)
  let paths ← pathsAt entries "paths"
  let configurationPaths ← pathsAt entries "configuration_file_paths"
  let planPaths ← pathsAt entries "plan_file_paths"
  let statePaths ← pathsAt entries "state_file_paths"
  return ⟨paths, configurationPaths, planPaths.getD [], statePaths.getD []⟩

/-- Items that are known keys make a list no map. -/
def refuseNames (typeName : String) (names : List String) : ConnectionError :=
  match unknownKeys names with
  | [] => .notMap typeName
  | unknown => .unknownKeys unknown

/-- The type of the first item that is a list or a map. -/
def container? (items : List Raw) : Option String :=
  items.findSome? fun item =>
    match item with
    | .list _ => some item.typeName
    | .map _ => some item.typeName
    | _ => none

def ofRaw (raw : Raw) : Except ConnectionError Connection :=
  match raw with
  | .map entries => ofEntries entries
  | .text s => .error (refuseNames raw.typeName (s.toList.map fun c => String.ofList [c]))
  | .list items =>
    match container? items, texts? items with
    | some typeName, _ => .error (.unhashable typeName)
    | none, some names => .error (refuseNames raw.typeName names)
    | none, none => .error (.notMap raw.typeName)
  | raw => .error (.notSequence raw.typeName)

def ofFile (store : FileStore) (path : String) : Except ConnectionError Connection := do
  let bytes ← (store.read path).mapError .unreadable
  let text ← (decodeText bytes).mapError .notUtf8
  match Json.overflow? store.stack.connecting text with
  | some opening => .error (.exhausted (.decoding opening))
  | none => do
    let raw ← (Json.decode text).mapError .json
    ofRaw raw

def isSome (paths : Option (List String)) : Bool := paths.getD [] ≠ []

/-- No list holds a path. -/
def isEmpty (c : Connection) : Bool :=
  !(isSome c.paths || isSome c.configurationPaths || c.planPaths ≠ [] || c.statePaths ≠ [])

def effectivePaths (c : Connection) : List String :=
  match c.paths with
  | some paths => paths
  | none => c.configurationPaths.getD []

/-- A warning that one of two spellings is passed over. -/
def records (c : Connection) : List LogRecord :=
  if c.paths.isSome && c.configurationPaths.isSome then [.bothPathLists] else []

/-- Every path with its classification: configurations, plans, states. -/
def items (c : Connection) : List FileItem :=
  c.effectivePaths.map (⟨·, false, false⟩) ++ c.planPaths.map (⟨·, true, false⟩)
    ++ c.statePaths.map (⟨·, false, true⟩)

end Connection

end TerraIndex
