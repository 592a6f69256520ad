import TerraIndex.Entity.Export
import TerraIndex.File.Load
import TerraIndex.Source.ConfigBlocks
import TerraIndex.Source.Locator
/-!
# Listing the entities of a file

`list` loads a file and goes through the blocks of one kind in document order. Each is an attempt
to build an entity. Entities that are built are delivered in order; each failed attempt is noted in
the log, keeps none of the others from being made, and the error of the first one is the error of
the listing. What cannot be noted stops a listing at once: a line that is missing, or an index that
cannot be written.
-/

namespace TerraIndex

/-- The kinds of entities that can be listed. -/
inductive ListKind
  | resource
  | dataSource
  | module
  | output
  | variable
  | provider
  | localValue
deriving DecidableEq

/-- What stops a listing. -/
inductive Stop
  | lineOutOfRange (e : LineOutOfRange)
  | longIndex

def Stop.message : Stop → String
  | .lineOutOfRange e => e.message
  | .longIndex => BuildError.longIndex.message

/-- Why a listing failed. -/
inductive ListError
  | load (e : LoadError)
  | build (e : BuildError)
  | stop (e : Stop)

def ListError.message : ListError → String
  | .load e => e.message
  | .build e => e.message
  | .stop e => e.message

/-- What is written to the log. -/
inductive LogRecord
  | buildFailed (kind : ListKind) (path : String) (e : BuildError)
  | parseFailed (isConfig : Bool) (path reason : String)
  | bothPathLists

/-- The name of the operation that lists a kind. -/
def ListKind.operation : ListKind → String
  | .resource => "list_resources"
  | .dataSource => "list_data_sources"
  | .module => "list_modules"
  | .output => "list_outputs"
  | .variable => "list_variables"
  | .provider => "list_providers"
  | .localValue => "list_locals"

def LogRecord.text : LogRecord → String
  | .buildFailed kind path e =>
    "ERROR tfdoc_core.listing: " ++ kind.operation ++ ": build error in " ++ path ++ ": "
      ++ e.message
  | .parseFailed isConfig path reason =>
    let parser := if isConfig then "parse_hcl" else "parse_json"
    "ERROR tfdoc_core.parser: " ++ parser ++ ": parse error in " ++ path ++ ": " ++ reason
  | .bothPathLists =>
    "WARNING tfdoc_core.config: both 'paths' and 'configuration_file_paths' are set; "
      ++ "using the legacy 'paths'"

/-- Errors of syntax are logged, other rejections are not. -/
def LoadError.records : LoadError → List LogRecord
  | .rejected path .configSyntax =>
    [.parseFailed true path (Rejection.reason .configSyntax)]
  | .rejected path (.jsonSyntax fault) => [.parseFailed false path fault.message]
  | _ => []

/-- What a listing delivers: entities, log records, and the error it ends with, if any. -/
structure Listing where
  entities : List Entity
  records : List LogRecord
  failure : Option ListError

mutual

/-- The maps at a depth of keys below a node, with the keys that lead there. Reserved keys are
passed over. -/
def walkLabels : Node → Nat → List String → List (List String × Body)
  | .map entries, 0, above => [(above, entries)]
  | .map entries, depth + 1, above => walkEntries entries depth above
  | _, _, _ => []

def walkEntries : List (String × Node) → Nat → List String → List (List String × Body)
  | [], _, _ => []
  | (key, child) :: rest, depth, above =>
    if isReserved key then walkEntries rest depth above
    else walkLabels child depth (above ++ [key]) ++ walkEntries rest depth above

end

/-- A block of a configuration: its labels, its body without reserved keys, and the number of
blocks before it whose labels differ at most in case. -/
structure ConfigBlock where
  labels : List String
  body : Body
  occurrence : Nat

/-- Numbers blocks, where `seen` holds the folded labels of the blocks before them. -/
def numberBlocks (seen : List (List String)) : List (List String × Body) → List ConfigBlock
  | [] => []
  | (labels, body) :: rest =>
    let key := labels.map Text.lower
    ⟨labels, body.sanitize, seen.count key⟩ :: numberBlocks (key :: seen) rest

/-- The blocks of a kind with the given number of labels. -/
def configBlocks (tree : Body) (kind : String) (depth : Nat) : List ConfigBlock :=
  match tree.child? kind with
  | none => []
  | some node => numberBlocks [] ((blocksOf node).flatMap fun block => walkLabels block depth [])

/-- The entries of a map that are maps. -/
def namedEntries (node : Option Node) : List (String × Body) :=
  match node with
  | some (.map entries) =>
    entries.filterMap fun (name, child) => child.map?.map (name, ·)
  | _ => []

/-- An attempt to build an entity. -/
abbrev Attempt := Except BuildError Entity

/-- A step of a listing: an attempt, or the end of it all. -/
abbrev Step := Except Stop Attempt

/-- An attempt as a step. The failure to write an index is not noted. -/
def Attempt.step (attempt : Attempt) : Step :=
  match attempt with
  | .error .longIndex => .error .longIndex
  | attempt => .ok attempt

namespace SourceFile

def configText (file : SourceFile) : ConfigText := .ofContent file.content.toList file.tree

/-- The place of a block of a configuration. -/
def blockPlace (file : SourceFile) (kind : String) (block : ConfigBlock) : Located :=
  ⟨file.path, file.configText.locate kind block.labels block.occurrence⟩

/-- The place of a block of an export. -/
def exportPlace (file : SourceFile) (kind : String) (labels : List String) : Located :=
  let text := file.content.toList
  match Locator.select ⟨kind, labels⟩ file.kind text with
  | .ok locator => ⟨file.path, locator.locate text⟩
  | .error _ => ⟨file.path, .empty⟩

/-- Attempts for the blocks of a kind with one label. -/
def labelledAttempts (file : SourceFile) (kind : String)
    (build : Located → String → Body → Attempt) : List Attempt :=
  (configBlocks file.tree kind 1).filterMap fun block =>
    match block.labels with
    | [name] => some (build (file.blockPlace kind block) name block.body)
    | _ => none

/-- Attempts for the blocks of a kind with two labels. -/
def typedAttempts (file : SourceFile) (kind : String)
    (build : Located → String → String → Body → Attempt) : List Attempt :=
  (configBlocks file.tree kind 2).filterMap fun block =>
    match block.labels with
    | [type, name] => some (build (file.blockPlace kind block) type name block.body)
    | _ => none

/-- Attempts for the named entries of an export. -/
def entryAttempts (file : SourceFile) (kind : String) (node : Option Node)
    (build : Located → String → Body → Attempt) : List Attempt :=
  (namedEntries node).map fun (name, body) => build (file.exportPlace kind [name]) name body

def planAttempts (file : SourceFile) : List Attempt :=
  (Plan.entries file.tree).map fun entry =>
    let place := file.exportPlace "resource" [Plan.address entry, entry.textAt "type" ""]
    .resource <$> Resource.ofPlan place entry

/-- Attempts for the instances of a resource; one that has no list of them fails once. -/
def instanceAttempts (place : Located) (resource : Body) : List Attempt :=
  match State.instances resource with
  | .error e => [.error e]
  | .ok instances => instances.map fun inst =>
    .resource <$> Resource.ofInstance place resource inst

def stateAttempts (file : SourceFile) : List Attempt :=
  (State.resources file.tree).flatMap fun resource =>
    let labels := [resource.textAt "type" "", resource.textAt "name" "",
      resource.textAt "mode" "", resource.textAt "module" ""]
    instanceAttempts (file.exportPlace "resource" labels) resource

/-- Steps for the values of one `locals` block. -/
def localSteps (file : SourceFile) (block : ConfigBlock) : List Step :=
  let text := file.configText
  let span := text.locate "locals" [] block.occurrence
  block.body.map fun (name, value) => do
    let place ← (text.locateAttribute span name).mapError .lineOutOfRange
    return .localValue <$> LocalValue.ofNode ⟨file.path, place⟩ name value

/-- The outputs of an export: those that a plan expects, or those that a state has. -/
def outputsNode (file : SourceFile) : Option Node :=
  match file.kind with
  | .plan =>
    match file.tree.child? "planned_values" with
    | some (.map planned) => entryAt? planned "outputs"
    | _ => none
  | _ => file.tree.child? "outputs"

def resourceAttempts (file : SourceFile) : List Attempt :=
  match file.kind with
  | .config => file.typedAttempts "resource" fun place type name body =>
    .resource <$> Resource.ofBlock place type name body
  | .plan => file.planAttempts
  | .state => file.stateAttempts

def outputAttempts (file : SourceFile) : List Attempt :=
  let build (place : Located) (name : String) (body : Body) : Attempt :=
    .output <$> Output.ofBlock place name body
  if file.kind = .config then file.labelledAttempts "output" build
  else file.entryAttempts "output" file.outputsNode build

def variableAttempts (file : SourceFile) : List Attempt :=
  let isConfig := file.kind = .config
  let build (place : Located) (name : String) (body : Body) : Attempt :=
    .variable <$> Variable.ofBlock place name body isConfig
  if isConfig then file.labelledAttempts "variable" build
  else file.entryAttempts "variable" (file.tree.child? "variables") build

/-- The steps of listing one kind. Exports hold no data sources, modules, providers and locals. -/
def steps (file : SourceFile) (kind : ListKind) : List Step :=
  let isConfig := file.kind = .config
  match kind with
  | .resource => file.resourceAttempts.map Attempt.step
  | .output => file.outputAttempts.map .ok
  | .variable => file.variableAttempts.map .ok
  | .dataSource =>
    if isConfig then
      (file.typedAttempts "data" fun place type name body =>
        .dataSource <$> DataSource.ofBlock place type name body).map .ok
    else []
  | .module =>
    if isConfig then
      (file.labelledAttempts "module" fun place name body =>
        .module <$> Module.ofBlock place name body).map .ok
    else []
  | .provider =>
    if isConfig then
      (file.labelledAttempts "provider" fun place name body =>
        .provider <$> Provider.ofBlock place name body).map .ok
    else []
  | .localValue =>
    if isConfig then (configBlocks file.tree "locals" 0).flatMap file.localSteps else []

end SourceFile

namespace Listing

/-- Takes the steps in order, with `first` the first build error so far. -/
def ofSteps (kind : ListKind) (path : String) (first : Option BuildError) : List Step → Listing
  | [] => ⟨[], [], first.map .build⟩
  | .error e :: _ => ⟨[], [], some (.stop e)⟩
  | .ok (.ok entity) :: rest =>
    let listing := ofSteps kind path first rest
    { listing with entities := entity :: listing.entities }
  | .ok (.error e) :: rest =>
    let listing := ofSteps kind path (first.or (some e)) rest
    { listing with records := .buildFailed kind path e :: listing.records }

end Listing

def list (kind : ListKind) (store : FileStore) (item : FileItem) : Listing :=
  match load store item with
  | .error e => ⟨[], e.records, some (.load e)⟩
  | .ok file => Listing.ofSteps kind file.path none (file.steps kind)

end TerraIndex
