import TerraIndex.Entity.Address
/-!
# Resources of plan and state exports

A plan holds one entry for each planned instance, in a tree of modules; a state holds resources
with a list of instances each. Both become the same record as a block of a configuration. Where a
map or a list is wanted, a null counts as a missing key.
-/

namespace TerraIndex

/-- The map under a key, or none where there is none. -/
def requireMap (body : Body) (key address : String) : Except BuildError (Option RawMap) :=
  match body.present? key with
  | none => .ok none
  | some (.map entries) => some <$> supported (Node.toRawEntries entries)
  | some _ => .error (.typeMismatch "resource" address key .map)

/-- The entry of another key, renamed, as a body of at most one entry. -/
def renamed (body : Body) (key as : String) : Body :=
  match body.child? key with
  | some node => [(as, node)]
  | none => []

/-- The value under a key, or null. -/
def rawAt (body : Body) (key : String) : Except BuildError Raw :=
  match body.child? key with
  | some node => supported node.toRaw
  | none => .ok .null

namespace Plan

/-- The maps among the nodes of a list. -/
def maps (node : Option Node) : List Body :=
  match node with
  | some (.list items) => items.filterMap Node.map?
  | _ => []

mutual

/-- The entries of a module, its own first and then those of its child modules. -/
def moduleEntries : Node → List Body
  | .map entries => maps (entryAt? entries "resources") ++ childEntries entries
  | _ => []

/-- The entries of the modules in the first list of child modules. -/
def childEntries : List (String × Node) → List Body
  | [] => []
  | (key, node) :: rest => if key = "child_modules" then listEntries node else childEntries rest

def listEntries : Node → List Body
  | .list items => itemsEntries items
  | _ => []

def itemsEntries : List Node → List Body
  | [] => []
  | item :: rest => moduleEntries item ++ itemsEntries rest

end

/-- Every planned resource, depth first from the root module. -/
def entries (tree : Body) : List Body :=
  match tree.child? "planned_values" with
  | some (.map planned) =>
    match entryAt? planned "root_module" with
    | some root => moduleEntries root
    | none => []
  | _ => []

def mode (entry : Body) : String := entry.textAt "mode" "managed"

/-- The address that an entry supplies, or one made of its type, name and mode. -/
def address (entry : Body) : String :=
  let supplied := entry.textAt "address" ""
  if supplied = "" then
    resourceAddress (entry.textAt "type" "") (entry.textAt "name" "") (mode entry) ""
  else supplied

end Plan

def Resource.ofPlan (place : Located) (entry : Body) : Except BuildError Resource := do
  let address := Plan.address entry
  let ⟨fields, _⟩ ← extract "resource" address (renamed entry "provider_name" "provider")
  let arguments := (← requireMap entry "values" address).getD []
  let index ← rawAt entry "index"
  return {
    place, address, index
    type := entry.textAt "type" ""
    name := entry.textAt "name" ""
    mode := Plan.mode entry
    count := fields.count
    countSource := fields.countSource
    forEach := fields.forEach
    dependsOn := fields.dependsOn
    provider := fields.provider
    lifecycle := fields.lifecycle
    arguments := some arguments
    attributes := none
    standardAttributes := some arguments }

namespace State

def resources (tree : Body) : List Body := Plan.maps (tree.child? "resources")

def mode (resource : Body) : String := resource.textAt "mode" "managed"

/-- The address of a resource without regard to its instances. -/
def address (resource : Body) : String :=
  resourceAddress (resource.textAt "type" "") (resource.textAt "name" "") (mode resource)
    (resource.textAt "module" "")

/-- The address of the instance with the given index. -/
def instanceAddress (resource : Body) (index : Raw) : Except BuildError String :=
  match instanceAddress? (resource.textAt "type" "") (resource.textAt "name" "") index
    (mode resource) (resource.textAt "module" "") with
  | some address => .ok address
  | none => .error .longIndex

/-- The instances of a resource, those that are maps. -/
def instances (resource : Body) : Except BuildError (List Body) :=
  match resource.present? "instances" with
  | none => .ok []
  | some (.list items) => .ok (items.filterMap Node.map?)
  | some _ => .error (.typeMismatch "resource" (address resource) "instances" .list)

end State

/-- The attributes of an instance are read from the flattened form of old files where the usual
form is missing. -/
def Resource.ofInstance (place : Located) (resource inst : Body) :
    Except BuildError Resource := do
  let index ← rawAt inst "index_key"
  let address ← State.instanceAddress resource index
  let body := renamed resource "provider" "provider" ++ renamed inst "dependencies" "depends_on"
  let ⟨fields, _⟩ ← extract "resource" address body
  let attributes ←
    match ← requireMap inst "attributes" address with
    | some attributes => pure attributes
    | none => do pure ((← requireMap inst "attributes_flat" address).getD [])
  return {
    place, address, index
    type := resource.textAt "type" ""
    name := resource.textAt "name" ""
    mode := State.mode resource
    count := fields.count
    countSource := fields.countSource
    forEach := fields.forEach
    dependsOn := fields.dependsOn
    provider := fields.provider
    lifecycle := fields.lifecycle
    arguments := none
    attributes := some attributes
    standardAttributes := some attributes }

end TerraIndex
