import TerraIndex.Document.Raw
import TerraIndex.Source.Span
/-!
# Entities

One record for each kind of block, with the file and the span it was read from. `Entity.row` lists
every field of a record under its name; what is not set is null or the default of its field.
-/

namespace TerraIndex

abbrev RawMap := List (String × Raw)

structure Located where
  path : String
  span : Span
deriving Inhabited

/-- A resource block of a configuration, a planned resource, or an instance in a state. -/
structure Resource where
  place : Located
  type : String
  name : String
  address : String
  mode : String
  index : Raw
  count : Option Int
  countSource : Option String
  forEach : Option String
  dependsOn : Option (List String)
  provider : Option String
  lifecycle : Option RawMap
  arguments : Option RawMap
  attributes : Option RawMap
  standardAttributes : Option RawMap
deriving Inhabited

structure DataSource where
  place : Located
  type : String
  name : String
  count : Option Int
  countSource : Option String
  forEach : Option String
  dependsOn : Option (List String)
  provider : Option String
  lifecycle : Option RawMap
  arguments : RawMap
deriving Inhabited

structure Module where
  place : Located
  name : String
  moduleSource : Option String
  version : Option String
  count : Option Int
  countSource : Option String
  forEach : Option String
  dependsOn : Option (List String)
  providers : Option RawMap
  arguments : RawMap
deriving Inhabited

structure Output where
  place : Located
  name : String
  value : Option String
  description : Option String
  sensitive : Bool
  dependsOn : Option (List String)
  arguments : RawMap
deriving Inhabited

structure Variable where
  place : Located
  name : String
  type : Option String
  defaultValue : Option String
  value : Option String
  description : Option String
  sensitive : Bool
  nullable : Option Bool
  validation : String
  arguments : RawMap
deriving Inhabited

structure Provider where
  place : Located
  name : String
  aliasName : Option String
  version : Option String
  arguments : RawMap
deriving Inhabited

/-- A named value of a `locals` block. -/
structure LocalValue where
  place : Located
  name : String
  value : String
deriving Inhabited

inductive Entity
  | resource (r : Resource)
  | dataSource (d : DataSource)
  | module (m : Module)
  | output (o : Output)
  | variable (v : Variable)
  | provider (p : Provider)
  | localValue (l : LocalValue)
deriving Inhabited

namespace Raw

/-- Null where nothing is set. -/
def ofOption {α : Type} (f : α → Raw) (value : Option α) : Raw := (value.map f).getD .null

def ofText? (value : Option String) : Raw := ofOption text value

def ofTexts? (value : Option (List String)) : Raw := ofOption (fun ts => list (ts.map text)) value

def ofMap? (value : Option RawMap) : Raw := ofOption map value

end Raw

def Located.row (place : Located) : RawMap := [
  ("path", .text place.path),
  ("start_line", .int place.span.startLine),
  ("end_line", .int place.span.endLine),
  ("source", .text place.span.source)]

def Resource.row (r : Resource) : RawMap := r.place.row ++ [
  ("type", .text r.type),
  ("name", .text r.name),
  ("address", .text r.address),
  ("mode", .text r.mode),
  ("index", r.index),
  ("count", .ofOption .int r.count),
  ("count_src", .ofText? r.countSource),
  ("for_each", .ofText? r.forEach),
  ("depends_on", .ofTexts? r.dependsOn),
  ("provider", .ofText? r.provider),
  ("lifecycle", .ofMap? r.lifecycle),
  ("arguments", .ofMap? r.arguments),
  ("attributes", .ofMap? r.attributes),
  ("attributes_std", .ofMap? r.standardAttributes)]

def DataSource.row (d : DataSource) : RawMap := d.place.row ++ [
  ("type", .text d.type),
  ("name", .text d.name),
  ("count", .ofOption .int d.count),
  ("count_src", .ofText? d.countSource),
  ("for_each", .ofText? d.forEach),
  ("depends_on", .ofTexts? d.dependsOn),
  ("provider", .ofText? d.provider),
  ("lifecycle", .ofMap? d.lifecycle),
  ("arguments", .map d.arguments)]

def Module.row (m : Module) : RawMap := m.place.row ++ [
  ("name", .text m.name),
  ("module_source", .ofText? m.moduleSource),
  ("version", .ofText? m.version),
  ("count", .ofOption .int m.count),
  ("count_src", .ofText? m.countSource),
  ("for_each", .ofText? m.forEach),
  ("depends_on", .ofTexts? m.dependsOn),
  ("providers", .ofMap? m.providers),
  ("arguments", .map m.arguments)]

def Output.row (o : Output) : RawMap := o.place.row ++ [
  ("name", .text o.name),
  ("value", .ofText? o.value),
  ("description", .ofText? o.description),
  ("sensitive", .bool o.sensitive),
  ("depends_on", .ofTexts? o.dependsOn),
  ("arguments", .map o.arguments)]

def Variable.row (v : Variable) : RawMap := v.place.row ++ [
  ("name", .text v.name),
  ("type", .ofText? v.type),
  ("default_value", .ofText? v.defaultValue),
  ("value", .ofText? v.value),
  ("description", .ofText? v.description),
  ("sensitive", .bool v.sensitive),
  ("nullable", .ofOption .bool v.nullable),
  ("validation", .text v.validation),
  ("arguments", .map v.arguments)]

def Provider.row (p : Provider) : RawMap := p.place.row ++ [
  ("name", .text p.name),
  ("alias", .ofText? p.aliasName),
  ("version", .ofText? p.version),
  ("arguments", .map p.arguments)]

def LocalValue.row (l : LocalValue) : RawMap := l.place.row ++ [
  ("name", .text l.name),
  ("value", .text l.value)]

namespace Entity

def row : Entity → RawMap
  | .resource r => r.row
  | .dataSource d => d.row
  | .module m => m.row
  | .output o => o.row
  | .variable v => v.row
  | .provider p => p.row
  | .localValue l => l.row

def place : Entity → Located
  | .resource r => r.place
  | .dataSource d => d.place
  | .module m => m.place
  | .output o => o.place
  | .variable v => v.place
  | .provider p => p.place
  | .localValue l => l.place

end Entity

end TerraIndex
