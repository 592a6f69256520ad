import TerraIndex.Document.Reserved
import TerraIndex.Entity.Meta
import TerraIndex.Entity.Record
import TerraIndex.Entity.Validation
/-!
# Building entities from blocks

Each builder extracts the meta-arguments of a body and joins them with the place the block was read
from. Bodies from configurations come without reserved keys, except that a resource drops them
itself.
-/

namespace TerraIndex

/-- The address of a resource without index and module. -/
def plainAddress (type name : String) : String := type ++ "." ++ name

def Resource.ofBlock (place : Located) (type name : String) (body : Body) :
    Except BuildError Resource := do
  let address := plainAddress type name
  let ⟨fields, arguments⟩ ← extract "resource" address body.sanitize
  return {
    place, type, name, address
    mode := "managed"
    index := .null
    count := fields.count
    countSource := fields.countSource
    forEach := fields.forEach
    dependsOn := fields.dependsOn
    provider := fields.provider
    lifecycle := fields.lifecycle
    arguments := some arguments
    attributes := none
    standardAttributes := some arguments }

def DataSource.ofBlock (place : Located) (type name : String) (body : Body) :
    Except BuildError DataSource := do
  let ⟨fields, arguments⟩ ← extract "data" (plainAddress type name) body
  return {
    place, type, name, arguments
    count := fields.count
    countSource := fields.countSource
    forEach := fields.forEach
    dependsOn := fields.dependsOn
    provider := fields.provider
    lifecycle := fields.lifecycle }

def Module.ofBlock (place : Located) (name : String) (body : Body) :
    Except BuildError Module := do
  let ⟨fields, arguments⟩ ← extract "module" name body
  return {
    place, name, arguments
    moduleSource := fields.moduleSource
    version := fields.version
    count := fields.count
    countSource := fields.countSource
    forEach := fields.forEach
    dependsOn := fields.dependsOn
    providers := fields.providers }

def Provider.ofBlock (place : Located) (name : String) (body : Body) :
    Except BuildError Provider := do
  let ⟨fields, arguments⟩ ← extract "provider" name body
  return { place, name, arguments, aliasName := fields.aliasName, version := fields.version }

def Output.ofBlock (place : Located) (name : String) (body : Body) :
    Except BuildError Output := do
  let ⟨fields, arguments⟩ ← extract "output" name body
  return {
    place, name, arguments
    value := fields.value
    description := fields.description
    sensitive := fields.sensitive.getD false
    dependsOn := fields.dependsOn }

/-- The text of the validation blocks is taken from the source of the span, if it is wanted. -/
def Variable.ofBlock (place : Located) (name : String) (body : Body) (withValidation : Bool) :
    Except BuildError Variable := do
  let ⟨fields, arguments⟩ ← extract "variable" name body
  let validation := if withValidation then validationText? place.span.source.toList else none
  return {
    place, name, arguments
    type := fields.type
    defaultValue := fields.defaultValue
    value := fields.value
    description := fields.description
    sensitive := fields.sensitive.getD false
    nullable := fields.nullable
    validation := validation.getD "" }

def LocalValue.ofNode (place : Located) (name : String) (value : Node) :
    Except BuildError LocalValue := do
  let text ← supported value.canonical
  return ⟨place, name, text⟩

end TerraIndex
