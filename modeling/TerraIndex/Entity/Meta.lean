import TerraIndex.Document.Canonical
import TerraIndex.Document.Conversion
import TerraIndex.Text.Lines
/-!
# Meta-arguments

Every kind of block has keys with a meaning of their own, its meta-arguments, each with the shape
its value must have. `extract` splits a body into the meta-arguments and the plain arguments: it
goes through the entries in order, fails at the first meta-argument of the wrong shape, and
otherwise keeps the other keys in order. What it notes for a meta-argument depends on that key's
node alone.
-/

namespace TerraIndex

/-- Why a single entity could not be built. An index with an integer of too many digits cannot be
written into an address. -/
inductive BuildError
  | typeMismatch (kind name key : String) (expected : Shape)
  | unsupportedValue (e : UnsupportedValue)
  | longIndex
deriving DecidableEq

def Shape.text : Shape → String
  | .string => "string"
  | .number => "number"
  | .bool => "bool"
  | .list => "list"
  | .map => "map"
  | .any => "any"

def BuildError.message : BuildError → String
  | .typeMismatch kind name key expected =>
    "the '" ++ key ++ "' argument for " ++ kind ++ " '" ++ name ++ "' must be of type "
      ++ expected.text
  | .unsupportedValue e => e.message
  | .longIndex =>
    "Exceeds the limit (" ++ maxIntegerDigits.repr ++ " digits) for integer string conversion; "
      ++ "use sys.set_int_max_str_digits() to increase the limit"

/-- A value without a place in a document makes the entity that holds it fail. -/
def supported {α : Type} (result : Except UnsupportedValue α) : Except BuildError α :=
  result.mapError .unsupportedValue

inductive MetaArg
  | count
  | forEach
  | dependsOn
  | provider
  | lifecycle
  | providers
  | moduleSource
  | version
  | aliasName
  | description
  | sensitive
  | nullable
  | value
  | defaultValue
  | type
deriving DecidableEq

/-- What the meta-arguments of a body say. The text of `count` is authoritative, the integer is
noted where that text is a whole number. -/
structure MetaFields where
  count : Option Int
  countSource : Option String
  forEach : Option String
  dependsOn : Option (List String)
  provider : Option String
  lifecycle : Option (List (String × Raw))
  providers : Option (List (String × Raw))
  moduleSource : Option String
  version : Option String
  aliasName : Option String
  description : Option String
  sensitive : Option Bool
  nullable : Option Bool
  value : Option String
  defaultValue : Option String
  type : Option String
deriving Inhabited

def MetaFields.none : MetaFields :=
  ⟨.none, .none, .none, .none, .none, .none, .none, .none, .none, .none, .none, .none, .none,
    .none, .none, .none⟩

structure Extraction where
  fields : MetaFields
  arguments : List (String × Raw)
deriving Inhabited

namespace MetaArg

/-- The meta-arguments of a kind of block. -/
def table (kind : String) : List (String × MetaArg) :=
  let block := [("count", count), ("for_each", forEach), ("depends_on", dependsOn),
    ("provider", provider), ("lifecycle", lifecycle)]
  if kind = "resource" ∨ kind = "data" then block
  else if kind = "module" then
    [("count", count), ("for_each", forEach), ("depends_on", dependsOn), ("providers", providers),
      ("source", moduleSource), ("version", version)]
  else if kind = "provider" then [("alias", aliasName), ("version", version)]
  else if kind = "output" then
    [("description", description), ("sensitive", sensitive), ("depends_on", dependsOn),
      ("value", value)]
  else if kind = "variable" then
    [("description", description), ("sensitive", sensitive), ("nullable", nullable),
      ("default", defaultValue), ("type", type), ("value", value)]
  else []

def ofKey? (kind key : String) : Option MetaArg := entryAt? (table kind) key

def shape : MetaArg → Shape
  | count | forEach | value | defaultValue => .any
  | dependsOn => .list
  | provider | moduleSource | version | aliasName | description | type => .string
  | lifecycle | providers => .map
  | sensitive | nullable => .bool

end MetaArg

namespace Node

/-- A boolean, or one of the two words for it. -/
def asBool? : Node → Option Bool
  | scalar (.bool b) => some b
  | scalar (.text s) => if s = "true" then some true else if s = "false" then some false else none
  | _ => none

/-- A map or the union of a list of maps, as nested blocks come; later maps win. -/
def asMap (node : Node) : Except UnsupportedValue (List (String × Raw)) :=
  match node with
  | map entries => toRawEntries entries
  | list items =>
    items.foldlM (fun merged item => do
      return mergeEntries merged (← toRawEntries (item.map?.getD []))) []
  | _ => .ok []

/-- The whole number that a literal stands for. -/
def wholeNumber? : Node → Option Int
  | scalar (.int n) => some n
  | scalar (.float x) => x.toInt?
  | _ => none

end Node

/-- The shape is met. A list of maps passes for a map and the words `true` and `false` pass for
booleans. -/
def Shape.accepts (shape : Shape) (node : Node) : Bool :=
  match shape with
  | .any => true
  | .map =>
    match node with
    | .map _ => true
    | .list items => items.all fun item => item.map?.isSome
    | _ => false
  | .bool => node.asBool?.isSome
  | shape => node.shape == shape

/-- The expression inside `${…}` where the text is just that, apart from one newline behind it. -/
def typeExpression (value : String) : String :=
  match Text.dropFinalNewline value.toList with
  | '$' :: '{' :: rest =>
    let inner := rest.dropLast
    if rest.getLast? = some '}' ∧ inner ≠ [] ∧ '\n' ∉ inner then String.ofList inner else value
  | _ => value

/-- Notes a meta-argument whose value has the right shape. -/
def MetaArg.note (arg : MetaArg) (node : Node) (fields : MetaFields) :
    Except UnsupportedValue MetaFields := do
  match arg with
  | .count =>
    return { fields with countSource := some (← node.canonical), count := node.wholeNumber? }
  | .forEach => return { fields with forEach := some (← node.canonical) }
  | .dependsOn => return { fields with dependsOn := some (← node.items.mapM Node.plainText) }
  | .provider => return { fields with provider := node.text? }
  | .lifecycle => return { fields with lifecycle := some (← node.asMap) }
  | .providers => return { fields with providers := some (← node.asMap) }
  | .moduleSource => return { fields with moduleSource := node.text? }
  | .version => return { fields with version := node.text? }
  | .aliasName => return { fields with aliasName := node.text? }
  | .description => return { fields with description := node.text? }
  | .sensitive => return { fields with sensitive := node.asBool? }
  | .nullable => return { fields with nullable := node.asBool? }
  | .value => return { fields with value := some (← node.canonical) }
  | .defaultValue => return { fields with defaultValue := some (← node.canonical) }
  | .type => return { fields with type := node.text?.map typeExpression }

/-- The kind of a block as messages name it. -/
def kindText (kind : String) : String := if kind = "data" then "data source" else kind

/-- Continues an extraction with further entries. -/
def extractFrom (kind name : String) : Extraction → Body → Except BuildError Extraction
  | done, [] => .ok done
  | done, (key, node) :: rest =>
    match MetaArg.ofKey? kind key with
    | none => do
      let raw ← supported node.toRaw
      extractFrom kind name { done with arguments := done.arguments ++ [(key, raw)] } rest
    | some arg =>
      if arg.shape.accepts node then do
        let fields ← supported (arg.note node done.fields)
        extractFrom kind name { done with fields := fields } rest
      else .error (.typeMismatch (kindText kind) name key arg.shape)

def extract (kind name : String) (body : Body) : Except BuildError Extraction :=
  extractFrom kind name ⟨.none, []⟩ body

end TerraIndex
