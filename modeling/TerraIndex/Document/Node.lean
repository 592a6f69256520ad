import TerraIndex.Document.Raw
/-!
# Document trees

A document is a tree of scalars, lists and maps. The constructors `Scalar.foreign` and
`Node.stray` stand for leaves that no file can produce: a scalar that holds something else, and a
value in a place where a node belongs. Every function on trees says what it does with them.

A `Body` is the list of entries of a map, in document order.
-/

namespace TerraIndex

inductive Scalar
  | null
  | bool (b : Bool)
  | int (n : Int)
  | float (x : Binary64)
  | text (s : String)
  | foreign (value : Raw)
deriving Inhabited

inductive Node
  | scalar (s : Scalar)
  | list (items : List Node)
  | map (entries : List (String × Node))
  | stray (value : Raw)
deriving Inhabited

abbrev Body := List (String × Node)

/-- The primitive shapes that an argument can be required to have. -/
inductive Shape
  | string
  | number
  | bool
  | list
  | map
  | any
deriving DecidableEq

/-- A value has no place in a document, or no text. -/
structure UnsupportedValue where
  typeName : String
deriving DecidableEq

def UnsupportedValue.message (e : UnsupportedValue) : String :=
  "failed to convert value due to unknown type: " ++ e.typeName

namespace Scalar

def typeName : Scalar → String
  | null => "NoneType"
  | bool _ => "bool"
  | int _ => "int"
  | float _ => "float"
  | text _ => "str"
  | foreign value => value.typeName

def toRaw : Scalar → Raw
  | null => .null
  | bool b => .bool b
  | int n => .int n
  | float x => .float x
  | text s => .text s
  | foreign value => value

end Scalar

namespace Node

def shape : Node → Shape
  | map _ => .map
  | list _ => .list
  | scalar (.bool _) => .bool
  | scalar (.int _) => .number
  | scalar (.float _) => .number
  | scalar (.text _) => .string
  | scalar .null => .any
  | scalar (.foreign _) => .any
  | stray _ => .any

def text? : Node → Option String
  | scalar (.text s) => some s
  | _ => none

def int? : Node → Option Int
  | scalar (.int n) => some n
  | _ => none

def map? : Node → Option Body
  | map entries => some entries
  | _ => none

/-- The items of a list, and none of anything else. -/
def items : Node → List Node
  | list items => items
  | _ => []

def isNull : Node → Bool
  | scalar .null => true
  | _ => false

end Node

namespace Body

def child? (body : Body) (key : String) : Option Node := entryAt? body key

def has (body : Body) (key : String) : Bool := hasEntry body key

/-- The string under a key, or `default` where there is none. -/
def textAt (body : Body) (key : String) (default : String) : String :=
  ((body.child? key).bind Node.text?).getD default

/-- The child under a key, where a null counts as missing. -/
def present? (body : Body) (key : String) : Option Node :=
  match body.child? key with
  | some node => if node.isNull then none else some node
  | none => none

end Body

end TerraIndex
