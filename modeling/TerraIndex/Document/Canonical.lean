import TerraIndex.Document.Node
import TerraIndex.Number.Digits
import TerraIndex.Number.Shortest
import TerraIndex.Text.Quoted
/-!
# Canonical text

The canonical text of a node is JSON without blanks, in printable ASCII, with the entries of every
map sorted by key. A node that holds a non-finite number, an integer of too many digits or a leaf
foreign to documents has none.
-/

namespace TerraIndex

/-- Parts with a separator between them. -/
def sepBy (separator : List Char) : List (List Char) → List Char
  | [] => []
  | [part] => part
  | part :: parts => part ++ separator ++ sepBy separator parts

def boolText (b : Bool) : List Char := if b then "true".toList else "false".toList

/-- The decimal form of an integer, however many digits it has. -/
def intText (n : Int) : List Char :=
  match n with
  | .ofNat k => k.repr.toList
  | .negSucc k => '-' :: (k + 1).repr.toList

/-- The text that an integer is written as, which has `maxIntegerDigits` digits at most. -/
def intText? (n : Int) : Option (List Char) :=
  if n.natAbs.repr.toList.length ≤ maxIntegerDigits then some (intText n) else none

def Scalar.canonical (s : Scalar) : Except UnsupportedValue (List Char) :=
  match s with
  | .null => .ok "null".toList
  | .bool b => .ok (boolText b)
  | .int n =>
    match intText? n with
    | some cs => .ok cs
    | none => .error ⟨s.typeName⟩
  | .float x => if x.isFinite then .ok x.text.toList else .error ⟨s.typeName⟩
  | .text s => .ok (Text.quoteAscii s.toList)
  | .foreign _ => .error ⟨s.typeName⟩

namespace Node

/-- The first failure in the order of a list of results, or all their values. -/
def collect {α β : Type} : List (α × Except UnsupportedValue β) →
    Except UnsupportedValue (List (α × β))
  | [] => .ok []
  | (a, result) :: rest => do
    let b ← result
    let bs ← collect rest
    return (a, b) :: bs

mutual

def canonicalChars : Node → Except UnsupportedValue (List Char)
  | .scalar s => s.canonical
  | .list items => do
    let parts ← canonicalList items
    return '[' :: sepBy [','] parts ++ [']']
  | .map entries => do
    let parts ← collect (sortEntries (canonicalEntries entries))
    let members := parts.map fun (k, v) => Text.quoteAscii k.toList ++ ':' :: v
    return '{' :: sepBy [','] members ++ ['}']
  | .stray value => .error ⟨value.typeName⟩

def canonicalList : List Node → Except UnsupportedValue (List (List Char))
  | [] => .ok []
  | node :: rest => do
    let part ← canonicalChars node
    let parts ← canonicalList rest
    return part :: parts

def canonicalEntries :
    List (String × Node) → List (String × Except UnsupportedValue (List Char))
  | [] => []
  | (key, node) :: rest => (key, canonicalChars node) :: canonicalEntries rest

end

def canonical (node : Node) : Except UnsupportedValue String :=
  String.ofList <$> node.canonicalChars

/-- Strings stand for themselves, everything else for its canonical text. -/
def plainText (node : Node) : Except UnsupportedValue String :=
  match node.text? with
  | some s => .ok s
  | none => node.canonical

end Node

end TerraIndex
