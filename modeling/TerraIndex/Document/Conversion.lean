import TerraIndex.Document.Node
/-!
# From decoded values to documents and back

`Node.ofRaw` accepts exactly the values made of null, booleans, integers, finite numbers, strings,
lists and maps; a tuple becomes a list. It refuses any other value by the first leaf, depth first
and from left to right, that is none of these. `Node.toRaw` is the way back.

`Raw.overflows` says whether the conversion comes to a list or map that stands in too many others.
-/

namespace TerraIndex.Node

mutual

def ofRaw : Raw → Except UnsupportedValue Node
  | .null => .ok (.scalar .null)
  | .bool b => .ok (.scalar (.bool b))
  | .int n => .ok (.scalar (.int n))
  | .float x => if x.isFinite then .ok (.scalar (.float x)) else .error ⟨"non-finite float"⟩
  | .text s => .ok (.scalar (.text s))
  | .list items => list <$> ofRawList items
  | .tuple items => list <$> ofRawList items
  | .map entries => map <$> ofRawEntries entries
  | .other typeName => .error ⟨typeName⟩

def ofRawList : List Raw → Except UnsupportedValue (List Node)
  | [] => .ok []
  | raw :: rest => do
    let node ← ofRaw raw
    let nodes ← ofRawList rest
    return node :: nodes

def ofRawEntries : List (String × Raw) → Except UnsupportedValue (List (String × Node))
  | [] => .ok []
  | (key, raw) :: rest => do
    let node ← ofRaw raw
    let nodes ← ofRawEntries rest
    return (key, node) :: nodes

end

mutual

def toRaw : Node → Except UnsupportedValue Raw
  | .scalar s => .ok s.toRaw
  | .list items => .list <$> toRawList items
  | .map entries => .map <$> toRawEntries entries
  | .stray value => .error ⟨value.typeName⟩

def toRawList : List Node → Except UnsupportedValue (List Raw)
  | [] => .ok []
  | node :: rest => do
    let raw ← toRaw node
    let raws ← toRawList rest
    return raw :: raws

def toRawEntries : List (String × Node) → Except UnsupportedValue (List (String × Raw))
  | [] => .ok []
  | (key, node) :: rest => do
    let raw ← toRaw node
    let raws ← toRawEntries rest
    return (key, raw) :: raws

end

end TerraIndex.Node

namespace TerraIndex.Raw

mutual

/-- The conversion of a value, which enters lists and maps one inside the other, comes to one that
there is no room for before it comes to a leaf that it refuses. -/
def overflows : Raw → Nat → Bool
  | .list items, room => room == 0 || itemsOverflow items (room - 1)
  | .tuple items, room => room == 0 || itemsOverflow items (room - 1)
  | .map entries, room => room == 0 || entriesOverflow entries (room - 1)
  | _, _ => false

def itemsOverflow : List Raw → Nat → Bool
  | [], _ => false
  | item :: rest, room =>
    overflows item room || ((Node.ofRaw item).isOk && itemsOverflow rest room)

def entriesOverflow : List (String × Raw) → Nat → Bool
  | [], _ => false
  | (_, value) :: rest, room =>
    overflows value room || ((Node.ofRaw value).isOk && entriesOverflow rest room)

end

end TerraIndex.Raw
