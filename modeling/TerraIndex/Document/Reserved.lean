import TerraIndex.Document.Node
import TerraIndex.Text.Lines
import TerraIndex.Text.Word
/-!
# Reserved keys

A key is reserved when it is word characters between two pairs of underscores; one newline may
follow. The configuration parser notes positions under such keys. `sanitize` drops them at every
depth and leaves all else as it is. Keys that merely begin with underscores are data.
-/

namespace TerraIndex

def isReservedWord (cs : List Char) : Bool :=
  5 ≤ cs.length && ['_', '_'].isPrefixOf cs && ['_', '_'].isSuffixOf cs && cs.all Text.isWord

def isReserved (key : String) : Bool := isReservedWord (Text.dropFinalNewline key.toList)

namespace Node

mutual

def sanitize : Node → Node
  | .map entries => .map (sanitizeEntries entries)
  | .list items => .list (sanitizeList items)
  | .scalar s => .scalar s
  | .stray value => .stray value

def sanitizeList : List Node → List Node
  | [] => []
  | node :: rest => node.sanitize :: sanitizeList rest

def sanitizeEntries : List (String × Node) → List (String × Node)
  | [] => []
  | (key, node) :: rest =>
    if isReserved key then sanitizeEntries rest else (key, node.sanitize) :: sanitizeEntries rest

end

end Node

def Body.sanitize (body : Body) : Body := Node.sanitizeEntries body

end TerraIndex
