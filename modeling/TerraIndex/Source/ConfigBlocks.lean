import TerraIndex.Document.Reserved
import TerraIndex.Hcl.Value
import TerraIndex.Source.Brackets
import TerraIndex.Source.Pattern
import TerraIndex.Source.Span
import TerraIndex.Text.LowerCase
/-!
# Blocks of configuration files

A `ConfigText` is the text of a configuration, line by line, with the tree parsed from it. The
parser notes the lines of every block in its body, so `locate` walks the tree: block type and
labels are compared without regard to case, and of several matching blocks one is chosen by number.

`locateAttribute` finds the lines of one attribute inside a block, by counting brackets.
-/

namespace TerraIndex

structure ConfigText where
  lines : List (List Char)
  tree : Body

/-- Types of blocks that can be located, with the number of their labels. -/
def labelCounts : List (String × Nat) := [
  ("terraform", 0), ("required_providers", 0), ("provider", 1), ("variable", 1), ("locals", 0),
  ("output", 1), ("module", 1), ("resource", 2), ("data", 2), ("moved", 0)]

/-- No block of the asked kind and labels is there. -/
structure BlockNotFound where
  kind : String
  labels : List String
deriving DecidableEq

/-- Drops the blanks at the end. -/
def BlockNotFound.message (e : BlockNotFound) : String :=
  let labels := e.labels.map fun label => '"' :: label.toList ++ ['"']
  let text := "block not found: ".toList ++ e.kind.toList ++ ' ' :: sepBy [' '] labels
  String.ofList (Text.trimEnd text)

/-- A line beyond the end of the text was asked for. -/
inductive LineOutOfRange
  | mk
deriving DecidableEq

def LineOutOfRange.message : LineOutOfRange → String
  | .mk => "list index out of range"

def sameFolded (a b : String) : Bool := Text.lower a == Text.lower b

mutual

/-- The maps that the labels lead to, passing over reserved keys. -/
def descend (labels : List String) : Node → List Body
  | .map entries =>
    match labels with
    | [] => [entries]
    | label :: labels => descendEntries label labels entries
  | _ => []

def descendEntries (label : String) (labels : List String) :
    List (String × Node) → List Body
  | [] => []
  | (key, child) :: rest =>
    if !isReserved key && sameFolded key label then
      descend labels child ++ descendEntries label labels rest
    else descendEntries label labels rest

end

/-- The blocks kept under one key: the items of a list, or the one node itself. -/
def blocksOf (node : Node) : List Node :=
  match node with
  | .list items => items
  | node => [node]

/-- The number of a line noted under a key, or zero where none is. -/
def lineNumber (body : Body) (key : String) : Int := ((body.child? key).bind Node.int?).getD 0

namespace ConfigText

def ofContent (content : List Char) (tree : Body) : ConfigText :=
  ⟨Text.splitNewlines content, tree⟩

/-- The lines from one number to another, without a newline at the end. -/
def sourceText (text : ConfigText) (first last : Nat) : String :=
  String.ofList (Text.joinNewlines ((text.lines.take last).drop (first - 1)))

/-- The bodies of all blocks of a kind with the given labels, in the order of the tree. -/
def matchingBodies (text : ConfigText) (kind : String) (labels : List String) : List Body :=
  text.tree.flatMap fun (key, value) =>
    if sameFolded key kind then (blocksOf value).flatMap (descend labels) else []

/-- The span noted in a body. -/
def spanOf (text : ConfigText) (body : Body) : Span :=
  let first := lineNumber body Hcl.startKey
  let last := lineNumber body Hcl.endKey
  if first ≤ 0 ∨ last < first then .empty
  else ⟨first, last, text.sourceText first.toNat last.toNat⟩

/-- The span of the block numbered `occurrence` among those that match. -/
def locate (text : ConfigText) (kind : String) (labels : List String) (occurrence : Int) : Span :=
  match entryAt? labelCounts (Text.lower kind) with
  | none => .empty
  | some count =>
    if labels.length ≠ count ∨ occurrence < 0 then .empty
    else
      match (text.matchingBodies kind labels)[occurrence.toNat]? with
      | some body => text.spanOf body
      | none => .empty

def require (text : ConfigText) (kind : String) (labels : List String) (occurrence : Int) :
    Except BlockNotFound Span :=
  let span := text.locate kind labels occurrence
  if span.found then .ok span else .error ⟨kind, labels⟩

/-- The line at which the brackets counted so far balance, or the limit. The lines given begin
with the one numbered `line`. -/
def attributeEnd (limit : Int) : Int → Int → List (List Char) → Except LineOutOfRange Int
  | depth, line, lines =>
    if limit < line then .ok limit
    else
      match lines with
      | [] => .error .mk
      | text :: rest =>
        let depth := depth + nestingDelta text
        if depth ≤ 0 then .ok line else attributeEnd limit depth (line + 1) rest

/-- The first and last line of an attribute at bracket depth one. -/
def attributeLines (name : List Char) (limit : Int) :
    Int → Int → List (List Char) → Except LineOutOfRange (Option (Int × Int))
  | depth, line, lines =>
    if limit < line then .ok none
    else
      match lines with
      | [] => .error .mk
      | text :: rest =>
        if depth = 1 ∧ assigns name text then do
          let last ← attributeEnd limit 0 line (text :: rest)
          return some (line, last)
        else attributeLines name limit (depth + nestingDelta text) (line + 1) rest

/-- The span of the attribute of a name at the top level of a block. -/
def locateAttribute (text : ConfigText) (block : Span) (name : String) :
    Except LineOutOfRange Span := do
  if !block.found then return .empty
  let lines := text.lines.drop (block.startLine.toNat - 1)
  match ← attributeLines name.toList block.endLine 0 block.startLine lines with
  | some (first, last) => return ⟨first, last, text.sourceText first.toNat last.toNat⟩
  | none => return .empty

end ConfigText

end TerraIndex
