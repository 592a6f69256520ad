import TerraIndex.File.Kind
import TerraIndex.Source.NamedChild
import TerraIndex.Source.SingleLine
/-!
# Choosing a locator

Blocks of plan and state exports are found in the text itself. `Locator.select` picks the way by
the kind of the block, the kind of the file and whether the text has more than one line. It
refuses kinds of block that exports do not hold and a wrong number of labels.
-/

namespace TerraIndex

/-- A block within a file, such as `resource` with the labels `aws_vpc` and `main`. -/
structure BlockRef where
  kind : String
  labels : List String
deriving DecidableEq

inductive Locator
  | namedChild (child : NamedChild)
  | resourceList (list : ResourceList)
  | singleLine (line : SingleLine)
deriving DecidableEq

inductive SelectError
  | unknownKind (kind : String)
  | labelCount
deriving DecidableEq

/-- A wrong number of labels has no message of its own. -/
def SelectError.message? : SelectError → Option String
  | .unknownKind kind =>
    some ("no text-scan locator for block kind " ++ String.ofList (Text.display kind.toList))
  | .labelCount => none

namespace Locator

def locate (locator : Locator) (text : List Char) : Span :=
  match locator with
  | .namedChild child => child.locate text
  | .resourceList list => list.locate text
  | .singleLine line => line.locate text

def resourceContainer : String := "resources"

/-- Locates an element of the resource list. -/
def ofTest (isSingleLine : Bool) (test : ElementTest) : Locator :=
  if isSingleLine then .singleLine ⟨resourceContainer, .element test⟩
  else .resourceList ⟨resourceContainer, test⟩

/-- Locates a named child of a container. -/
def ofChild (isSingleLine : Bool) (container name : String) : Locator :=
  if isSingleLine then .singleLine ⟨container, .child name⟩
  else .namedChild ⟨container, name⟩

/-- The test for a resource by its labels: address and type in a plan; type, name and possibly
mode and module in a state. -/
def testOf (fileKind : FileKind) (labels : List String) : Except SelectError ElementTest :=
  match fileKind, labels with
  | .plan, [address, type] => .ok (.ofPlan address type)
  | .plan, _ => .error .labelCount
  | _, type :: name :: qualifiers =>
    let mode := (qualifiers.head?).getD ""
    let module := ((qualifiers.drop 1).head?).getD ""
    .ok (.ofState type name mode module)
  | _, _ => .error .labelCount

def select (ref : BlockRef) (fileKind : FileKind) (text : List Char) :
    Except SelectError Locator :=
  let isSingleLine := (Text.scanLines text).length ≤ 1
  if ref.kind = "output" ∨ ref.kind = "variable" then
    let container := if ref.kind = "output" then "outputs" else "variables"
    match ref.labels with
    | [name] => .ok (ofChild isSingleLine container name)
    | _ => .error .labelCount
  else if ref.kind = "resource" then
    (testOf fileKind ref.labels).map (ofTest isSingleLine)
  else .error (.unknownKind ref.kind)

end Locator

end TerraIndex
