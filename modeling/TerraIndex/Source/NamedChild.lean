import TerraIndex.Source.Brackets
import TerraIndex.Source.Pattern
import TerraIndex.Source.Span
import TerraIndex.Text.Lines
/-!
# Named children of a container

`NamedChild.locate` finds the map stored under a name directly inside a container, such as one
output inside `"outputs": { … }`, by reading the text line by line and counting brackets. The
child has to begin its line. A container that closes without the child is left behind and the
search goes on.
-/

namespace TerraIndex

structure NamedChild where
  container : String
  name : String
deriving DecidableEq

namespace NamedChild

/-- Where the search stands: in front of a container, inside one, or inside the child, with the
bracket depth counted from the line that opened the container. -/
inductive State
  | searching
  | inContainer (depth : Int)
  | inChild (start : Nat) (depth : Int)

/-- The first and last line of the child, where `line` is the number of the first line given. -/
def scan (child : NamedChild) : State → Nat → List (List Char) → Option (Nat × Nat)
  | _, _, [] => none
  | .searching, line, text :: rest =>
    let depth := nestingDelta text
    if opensContainer child.container text && 0 < depth then
      child.scan (.inContainer depth) (line + 1) rest
    else child.scan .searching (line + 1) rest
  | .inContainer before, line, text :: rest =>
    let depth := before + nestingDelta text
    if before = 1 ∧ opensMap child.name text then
      if depth ≤ 1 then some (line, line) else child.scan (.inChild line depth) (line + 1) rest
    else if depth ≤ 0 then child.scan .searching (line + 1) rest
    else child.scan (.inContainer depth) (line + 1) rest
  | .inChild start before, line, text :: rest =>
    let depth := before + nestingDelta text
    if depth ≤ 1 then some (start, line) else child.scan (.inChild start depth) (line + 1) rest

def locate (child : NamedChild) (text : List Char) : Span :=
  let lines := Text.scanLines text
  match child.scan .searching 1 lines with
  | some (first, last) => ⟨first, last, String.ofList (Text.linesText lines first last)⟩
  | none => .empty

end NamedChild

end TerraIndex
