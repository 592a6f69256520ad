import TerraIndex.Json.Encode
import TerraIndex.Source.ResourceList
/-!
# Blocks of single-line files

Line numbers say nothing about a file of one line. `SingleLine.locate` decodes the value behind
each occurrence of the container's key, takes the first that holds the target and writes the
target again, minified, as the source. The span is the whole file even where nothing is found.
-/

namespace TerraIndex

/-- What is wanted of a container: the value under a name, or an element that passes a test. -/
inductive Target
  | child (name : String)
  | element (test : ElementTest)
deriving DecidableEq

def Target.select? (target : Target) (value : Raw) : Option Raw :=
  match target, value with
  | .child name, .map entries => entryAt? entries name
  | .element test, .list items => items.find? test.accepts
  | _, _ => none

structure SingleLine where
  container : String
  target : Target
deriving DecidableEq

namespace SingleLine

/-- The target in the value that a text begins with. -/
def inFirst? (line : SingleLine) (text : List Char) : Option Raw :=
  match Json.decodeFirst text with
  | .ok (value, _) => line.target.select? value
  | .error _ => none

/-- The target in the first value that holds it, behind occurrences of the key that do not
overlap; each step consumes a character. -/
def search (line : SingleLine) : Nat → List Char → Option Raw
  | 0, _ => none
  | fuel + 1, text =>
    match behindKey? line.container text with
    | some rest =>
      match line.inFirst? rest with
      | some value => some value
      | none => line.search fuel rest
    | none => line.search fuel (text.drop 1)

def locate (line : SingleLine) (text : List Char) : Span :=
  let source :=
    match line.search text.length text with
    | some value => Json.Style.minified.encode value
    | none => []
  ⟨1, (Text.scanLines text).length, String.ofList source⟩

end SingleLine

end TerraIndex
