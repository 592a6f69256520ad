import TerraIndex.Text.Blank
import TerraIndex.Text.Quoted
/-!
# Keys at the start of a line

What the scanners look for in a line: a JSON key with a colon and an opening bracket behind it, or
the name of an attribute with an equals sign. Blanks may stand around the colon and the sign.
-/

namespace TerraIndex

/-- What follows `front` in a text that begins with it. -/
def dropFront? (front cs : List Char) : Option (List Char) :=
  if front.isPrefixOf cs then some (cs.drop front.length) else none

/-- What follows the key, a colon and the blanks around it. -/
def behindKey? (key : String) (cs : List Char) : Option (List Char) :=
  match (dropFront? (Text.quoteMinimal key.toList) cs).map Text.trimStart with
  | some (':' :: rest) => some (Text.trimStart rest)
  | _ => none

/-- The line begins with a key whose value opens a list or a map in the same line. -/
def opensContainer (key : String) (line : List Char) : Bool :=
  match behindKey? key (Text.trim line) with
  | some ('[' :: _) => true
  | some ('{' :: _) => true
  | _ => false

/-- The line begins with a key whose value opens a map in the same line. -/
def opensMap (key : String) (line : List Char) : Bool :=
  match behindKey? key (Text.trim line) with
  | some ('{' :: _) => true
  | _ => false

/-- The text begins with a name and a single equals sign. -/
def isAssignment (name cs : List Char) : Bool :=
  match (dropFront? name cs).map Text.trimStart with
  | some ('=' :: '=' :: _) => false
  | some ('=' :: _) => true
  | _ => false

/-- The line assigns to the name behind some of the blanks it begins with. -/
def assigns (name : List Char) : List Char → Bool
  | [] => isAssignment name []
  | c :: cs => isAssignment name (c :: cs) || (Text.isBlank c && assigns name cs)

end TerraIndex
