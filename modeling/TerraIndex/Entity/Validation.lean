import TerraIndex.Document.Canonical
import TerraIndex.Text.Blank
/-!
# Validation blocks

The text of the `validation` blocks in the source of a variable: from that word, with blanks and an
opening brace behind it, to the next closing brace, with at least one character between.
-/

namespace TerraIndex

/-- The block that a text begins with, and what follows it. -/
def validationAt? (cs : List Char) : Option (List Char × List Char) :=
  let word := "validation".toList
  if word.isPrefixOf cs then
    let blanks := (cs.drop word.length).takeWhile Text.isBlank
    match (cs.drop word.length).dropWhile Text.isBlank with
    | '{' :: rest =>
      let inner := rest.takeWhile (· != '}')
      match rest.dropWhile (· != '}') with
      | '}' :: left =>
        if inner.isEmpty then none else some (word ++ blanks ++ '{' :: inner ++ ['}'], left)
      | _ => none
    | _ => none
  else none

/-- The blocks in a text, from left to right; each step consumes a character. -/
def validationBlocks : Nat → List Char → List (List Char)
  | 0, _ => []
  | _, [] => []
  | fuel + 1, c :: cs =>
    match validationAt? (c :: cs) with
    | some (block, left) => block :: validationBlocks fuel left
    | none => validationBlocks fuel cs

/-- The blocks with a blank line between them, or none where there is no block. -/
def validationText? (source : List Char) : Option String :=
  match validationBlocks source.length source with
  | [] => none
  | blocks => some (String.ofList (sepBy ['\n', '\n'] blocks))

end TerraIndex
