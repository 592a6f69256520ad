import TerraIndex.Json.Decode
import TerraIndex.Source.Brackets
/-!
# Nesting of JSON texts

The decoder enters the lists and maps of a text one inside the other, and can do so only as far as
there is room. `overflow?` gives the opening bracket at which it has none left, if there is one in
what it reads of a text.
-/

namespace TerraIndex.Json

/-- The first bracket that opens where `room` others are open, `depth` of which are so from the
start. -/
def firstBeyond? (room : Nat) : Nat → List Char → Option Char
  | _, [] => none
  | depth, c :: rest =>
    if isOpening c then
      if depth < room then firstBeyond? room (depth + 1) rest else some c
    else firstBeyond? room (depth - 1) rest

/-- What the decoder reads of a text: all of it, or as far as the problem that it stops at. -/
def readPart (text : List Char) : List Char :=
  match decode text with
  | .ok _ => text
  | .error fault => text.take fault.position

/-- The bracket that opens the first list or map with `room` others around it, if the decoder comes
to it. -/
def overflow? (room : Nat) (text : List Char) : Option Char :=
  firstBeyond? room 0 ((brackets (readPart text) 0).map (·.2))

end TerraIndex.Json
