import TerraIndex.Json.Decode
import TerraIndex.Source.Brackets
import TerraIndex.Source.Pattern
import TerraIndex.Source.Span
import TerraIndex.Text.Lines
/-!
# Elements of a resource list

`ResourceList.locate` finds the first element of a list that has given strings under given keys and
lacks other keys. Elements are delimited bracket by bracket, so that several may share a line, and
each is decoded once it closes.
-/

namespace TerraIndex

/-- What an element must hold: the strings under the keys of `fields`, and none of the keys in
`absent`. -/
structure ElementTest where
  fields : List (String × String)
  absent : List String
deriving DecidableEq

namespace ElementTest

/-- The value is the given string. -/
def isText (value : Option Raw) (s : String) : Bool :=
  match value with
  | some (.text t) => t == s
  | _ => false

def accepts (test : ElementTest) (element : Raw) : Bool :=
  match element with
  | .map entries =>
    test.absent.all (fun key => !hasEntry entries key)
      && test.fields.all fun (key, s) => isText (entryAt? entries key) s
  | _ => false

/-- A resource of a state file. The elements of the root module have no key `module`. -/
def ofState (type name mode module : String) : ElementTest :=
  let fields := [("type", type), ("name", name)] ++ if mode = "" then [] else [("mode", mode)]
  if module = "" then ⟨fields, ["module"]⟩ else ⟨fields ++ [("module", module)], []⟩

/-- A planned resource. -/
def ofPlan (address type : String) : ElementTest := ⟨[("address", address), ("type", type)], []⟩

end ElementTest

structure ResourceList where
  container : String
  test : ElementTest
deriving DecidableEq

/-- A line, counted from one, and a column in it, counted from zero. -/
structure Place where
  line : Nat
  column : Nat
deriving DecidableEq

/-- The text from one place up to and with another. -/
def textBetween (lines : List (List Char)) (first last : Place) : List Char :=
  let covered := (lines.take last.line).drop (first.line - 1)
  match covered with
  | [] => []
  | [line] => (line.take (last.column + 1)).drop first.column
  | line :: rest =>
    let final := (rest.getLast?.getD []).take (last.column + 1)
    Text.joinNewlines (line.drop first.column :: rest.dropLast ++ [final])

namespace ResourceList

/-- Where the search stands: in front of a list, or at a bracket depth inside one, possibly with an
element open since some place. -/
inductive State
  | searching
  | inside (depth : Nat) (start : Option Place)

/-- What the brackets of a line lead to: an element found, by the line it starts in, or a state. -/
inductive Progress
  | found (start : Nat)
  | state (s : State)

/-- The element between two places passes the test. -/
def accepts (list : ResourceList) (lines : List (List Char)) (first last : Place) : Bool :=
  match Json.decode (textBetween lines first last) with
  | .ok element => list.test.accepts element
  | .error _ => false

def scanBrackets (list : ResourceList) (lines : List (List Char)) (line : Nat) :
    Nat → Option Place → List (Nat × Char) → Progress
  | depth, start, [] => .state (.inside depth start)
  | depth, start, (column, c) :: rest =>
    if isOpening c then
      let start := if depth = 1 then some ⟨line, column⟩ else start
      list.scanBrackets lines line (depth + 1) start rest
    else
      match start with
      | some first =>
        if depth = 2 then
          if list.accepts lines first ⟨line, column⟩ then .found first.line
          else list.scanBrackets lines line (depth - 1) none rest
        else if depth ≤ 1 then .state .searching
        else list.scanBrackets lines line (depth - 1) start rest
      | none =>
        if depth ≤ 1 then .state .searching
        else list.scanBrackets lines line (depth - 1) none rest

/-- The progress made in one line. A list is entered in the line that begins with its key, and
the rest of a line that closes it is passed over. -/
def scanLine (list : ResourceList) (lines : List (List Char)) (state : State) (line : Nat)
    (text : List Char) : Progress :=
  match state with
  | .inside depth start => list.scanBrackets lines line depth start (brackets text 0)
  | .searching =>
    if opensContainer list.container text then
      list.scanBrackets lines line 0 none (brackets text (text.takeWhile Text.isBlank).length)
    else .state .searching

/-- The first and last line of the element, where `line` is the number of the first line given. -/
def scan (list : ResourceList) (lines : List (List Char)) :
    State → Nat → List (List Char) → Option (Nat × Nat)
  | _, _, [] => none
  | state, line, text :: rest =>
    match list.scanLine lines state line text with
    | .found start => some (start, line)
    | .state next => list.scan lines next (line + 1) rest

def locate (list : ResourceList) (text : List Char) : Span :=
  let lines := Text.scanLines text
  match list.scan lines .searching 1 lines with
  | some (first, last) => ⟨first, last, String.ofList (Text.linesText lines first last)⟩
  | none => .empty

end ResourceList

end TerraIndex
