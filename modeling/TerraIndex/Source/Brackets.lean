/-!
# Brackets of a line

The brackets and braces of a text that stand outside double-quoted strings, with their columns.
Inside a string a backslash takes the next character with it. Every line is read on its own: a
string does not run on to the next line.
-/

namespace TerraIndex

/-- Where a reader of brackets stands: outside strings, inside one, or behind a backslash in it. -/
inductive QuoteState
  | outside
  | inside
  | escaped
deriving DecidableEq

def isOpening (c : Char) : Bool := c == '{' || c == '['

def isClosing (c : Char) : Bool := c == '}' || c == ']'

/-- The brackets from the given column on. -/
def bracketsFrom : Nat → QuoteState → List Char → List (Nat × Char)
  | _, _, [] => []
  | column, .escaped, _ :: cs => bracketsFrom (column + 1) .inside cs
  | column, .inside, c :: cs =>
    let state := if c = '\\' then .escaped else if c = '"' then .outside else .inside
    bracketsFrom (column + 1) state cs
  | column, .outside, c :: cs =>
    if c = '"' then bracketsFrom (column + 1) .inside cs
    else if isOpening c || isClosing c then (column, c) :: bracketsFrom (column + 1) .outside cs
    else bracketsFrom (column + 1) .outside cs

/-- The brackets of a line, reading it from the given column on. -/
def brackets (line : List Char) (start : Nat) : List (Nat × Char) :=
  bracketsFrom start .outside (line.drop start)

/-- How much deeper a bracket leads. -/
def bracketStep (c : Char) : Int := if isOpening c then 1 else -1

def nestingDelta (line : List Char) : Int :=
  (brackets line 0).foldr (fun (_, c) deeper => bracketStep c + deeper) 0

end TerraIndex
