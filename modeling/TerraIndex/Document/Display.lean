import TerraIndex.Document.Canonical
/-!
# Displayed values

The form in which a value is shown inside addresses, expressions and messages: strings in single
quotes, the words `True`, `False` and `None`, brackets and braces with a blank after separators. A
value that holds an integer of too many digits cannot be shown.
-/

namespace TerraIndex

namespace Display

def bool (b : Bool) : List Char := if b then "True".toList else "False".toList

def null : List Char := "None".toList

def list (parts : List (List Char)) : List Char := '[' :: sepBy [',', ' '] parts ++ [']']

/-- A tuple of one item keeps a comma. -/
def tuple (parts : List (List Char)) : List Char :=
  match parts with
  | [part] => '(' :: part ++ [',', ')']
  | parts => '(' :: sepBy [',', ' '] parts ++ [')']

def map (parts : List (List Char × List Char)) : List Char :=
  '{' :: sepBy [',', ' '] (parts.map fun (k, v) => k ++ [':', ' '] ++ v) ++ ['}']

end Display

namespace Raw

mutual

def display? : Raw → Option (List Char)
  | .null => some Display.null
  | .bool b => some (Display.bool b)
  | .int n => intText? n
  | .float x => some x.text.toList
  | .text s => some (Text.display s.toList)
  | .list items => Display.list <$> displayList? items
  | .tuple items => Display.tuple <$> displayList? items
  | .map entries => Display.map <$> displayEntries? entries
  | .other typeName => some typeName.toList

def displayList? : List Raw → Option (List (List Char))
  | [] => some []
  | value :: rest => do
    let part ← display? value
    let parts ← displayList? rest
    return part :: parts

def displayEntries? : List (String × Raw) → Option (List (List Char × List Char))
  | [] => some []
  | (key, value) :: rest => do
    let part ← display? value
    let parts ← displayEntries? rest
    return (Text.display key.toList, part) :: parts

end

end Raw

end TerraIndex
