import TerraIndex.Document.Display
import TerraIndex.Document.Conversion
import TerraIndex.Hcl.Parser
/-!
# Values of configurations

Nothing is computed: an expression that is no literal, tuple or object stands for its own text.
Such a text is written `${…}` where it is the value of an attribute, an item or an element, unless
it begins and ends with a quote, which are then dropped (`Value.embedded`).

A block becomes an entry of the list kept under its type: a map from its first label to a map from
its second label and so on to its body. The body carries the lines of the block under `startKey`
and `endKey`.
-/

namespace TerraIndex.Hcl

def startKey : String := "__start_line__"

def endKey : String := "__end_line__"

/-- A key of an object: text, or a constant that is written as text only in the end. -/
inductive Key
  | null
  | bool (b : Bool)
  | int (n : Int)
  | float (x : Binary64)
  | text (cs : List Char)

inductive Value
  | null
  | bool (b : Bool)
  | int (n : Int)
  | float (x : Binary64)
  | text (cs : List Char)
  | list (items : List Value)
  | map (entries : List (Key × Value))
deriving Inhabited

namespace Key

/-- The integer that a key counts as: `true` counts as one and `false` as zero. -/
def number? : Key → Option Int
  | bool b => some (if b then 1 else 0)
  | int n => some n
  | float x => x.toInt?
  | _ => none

/-- Constants of equal value are one key. -/
def same (a b : Key) : Bool :=
  match a, b with
  | null, null => true
  | text s, text t => s == t
  | float x, float y => x.sameValue y
  | a, b =>
    match a.number?, b.number? with
    | some m, some n => m == n
    | _, _ => false

/-- The key as it is written in the tree of a configuration. -/
def plain : Key → List Char
  | null => Display.null
  | bool b => Display.bool b
  | int n => intText n
  | float x => x.text.toList
  | text cs => cs

def display : Key → List Char
  | text cs => Text.display cs
  | key => key.plain

end Key

/-- Drops the quotes of a text that begins and ends with one. -/
def unquote? (cs : List Char) : Option (List Char) :=
  if cs.head? = some '"' ∧ cs.getLast? = some '"' then some (cs.drop 1).dropLast else none

namespace Value

mutual

def display : Value → List Char
  | .null => Display.null
  | .bool b => Display.bool b
  | .int n => intText n
  | .float x => x.text.toList
  | .text cs => Text.display cs
  | .list items => Display.list (displayList items)
  | .map entries => Display.map (displayEntries entries)

def displayList : List Value → List (List Char)
  | [] => []
  | value :: rest => display value :: displayList rest

def displayEntries : List (Key × Value) → List (List Char × List Char)
  | [] => []
  | (key, value) :: rest => (key.display, display value) :: displayEntries rest

end

/-- The value as part of a larger text. -/
def plain : Value → List Char
  | .text cs => cs
  | value => value.display

/-- The value as that of an attribute, an item or an element. -/
def embedded : Value → Value
  | .text cs =>
    match unquote? cs with
    | some inner => .text inner
    | none => .text ('$' :: '{' :: cs ++ ['}'])
  | value => value

/-- Lists and maps are no keys. -/
def key? : Value → Option Key
  | .null => some .null
  | .bool b => some (.bool b)
  | .int n => some (.int n)
  | .float x => some (.float x)
  | .text cs => some (.text ((unquote? cs).getD cs))
  | .list _ => none
  | .map _ => none

/-- Sets a key to a value: in place where an equal key occurs, at the end otherwise. -/
def insertKey (entries : List (Key × Value)) (key : Key) (value : Value) : List (Key × Value) :=
  match entries with
  | [] => [(key, value)]
  | (k, v) :: rest =>
    if k.same key then (k, value) :: rest else (k, v) :: insertKey rest key value

mutual

/-- Keys become text, by which different keys may become one. -/
def toRaw : Value → Raw
  | .null => .null
  | .bool b => .bool b
  | .int n => .int n
  | .float x => .float x
  | .text cs => .text (String.ofList cs)
  | .list items => .list (toRawList items)
  | .map entries => .map (mergeEntries [] (toRawEntries entries))

def toRawList : List Value → List Raw
  | [] => []
  | value :: rest => toRaw value :: toRawList rest

def toRawEntries : List (Key × Value) → List (String × Raw)
  | [] => []
  | (key, value) :: rest => (String.ofList key.plain, toRaw value) :: toRawEntries rest

end

end Value

namespace Expr

/-- Parts with a blank between them. -/
def spaced (parts : List (List Char)) : List Char := sepBy [' '] parts

/-- The head of a `for` expression. -/
def forHead (names : List String) (source : Value) : List Char :=
  spaced (["for".toList, sepBy " , ".toList (names.map String.toList), "in".toList, source.plain,
    [':']])

/-- A condition with the word in front of it, set off by a blank. -/
def guardText (guard : Option Value) : List Char :=
  match guard with
  | none => []
  | some value => " if ".toList ++ value.plain

mutual

/-- None where an object has a list or a map as a key. -/
def value : Expr → Option Value
  | .word name =>
    some (if name = "true" then .bool true
      else if name = "false" then .bool false
      else if name = "null" then .null
      else .text name.toList)
  | .label name => some (.text name.toList)
  | .whole n => some (.int n)
  | .decimal x => some (.float x)
  | .quoted content => some (.text ('"' :: content ++ ['"']))
  | .unary op operand => do
    let operand ← value operand
    return .text (op.text ++ operand.plain)
  | .binary left op right => do
    let left ← value left
    let right ← value right
    return .text (spaced [left.plain, op.text, right.plain])
  | .conditional condition yes no => do
    let condition ← value condition
    let yes ← value yes
    let no ← value no
    return .text (spaced [condition.plain, ['?'], yes.plain, [':'], no.plain])
  | .index base position => do
    let base ← value base
    let position ← value position
    return .text (base.plain ++ '[' :: position.plain ++ [']'])
  | .attribute base name => do
    let base ← value base
    return .text (base.plain ++ '.' :: name.toList)
  | .attributeSplat base => do
    let base ← value base
    return .text (base.plain ++ ['.', '*'])
  | .fullSplat base => do
    let base ← value base
    return .text (base.plain ++ ['[', '*', ']'])
  | .call function arguments => do
    let arguments ← values arguments
    return .text (function.toList ++ '(' :: sepBy [',', ' '] (arguments.map Value.plain) ++ [')'])
  | .tuple items => do
    let items ← values items
    return .list (items.map Value.embedded)
  | .object fields => do
    let fields ← fieldValues fields
    return .map (fields.foldl (fun entries (k, v) => Value.insertKey entries k v) [])
  | .forTuple names source item guard => do
    let source ← value source
    let item ← value item
    let guard ← guardValue guard
    return .text ('[' :: spaced [forHead names source, item.plain] ++ guardText guard ++ [']'])
  | .forObject names source key element grouped guard => do
    let source ← value source
    let key ← value key
    let element ← value element
    let guard ← guardValue guard
    let mark := if grouped then " ...".toList else []
    return .text ('{' :: spaced [forHead names source, key.plain, ['=', '>'], element.plain]
      ++ mark ++ guardText guard ++ ['}'])

def values : List Expr → Option (List Value)
  | [] => some []
  | e :: rest => do
    let v ← value e
    let vs ← values rest
    return v :: vs

def fieldValues : List (Expr × Expr) → Option (List (Key × Value))
  | [] => some []
  | (k, e) :: rest => do
    let key ← (← value k).key?
    let v ← value e
    let vs ← fieldValues rest
    return (key, v.embedded) :: vs

def guardValue : Option Expr → Option (Option Value)
  | none => some none
  | some e => some <$> value e

end

end Expr

/-- Appends to the list kept under a key. -/
def appendEntry (entries : List (String × Raw)) (key : String) (raw : Raw) :
    List (String × Raw) :=
  match entryAt? entries key with
  | some (.list items) => insertEntry entries key (.list (items ++ [raw]))
  | _ => insertEntry entries key (.list [raw])

/-- The map that leads through the labels to the body. -/
def nestLabels (labels : List String) (body : Raw) : Raw :=
  labels.foldr (fun label inner => .map [(label, inner)]) body

namespace Item

mutual

/-- Adds items to the entries of a body. Setting an attribute that is there already is refused, and
so is an attribute and a block of one name; `attributes` holds the names set so far. -/
def addItems (entries : List (String × Raw)) (attributes : List String) :
    List Item → Option (List (String × Raw))
  | [] => some entries
  | item :: rest => do
    let (entries, attributes) ← addItem entries attributes item
    addItems entries attributes rest

def addItem (entries : List (String × Raw)) (attributes : List String) :
    Item → Option (List (String × Raw) × List String)
  | .attribute name value => do
    let v ← value.value
    if hasEntry entries name then none
    else some (entries ++ [(name, v.embedded.toRaw)], name :: attributes)
  | .block type labels body firstLine lastLine => do
    let inner ← addItems [] [] body
    let inner := insertEntry inner startKey (.int firstLine)
    let inner := insertEntry inner endKey (.int lastLine)
    if attributes.contains type then none
    else some (appendEntry entries type (nestLabels labels (.map inner)), attributes)

end

end Item

/-- The tree of a configuration, or none where it is rejected. -/
def decode (text : List Char) : Option Raw := do
  let items ← parse text
  let entries ← Item.addItems [] [] items
  return .map entries

end TerraIndex.Hcl
