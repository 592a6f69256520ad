import TerraIndex.Number.Binary64
/-!
# Decoded values

A `Raw` is what a decoder hands over before it is known to be a document: besides the values that
documents are made of it may hold a non-finite number, a tuple, or a value of some other type,
known by the name of that type only.

Maps are lists of entries in the order of first appearance. `Raw.insertEntry` is how an entry is
added: a repeated key keeps its place and takes the new value.
-/

namespace TerraIndex

inductive Raw
  | null
  | bool (b : Bool)
  | int (n : Int)
  | float (x : Binary64)
  | text (s : String)
  | list (items : List Raw)
  | tuple (items : List Raw)
  | map (entries : List (String × Raw))
  | other (typeName : String)
deriving Inhabited

/-- Sets `key` to `value`: in place where the key occurs, at the end otherwise. -/
def insertEntry {α : Type} (entries : List (String × α)) (key : String) (value : α) :
    List (String × α) :=
  match entries with
  | [] => [(key, value)]
  | (k, v) :: rest => if k = key then (k, value) :: rest else (k, v) :: insertEntry rest key value

/-- Adds the entries of the second list one by one. -/
def mergeEntries {α : Type} (entries added : List (String × α)) : List (String × α) :=
  added.foldl (fun acc (k, v) => insertEntry acc k v) entries

def entryAt? {α : Type} (entries : List (String × α)) (key : String) : Option α :=
  match entries with
  | [] => none
  | (k, v) :: rest => if k = key then some v else entryAt? rest key

def hasEntry {α : Type} (entries : List (String × α)) (key : String) : Bool :=
  (entryAt? entries key).isSome

/-- Inserts in front of the first greater key. -/
def insertSorted {α : Type} (entry : String × α) : List (String × α) → List (String × α)
  | [] => [entry]
  | other :: rest =>
    if entry.1 < other.1 then entry :: other :: rest else other :: insertSorted entry rest

/-- The entries by key, in the order of code points; entries of one key stay in order. -/
def sortEntries {α : Type} (entries : List (String × α)) : List (String × α) :=
  entries.foldl (fun sorted entry => insertSorted entry sorted) []

namespace Raw

/-- The name a value's type goes by in messages. -/
def typeName : Raw → String
  | null => "NoneType"
  | bool _ => "bool"
  | int _ => "int"
  | float _ => "float"
  | text _ => "str"
  | list _ => "list"
  | tuple _ => "tuple"
  | map _ => "dict"
  | other name => name

end Raw

end TerraIndex
