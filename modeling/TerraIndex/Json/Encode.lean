import TerraIndex.Document.Canonical
/-!
# Encoding JSON

`Style.encode` writes a decoded value as JSON text on one line. A `Style` says what stands between
items and between a key and its value, how strings are quoted and whether keys are sorted.

- `Style.row`: blanks after separators, ASCII only, keys sorted;
- `Style.minified`: no blanks, only the escapes JSON requires, keys sorted;
- `Style.answer`: blanks after separators, ASCII only, keys in their own order.

What is encoded was decoded before or stands in a row, so its integers have few enough digits to be
written.
-/

namespace TerraIndex.Json

structure Style where
  itemSeparator : List Char
  keySeparator : List Char
  quote : List Char → List Char
  sortKeys : Bool

namespace Style

def row : Style := ⟨[',', ' '], [':', ' '], Text.quoteAscii, true⟩

def minified : Style := ⟨[','], [':'], Text.quoteMinimal, true⟩

def answer : Style := ⟨[',', ' '], [':', ' '], Text.quoteAscii, false⟩

/-- Non-finite numbers are written as the words that the decoder reads. -/
def floatText (x : Binary64) : List Char :=
  if x.isFinite then x.text.toList
  else if x.isNaN then "NaN".toList
  else if x.isNegative then "-Infinity".toList
  else "Infinity".toList

def arrayText (style : Style) (parts : List (List Char)) : List Char :=
  '[' :: sepBy style.itemSeparator parts ++ [']']

def objectText (style : Style) (parts : List (String × List Char)) : List Char :=
  let sorted := if style.sortKeys then sortEntries parts else parts
  let members := sorted.map fun (k, v) => style.quote k.toList ++ style.keySeparator ++ v
  '{' :: sepBy style.itemSeparator members ++ ['}']

mutual

/-- A value without a JSON form is written as the quoted name of its type. -/
def encode (style : Style) : Raw → List Char
  | .null => "null".toList
  | .bool b => boolText b
  | .int n => intText n
  | .float x => floatText x
  | .text s => style.quote s.toList
  | .list items => style.arrayText (style.encodeList items)
  | .tuple items => style.arrayText (style.encodeList items)
  | .map entries => style.objectText (style.encodeEntries entries)
  | .other typeName => style.quote typeName.toList

def encodeList (style : Style) : List Raw → List (List Char)
  | [] => []
  | value :: rest => style.encode value :: style.encodeList rest

def encodeEntries (style : Style) : List (String × Raw) → List (String × List Char)
  | [] => []
  | (key, value) :: rest => (key, style.encode value) :: style.encodeEntries rest

end

end Style

end TerraIndex.Json
