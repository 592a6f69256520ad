import TerraIndex.Text.Printable
/-!
# Quoted strings

Three written forms of a string. `quoteAscii` and `quoteMinimal` are JSON strings: the first
escapes everything outside printable ASCII, the second only what JSON requires. `display` is the
form shown inside messages and expressions: single quotes, or double quotes around a text that
holds single quotes only.
-/

namespace TerraIndex.Text

/-- The last `width` hexadecimal digits of a number, in lower case. -/
def hexDigits : Nat → Nat → List Char
  | 0, _ => []
  | width + 1, n => hexDigits width (n / 16) ++ [Nat.digitChar (n % 16)]

/-- The escapes of a JSON string that have a letter of their own. -/
def shortEscape? (c : Char) : Option (List Char) :=
  match c with
  | '"' => some ['\\', '"']
  | '\\' => some ['\\', '\\']
  | '\n' => some ['\\', 'n']
  | '\r' => some ['\\', 'r']
  | '\t' => some ['\\', 't']
  | '\x08' => some ['\\', 'b']
  | '\x0c' => some ['\\', 'f']
  | _ => none

/-- A number below `2 ^ 16` as an escape. -/
def unicodeEscape (n : Nat) : List Char := '\\' :: 'u' :: hexDigits 4 n

/-- Characters beyond the sixteen-bit range are written as a surrogate pair. -/
def escapeAscii (c : Char) : List Char :=
  match shortEscape? c with
  | some e => e
  | none =>
    let n := c.toNat
    if 0x20 ≤ n ∧ n < 0x7f then [c]
    else if n < 0x10000 then unicodeEscape n
    else
      unicodeEscape (0xd800 + (n - 0x10000) / 0x400)
        ++ unicodeEscape (0xdc00 + (n - 0x10000) % 0x400)

def escapeMinimal (c : Char) : List Char :=
  match shortEscape? c with
  | some e => e
  | none => if c.toNat < 0x20 then unicodeEscape c.toNat else [c]

def quoteAscii (s : List Char) : List Char := '"' :: s.flatMap escapeAscii ++ ['"']

def quoteMinimal (s : List Char) : List Char := '"' :: s.flatMap escapeMinimal ++ ['"']

def displayChar (quote c : Char) : List Char :=
  if c = quote ∨ c = '\\' then ['\\', c]
  else if c = '\n' then ['\\', 'n']
  else if c = '\r' then ['\\', 'r']
  else if c = '\t' then ['\\', 't']
  else if isPrintable c then [c]
  else
    let n := c.toNat
    if n < 0x100 then '\\' :: 'x' :: hexDigits 2 n
    else if n < 0x10000 then '\\' :: 'u' :: hexDigits 4 n
    else '\\' :: 'U' :: hexDigits 8 n

def display (s : List Char) : List Char :=
  let quote := if '\'' ∈ s ∧ '"' ∉ s then '"' else '\''
  quote :: s.flatMap (displayChar quote) ++ [quote]

end TerraIndex.Text
