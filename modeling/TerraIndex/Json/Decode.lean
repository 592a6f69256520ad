import TerraIndex.Document.Raw
import TerraIndex.Number.Digits
import TerraIndex.Text.Surrogate
/-!
# Decoding JSON

`decode` reads a whole text, `decodeFirst` the value a text begins with. Beyond standard JSON the
words `NaN`, `Infinity` and `-Infinity` are numbers. A number without fraction and exponent is an
integer of any size up to `maxIntegerDigits` digits, any other the nearest floating-point number.
A key repeated in an object keeps its first place and takes its last value.

A string is a sequence of Unicode characters. An escape that gives half of a surrogate pair on its
own is read as the character that stands for this half (`Text.halfChar`).

Scanning functions take the characters still to be read and return those left; where they stop
short they name the problem and the characters left at that point, from which `Fault.ofHalt`
computes the position.
-/

namespace TerraIndex.Json

inductive Problem
  | expectingValue
  | expectingName
  | expectingColon
  | expectingComma
  | unterminatedString
  | controlCharacter
  | badEscape
  | badUnicodeEscape
  | extraData
  | byteOrderMark
  | tooManyDigits (digits : Nat)
deriving DecidableEq

/-- Where scanning stopped short: the problem and what was left to read. -/
structure Halt where
  problem : Problem
  rest : List Char

/-- A problem with its position, counted in characters from zero, and its line and column, counted
from one. -/
structure Fault where
  problem : Problem
  position : Nat
  line : Nat
  column : Nat
deriving DecidableEq

def isBlank (c : Char) : Bool := c == ' ' || c == '\t' || c == '\n' || c == '\r'

def skipBlanks (cs : List Char) : List Char := cs.dropWhile isBlank

/-- The value of a digit in either case. -/
def hexValue? (c : Char) : Option Nat :=
  let n := c.toNat
  if 0x30 ≤ n ∧ n ≤ 0x39 then some (n - 0x30)
  else if 0x61 ≤ n ∧ n ≤ 0x66 then some (n - 0x61 + 10)
  else if 0x41 ≤ n ∧ n ≤ 0x46 then some (n - 0x41 + 10)
  else none

def unit? (a b c d : Char) : Option Nat := do
  let a ← hexValue? a
  let b ← hexValue? b
  let c ← hexValue? c
  let d ← hexValue? d
  return ((a * 16 + b) * 16 + c) * 16 + d

def isHighSurrogate (n : Nat) : Bool := 0xd800 ≤ n && n ≤ 0xdbff

def isLowSurrogate (n : Nat) : Bool := 0xdc00 ≤ n && n ≤ 0xdfff

/-- The character of a sixteen-bit unit that is part of no pair. -/
def unitChar (n : Nat) : Char :=
  if isHighSurrogate n || isLowSurrogate n then Text.halfChar n else Char.ofNat n

def pairChar (high low : Nat) : Char :=
  Char.ofNat (0x10000 + (high - 0xd800) * 0x400 + (low - 0xdc00))

/-- The character that a letter after a backslash stands for. -/
def letterEscape? (c : Char) : Option Char :=
  match c with
  | '"' => some '"'
  | '\\' => some '\\'
  | '/' => some '/'
  | 'b' => some '\x08'
  | 'f' => some '\x0c'
  | 'n' => some '\n'
  | 'r' => some '\r'
  | 't' => some '\t'
  | _ => none

/-- Reads a string whose opening quote, with all that follows, is `opening`, from behind that quote
or from any later place in it. An escape of four digits needs a further character behind it. -/
def scanString (opening : List Char) : List Char → Except Halt (List Char × List Char)
  | [] => .error ⟨.unterminatedString, opening⟩
  | '"' :: rest => .ok ([], rest)
  | ['\\'] => .error ⟨.unterminatedString, opening⟩
  | '\\' :: 'u' :: a :: b :: c :: d :: next :: rest =>
    match unit? a b c d with
    | none => .error ⟨.badUnicodeEscape, 'u' :: a :: b :: c :: d :: next :: rest⟩
    | some high =>
      match next, rest with
      | '\\', 'u' :: e :: f :: g :: h :: last :: rest =>
        if isHighSurrogate high then
          match unit? e f g h with
          | none => .error ⟨.badUnicodeEscape, 'u' :: e :: f :: g :: h :: last :: rest⟩
          | some low =>
            if isLowSurrogate low then do
              let (cs, left) ← scanString opening (last :: rest)
              return (pairChar high low :: cs, left)
            else do
              let (cs, left) ← scanString opening ('\\' :: 'u' :: e :: f :: g :: h :: last :: rest)
              return (unitChar high :: cs, left)
        else do
          let (cs, left) ← scanString opening ('\\' :: 'u' :: e :: f :: g :: h :: last :: rest)
          return (unitChar high :: cs, left)
      | next, rest => do
        let (cs, left) ← scanString opening (next :: rest)
        return (unitChar high :: cs, left)
  | '\\' :: c :: rest =>
    if c = 'u' then .error ⟨.badUnicodeEscape, c :: rest⟩
    else
      match letterEscape? c with
      | none => .error ⟨.badEscape, '\\' :: c :: rest⟩
      | some c => do
        let (cs, left) ← scanString opening rest
        return (c :: cs, left)
  | c :: rest =>
    if c.toNat < 0x20 then .error ⟨.controlCharacter, c :: rest⟩
    else do
      let (cs, left) ← scanString opening rest
      return (c :: cs, left)

/-- The digits a text begins with. -/
def spanDigits (cs : List Char) : List Char × List Char :=
  (cs.takeWhile Char.isDigit, cs.dropWhile Char.isDigit)

/-- The digits of an integer part, which begins with a zero only when it is zero. -/
def scanInteger? (cs : List Char) : Option (List Char × List Char) :=
  match cs with
  | '0' :: rest => some (['0'], rest)
  | cs =>
    let (digits, rest) := spanDigits cs
    if digits.isEmpty then none else some (digits, rest)

/-- The digits after a point, where at least one follows it. -/
def scanFraction (cs : List Char) : List Char × List Char :=
  match cs with
  | '.' :: rest =>
    let (digits, left) := spanDigits rest
    if digits.isEmpty then ([], cs) else (digits, left)
  | cs => ([], cs)

/-- The exponent, where at least one digit follows the mark and its sign. -/
def scanExponent (cs : List Char) : Option Int × List Char :=
  let signed (negative : Bool) (rest : List Char) : Option Int × List Char :=
    let (digits, left) := spanDigits rest
    if digits.isEmpty then (none, cs)
    else
      let n : Int := digitsValue digits
      (some (if negative then -n else n), left)
  let behindMark (rest : List Char) : Option Int × List Char :=
    match rest with
    | '-' :: rest => signed true rest
    | '+' :: rest => signed false rest
    | rest => signed false rest
  match cs with
  | 'e' :: rest => behindMark rest
  | 'E' :: rest => behindMark rest
  | cs => (none, cs)

/-- Reads the number behind a sign; `start` is the text from its first character on. -/
def scanUnsigned (start : List Char) (negative : Bool) (cs : List Char) :
    Except Halt (Raw × List Char) :=
  match scanInteger? cs with
  | none => .error ⟨.expectingValue, start⟩
  | some (whole, rest) =>
    let (fraction, rest) := scanFraction rest
    let (exponent, rest) := scanExponent rest
    if fraction.isEmpty && exponent.isNone then
      if maxIntegerDigits < whole.length then .error ⟨.tooManyDigits whole.length, start⟩
      else
        let n : Int := digitsValue whole
        .ok (.int (if negative then -n else n), rest)
    else
      let power := exponent.getD 0 - fraction.length
      .ok (.float (Binary64.ofDecimal negative (digitsValue (whole ++ fraction)) power), rest)

def scanNumber (cs : List Char) : Except Halt (Raw × List Char) :=
  match cs with
  | '-' :: rest => scanUnsigned cs true rest
  | cs => scanUnsigned cs false cs

/-- The words that are values, longest first where one begins another. -/
def scanWord? (cs : List Char) : Option (Raw × List Char) :=
  let words : List (List Char × Raw) := [
    ("null".toList, .null), ("true".toList, .bool true), ("false".toList, .bool false),
    ("NaN".toList, .float .nan), ("Infinity".toList, .float (.infinity false)),
    ("-Infinity".toList, .float (.infinity true))]
  words.findSome? fun (word, value) =>
    if word.isPrefixOf cs then some (value, cs.drop word.length) else none

mutual

/-- Reads one value. Every two steps down consume a character, which bounds the fuel. -/
def scanValue : Nat → List Char → Except Halt (Raw × List Char)
  | 0, cs => .error ⟨.expectingValue, cs⟩
  | fuel + 1, cs =>
    match cs with
    | '"' :: rest => do
      let (s, left) ← scanString cs rest
      return (.text (String.ofList s), left)
    | '[' :: rest =>
      match skipBlanks rest with
      | ']' :: left => .ok (.list [], left)
      | rest => do
        let (items, left) ← scanItems fuel rest
        return (.list items, left)
    | '{' :: rest =>
      match skipBlanks rest with
      | '}' :: left => .ok (.map [], left)
      | rest => do
        let (entries, left) ← scanMembers fuel [] rest
        return (.map entries, left)
    | cs =>
      match scanWord? cs with
      | some found => .ok found
      | none => scanNumber cs

/-- Reads the items of an array up to its closing bracket. -/
def scanItems : Nat → List Char → Except Halt (List Raw × List Char)
  | 0, cs => .error ⟨.expectingValue, cs⟩
  | fuel + 1, cs => do
    let (item, rest) ← scanValue fuel cs
    match skipBlanks rest with
    | ']' :: left => return ([item], left)
    | ',' :: rest =>
      let (items, left) ← scanItems fuel (skipBlanks rest)
      return (item :: items, left)
    | rest => .error ⟨.expectingComma, rest⟩

/-- Adds the members of an object, up to its closing brace, to `entries`. -/
def scanMembers : Nat → List (String × Raw) → List Char →
    Except Halt (List (String × Raw) × List Char)
  | 0, _, cs => .error ⟨.expectingValue, cs⟩
  | fuel + 1, entries, cs =>
    match cs with
    | '"' :: rest => do
      let (key, rest) ← scanString cs rest
      match skipBlanks rest with
      | ':' :: rest =>
        let (value, rest) ← scanValue fuel (skipBlanks rest)
        let entries := insertEntry entries (String.ofList key) value
        match skipBlanks rest with
        | '}' :: left => return (entries, left)
        | ',' :: rest => scanMembers fuel entries (skipBlanks rest)
        | rest => .error ⟨.expectingComma, rest⟩
      | rest => .error ⟨.expectingColon, rest⟩
    | cs => .error ⟨.expectingName, cs⟩

end

/-- The value that the text begins with and what follows it. -/
def decodeFirst (text : List Char) : Except Halt (Raw × List Char) :=
  scanValue (2 * text.length + 2) text

def decodeWhole (text : List Char) : Except Halt Raw :=
  match text with
  | '\ufeff' :: _ => .error ⟨.byteOrderMark, text⟩
  | text => do
    let (value, rest) ← decodeFirst (skipBlanks text)
    match skipBlanks rest with
    | [] => return value
    | rest => .error ⟨.extraData, rest⟩

/-- The position is what has been read when `rest` is left of `text`. -/
def Fault.ofHalt (text : List Char) (halt : Halt) : Fault :=
  let position := text.length - halt.rest.length
  let read := text.take position
  ⟨halt.problem, position, read.count '\n' + 1, (read.reverse.takeWhile (· != '\n')).length + 1⟩

def decode (text : List Char) : Except Fault Raw :=
  (decodeWhole text).mapError (Fault.ofHalt text)

def Problem.text : Problem → String
  | .expectingValue => "Expecting value"
  | .expectingName => "Expecting property name enclosed in double quotes"
  | .expectingColon => "Expecting ':' delimiter"
  | .expectingComma => "Expecting ',' delimiter"
  | .unterminatedString => "Unterminated string starting at"
  | .controlCharacter => "Invalid control character at"
  | .badEscape => "Invalid \\escape"
  | .badUnicodeEscape => "Invalid \\uXXXX escape"
  | .extraData => "Extra data"
  | .byteOrderMark => "Unexpected UTF-8 BOM (decode using utf-8-sig)"
  | .tooManyDigits digits =>
    "Exceeds the limit (" ++ maxIntegerDigits.repr
      ++ " digits) for integer string conversion: value has " ++ digits.repr
      ++ " digits; use sys.set_int_max_str_digits() to increase the limit"

/-- The syntax of a text is at fault, rather than the size of a number in it. -/
def Problem.isSyntax : Problem → Bool
  | .tooManyDigits _ => false
  | _ => true

/-- A fault of syntax is followed by its place. -/
def Fault.message (f : Fault) : String :=
  if f.problem.isSyntax then
    f.problem.text ++ ": line " ++ f.line.repr ++ " column " ++ f.column.repr ++ " (char "
      ++ f.position.repr ++ ")"
  else f.problem.text

end TerraIndex.Json
