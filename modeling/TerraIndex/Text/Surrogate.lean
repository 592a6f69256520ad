import TerraIndex.Text.Quoted
/-!
# Halves of surrogate pairs

A text is a sequence of Unicode characters, and half of a surrogate pair is none. Where an escape in
a text gives such a half on its own, the private-use character at its place among the last 2048
(from U+10F800 on) stands for it, so that different halves stay different. No path with a half in it
can be encoded, except for those that stand for the bytes above 0x7F of a name in another encoding.
-/

namespace TerraIndex.Text

/-- The character that stands for half of a pair. -/
def halfChar (unit : Nat) : Char := Char.ofNat (0x102000 + unit)

/-- The half of a pair that a character stands for. -/
def half? (c : Char) : Option Nat := if 0x10f800 ≤ c.toNat then some (c.toNat - 0x102000) else none

def isEncodable (c : Char) : Bool :=
  match half? c with
  | none => true
  | some unit => 0xdc80 ≤ unit && unit ≤ 0xdcff

/-- Why a text cannot be encoded: its first characters that cannot be. -/
def encodingMessage (text : List Char) : String :=
  let first := (text.takeWhile isEncodable).length
  let run := (text.drop first).takeWhile fun c => !isEncodable c
  let what :=
    match run.map half? with
    | [some unit] => " '\\u" ++ String.ofList (hexDigits 4 unit) ++ "' in position " ++ first.repr
    | _ => "s in position " ++ first.repr ++ "-" ++ (first + run.length - 1).repr
  "'utf-8' codec can't encode character" ++ what ++ ": surrogates not allowed"

end TerraIndex.Text
