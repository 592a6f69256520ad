/-!
# Lines

`splitNewlines` cuts a text at every newline, so it has one more piece than the text has newlines.
`scanLines` is the view the scanners work on: a final newline opens no further line, and carriage
returns at the end of a line are dropped.
-/

namespace TerraIndex.Text

def splitNewlines : List Char → List (List Char)
  | [] => [[]]
  | c :: cs =>
    if c = '\n' then [] :: splitNewlines cs
    else
      match splitNewlines cs with
      | [] => [[c]]
      | line :: lines => (c :: line) :: lines

def joinNewlines : List (List Char) → List Char
  | [] => []
  | [line] => line
  | line :: lines => line ++ '\n' :: joinNewlines lines

def dropCarriageReturns (line : List Char) : List Char :=
  (line.reverse.dropWhile (· == '\r')).reverse

/-- Drops one newline at the end. -/
def dropFinalNewline (cs : List Char) : List Char :=
  match cs.getLast? with
  | some '\n' => cs.dropLast
  | _ => cs

/-- Drops one empty line at the end. -/
def dropFinalEmpty (lines : List (List Char)) : List (List Char) :=
  match lines.getLast? with
  | some [] => lines.dropLast
  | _ => lines

def scanLines (text : List Char) : List (List Char) :=
  (dropFinalEmpty (splitNewlines text)).map dropCarriageReturns

/-- The lines numbered `first` to `last`, counted from one, each ended by a newline. -/
def linesText (lines : List (List Char)) (first last : Nat) : List Char :=
  ((lines.take last).drop (first - 1)).flatMap (· ++ ['\n'])

/-- A carriage return, alone or in front of a newline, becomes a newline. -/
def unifyNewlines : List Char → List Char
  | [] => []
  | '\r' :: '\n' :: cs => '\n' :: unifyNewlines cs
  | c :: cs => (if c = '\r' then '\n' else c) :: unifyNewlines cs

end TerraIndex.Text
