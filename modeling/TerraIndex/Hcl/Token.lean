/-!
# Tokens of the configuration language

Comments that run to the end of their line count as the newline that ends them. Digits are tokens
of their own, so that a number may be written with blanks in it. A quoted string keeps its escapes
and templates as they are written, a heredoc is its cleaned text.
-/

namespace TerraIndex.Hcl

inductive Operator
  | eq
  | ne
  | lt
  | gt
  | le
  | ge
  | minus
  | times
  | divide
  | modulo
  | and
  | or
  | plus
deriving DecidableEq

inductive Mark
  | ellipsis
  | fullSplat
  | attributeSplat
  | doubleColon
  | arrow
  | assign
  | openBrace
  | closeBrace
  | openBracket
  | closeBracket
  | openParen
  | closeParen
  | comma
  | dot
  | colon
  | question
  | bang
deriving DecidableEq

inductive Token
  | newline
  | word (name : String)
  | digit (d : Char)
  | quoted (content : List Char)
  | heredoc (content : List Char)
  | operator (op : Operator)
  | mark (m : Mark)
deriving DecidableEq

/-- A token and the line of its first character, counted from one. -/
structure Located where
  token : Token
  line : Nat

def Operator.text : Operator → List Char
  | .eq => ['=', '=']
  | .ne => ['!', '=']
  | .lt => ['<']
  | .gt => ['>']
  | .le => ['<', '=']
  | .ge => ['>', '=']
  | .minus => ['-']
  | .times => ['*']
  | .divide => ['/']
  | .modulo => ['%']
  | .and => ['&', '&']
  | .or => ['|', '|']
  | .plus => ['+']

/-- The spellings of operators and marks; of two where one begins the other the longer is first. -/
def spellings : List (List Char × Token) := [
  (['.', '.', '.'], .mark .ellipsis),
  (['[', '*', ']'], .mark .fullSplat),
  (['.', '*'], .mark .attributeSplat),
  ([':', ':'], .mark .doubleColon),
  (['=', '>'], .mark .arrow),
  (['=', '='], .operator .eq),
  (['!', '='], .operator .ne),
  (['<', '='], .operator .le),
  (['>', '='], .operator .ge),
  (['&', '&'], .operator .and),
  (['|', '|'], .operator .or),
  (['='], .mark .assign),
  (['{'], .mark .openBrace),
  (['}'], .mark .closeBrace),
  (['['], .mark .openBracket),
  ([']'], .mark .closeBracket),
  (['('], .mark .openParen),
  ([')'], .mark .closeParen),
  ([','], .mark .comma),
  (['.'], .mark .dot),
  ([':'], .mark .colon),
  (['?'], .mark .question),
  (['!'], .mark .bang),
  (['<'], .operator .lt),
  (['>'], .operator .gt),
  (['-'], .operator .minus),
  (['*'], .operator .times),
  (['/'], .operator .divide),
  (['%'], .operator .modulo),
  (['+'], .operator .plus)]

end TerraIndex.Hcl
