import TerraIndex.Hcl.Token
import TerraIndex.Number.Binary64
/-!
# Syntax of the configuration language

A configuration is a list of items, each an attribute or a block of further items. How operators
group is not kept: an expression that is not a plain value is only ever written out again, and
all its groupings are written alike. Parentheses are not kept either.
-/

namespace TerraIndex.Hcl

inductive UnaryOperator
  | negate
  | not
deriving DecidableEq

def UnaryOperator.text : UnaryOperator → List Char
  | .negate => ['-']
  | .not => ['!']

/-- `label` is a key written as a plain word, `quoted` holds the text between the quotes. -/
inductive Expr
  | word (name : String)
  | label (name : String)
  | whole (n : Nat)
  | decimal (x : Binary64)
  | quoted (content : List Char)
  | unary (op : UnaryOperator) (operand : Expr)
  | binary (left : Expr) (op : Operator) (right : Expr)
  | conditional (condition yes no : Expr)
  | index (base position : Expr)
  | attribute (base : Expr) (name : String)
  | attributeSplat (base : Expr)
  | fullSplat (base : Expr)
  | call (function : String) (arguments : List Expr)
  | tuple (items : List Expr)
  | object (fields : List (Expr × Expr))
  | forTuple (names : List String) (source item : Expr) (guard : Option Expr)
  | forObject (names : List String) (source key value : Expr) (grouped : Bool)
      (guard : Option Expr)
deriving Inhabited

/-- A block knows the line of its type and the line of its closing brace. -/
inductive Item
  | attribute (name : String) (value : Expr)
  | block (type : String) (labels : List String) (body : List Item) (firstLine lastLine : Nat)
deriving Inhabited

end TerraIndex.Hcl
