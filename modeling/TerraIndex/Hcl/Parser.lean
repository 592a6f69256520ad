import TerraIndex.Hcl.Lexer
import TerraIndex.Hcl.Syntax
import TerraIndex.Number.Digits
/-!
# Parsing the configuration language

The functions take the tokens still to be read and return those left, or none where no reading
fits. They never go back: one token, at most two, decide how to go on.

Newlines matter. An attribute ends at one, but the right operand of a binary operator takes the
newlines behind it along, so that a further operator may follow on the next line and no newline
is left to separate the elements of an object.
-/

namespace TerraIndex.Hcl

abbrev Tokens := List Located

def skipNewlines : Tokens → Tokens
  | ⟨.newline, _⟩ :: rest => skipNewlines rest
  | tokens => tokens

def expect (m : Mark) (tokens : Tokens) : Option Tokens :=
  match tokens with
  | ⟨.mark other, _⟩ :: rest => if other = m then some rest else none
  | _ => none

def expectWord (tokens : Tokens) : Option (String × Tokens) :=
  match tokens with
  | ⟨.word name, _⟩ :: rest => some (name, rest)
  | _ => none

/-- The digits that come next. -/
def spanDigits : Tokens → List Char × Tokens
  | ⟨.digit d, _⟩ :: rest =>
    let (digits, left) := spanDigits rest
    (d :: digits, left)
  | tokens => ([], tokens)

/-- Words and quoted strings behind the type of a block. -/
def spanLabels : Tokens → List String × Tokens
  | ⟨.word name, _⟩ :: rest =>
    let (labels, left) := spanLabels rest
    (name :: labels, left)
  | ⟨.quoted content, _⟩ :: rest =>
    let (labels, left) := spanLabels rest
    (String.ofList content :: labels, left)
  | tokens => ([], tokens)

/-- A number, which has a fractional part where a point follows its digits. -/
def parseNumber (tokens : Tokens) : Option (Expr × Tokens) :=
  let (whole, rest) := spanDigits tokens
  match rest with
  | ⟨.mark .dot, _⟩ :: rest =>
    let (fraction, left) := spanDigits rest
    if fraction.isEmpty then none
    else
      let x := Binary64.ofDecimal false (digitsValue (whole ++ fraction)) (-(fraction.length : Int))
      some (.decimal x, left)
  | rest =>
    if maxIntegerDigits < whole.length then none else some (.whole (digitsValue whole), rest)

/-- A word or newline behind the word `for` makes it the head of a `for` expression. -/
def startsFor (tokens : Tokens) : Bool :=
  match tokens with
  | ⟨.word "for", _⟩ :: ⟨.word _, _⟩ :: _ => true
  | ⟨.word "for", _⟩ :: ⟨.newline, _⟩ :: _ => true
  | _ => false

def isFor (tokens : Tokens) : Bool :=
  match tokens with
  | ⟨.word "for", _⟩ :: _ => true
  | _ => false

/-- The names a `for` expression binds, from behind the word `for` up to and with `in`. -/
def parseForNames (tokens : Tokens) : Option (List String × Tokens) := do
  let (first, rest) ← expectWord (skipNewlines tokens)
  let (names, rest) ←
    match rest with
    | ⟨.mark .comma, _⟩ :: rest => do
      let (second, rest) ← expectWord rest
      pure ([first, second], rest)
    | rest => pure ([first], rest)
  match skipNewlines rest with
  | ⟨.word "in", _⟩ :: rest => some (names, skipNewlines rest)
  | _ => none

/-- The key of an object element that is a plain word. -/
def parseLabel? (tokens : Tokens) : Option (Expr × Tokens) :=
  match tokens with
  | ⟨.word name, _⟩ :: ⟨.mark .assign, line⟩ :: rest =>
    some (.label name, ⟨.mark .assign, line⟩ :: rest)
  | ⟨.word name, _⟩ :: ⟨.mark .colon, line⟩ :: rest =>
    some (.label name, ⟨.mark .colon, line⟩ :: rest)
  | _ => none

/-- The equals sign or colon between the key and the value of an object element. -/
def expectBinder (tokens : Tokens) : Option Tokens :=
  match tokens with
  | ⟨.mark .assign, _⟩ :: rest => some rest
  | ⟨.mark .colon, _⟩ :: rest => some rest
  | _ => none

/-- A name in three parts, from behind its first double colon on. -/
def parseQualified (first : String) (tokens : Tokens) : Option (String × Tokens) := do
  let (second, rest) ← expectWord tokens
  let rest ← expect .doubleColon rest
  let (third, rest) ← expectWord rest
  return (first ++ "::" ++ second ++ "::" ++ third, rest)

mutual

/-- An operand with all the operators that follow it. -/
def parseExpr : Nat → Tokens → Option (Expr × Tokens)
  | 0, _ => none
  | fuel + 1, tokens => do
    let (left, rest) ← parseOperand fuel tokens
    parseOperators fuel left rest

def parseOperators : Nat → Expr → Tokens → Option (Expr × Tokens)
  | 0, _, _ => none
  | fuel + 1, left, tokens =>
    match tokens with
    | ⟨.operator op, _⟩ :: rest => do
      let (right, rest) ← parseExpr fuel (skipNewlines rest)
      parseOperators fuel (.binary left op right) (skipNewlines rest)
    | ⟨.mark .question, _⟩ :: rest => do
      let (yes, rest) ← parseExpr fuel (skipNewlines rest)
      let rest ← expect .colon (skipNewlines rest)
      let (no, rest) ← parseExpr fuel (skipNewlines rest)
      return (.conditional left yes no, rest)
    | tokens => some (left, tokens)

def parseOperand : Nat → Tokens → Option (Expr × Tokens)
  | 0, _ => none
  | fuel + 1, tokens =>
    match tokens with
    | ⟨.operator .minus, _⟩ :: rest => do
      let (operand, rest) ← parseTerm fuel rest
      return (.unary .negate operand, rest)
    | ⟨.mark .bang, _⟩ :: rest => do
      let (operand, rest) ← parseTerm fuel rest
      return (.unary .not operand, rest)
    | tokens => parseTerm fuel tokens

def parseTerm : Nat → Tokens → Option (Expr × Tokens)
  | 0, _ => none
  | fuel + 1, tokens => do
    let (base, rest) ← parsePrimary fuel tokens
    parseAccess fuel false base rest

/-- What follows a term without a break. Behind an attribute splat a point is followed by a name
until something in brackets comes. -/
def parseAccess : Nat → Bool → Expr → Tokens → Option (Expr × Tokens)
  | 0, _, _, _ => none
  | fuel + 1, behindSplat, base, tokens =>
    match tokens with
    | ⟨.mark .dot, _⟩ :: ⟨.word name, _⟩ :: rest =>
      parseAccess fuel behindSplat (.attribute base name) rest
    | ⟨.mark .dot, _⟩ :: ⟨.digit d, _⟩ :: rest =>
      if behindSplat then none
      else parseAccess fuel false (.index base (.whole (digitsValue [d]))) (spanDigits rest).2
    | ⟨.mark .dot, _⟩ :: _ => none
    | ⟨.mark .attributeSplat, _⟩ :: rest => parseAccess fuel true (.attributeSplat base) rest
    | ⟨.mark .fullSplat, _⟩ :: rest => parseAccess fuel false (.fullSplat base) rest
    | ⟨.mark .openBracket, _⟩ :: rest => do
      let (position, rest) ← parseExpr fuel (skipNewlines rest)
      let rest ← expect .closeBracket (skipNewlines rest)
      parseAccess fuel false (.index base position) rest
    | tokens => some (base, tokens)

def parsePrimary : Nat → Tokens → Option (Expr × Tokens)
  | 0, _ => none
  | fuel + 1, tokens =>
    match tokens with
    | ⟨.mark .openParen, _⟩ :: rest => do
      let (inner, rest) ← parseExpr fuel (skipNewlines rest)
      let rest ← expect .closeParen (skipNewlines rest)
      return (inner, rest)
    | ⟨.digit _, _⟩ :: _ => parseNumber tokens
    | ⟨.quoted content, _⟩ :: rest => some (.quoted content, rest)
    | ⟨.heredoc content, _⟩ :: rest => some (.quoted content, rest)
    | ⟨.mark .openBracket, _⟩ :: rest =>
      let inside := skipNewlines rest
      if startsFor inside || (isFor inside && inside.length < rest.length) then
        parseForTuple fuel (inside.drop 1)
      else do
        let (items, rest) ← parseItems fuel inside
        return (.tuple items, rest)
    | ⟨.mark .openBrace, _⟩ :: rest =>
      let inside := skipNewlines rest
      if startsFor inside then parseForObject fuel (inside.drop 1)
      else do
        let (fields, rest) ← parseFields fuel inside
        return (.object fields, rest)
    | ⟨.word name, _⟩ :: ⟨.mark .openParen, _⟩ :: rest => do
      let (arguments, rest) ← parseArguments fuel (skipNewlines rest)
      return (.call name arguments, rest)
    | ⟨.word name, _⟩ :: ⟨.mark .doubleColon, _⟩ :: rest => do
      let (function, rest) ← parseQualified name rest
      let rest ← expect .openParen rest
      let (arguments, rest) ← parseArguments fuel (skipNewlines rest)
      return (.call function arguments, rest)
    | ⟨.word name, _⟩ :: rest => some (.word name, rest)
    | _ => none

/-- The items of a tuple up to its closing bracket; a comma may end them. -/
def parseItems : Nat → Tokens → Option (List Expr × Tokens)
  | 0, _ => none
  | fuel + 1, tokens =>
    match tokens with
    | ⟨.mark .closeBracket, _⟩ :: rest => some ([], rest)
    | tokens => do
      let (item, rest) ← parseExpr fuel tokens
      match skipNewlines rest with
      | ⟨.mark .closeBracket, _⟩ :: rest => some ([item], rest)
      | ⟨.mark .comma, _⟩ :: rest =>
        let (items, rest) ← parseItems fuel (skipNewlines rest)
        some (item :: items, rest)
      | _ => none

/-- The elements of an object up to its closing brace. Either newlines or one comma, with
newlines behind it only, stand between them. -/
def parseFields : Nat → Tokens → Option (List (Expr × Expr) × Tokens)
  | 0, _ => none
  | fuel + 1, tokens =>
    match tokens with
    | ⟨.mark .closeBrace, _⟩ :: rest => some ([], rest)
    | tokens => do
      let (key, rest) ←
        match parseLabel? tokens with
        | some found => some found
        | none => parseExpr fuel tokens
      let rest ← expectBinder rest
      let (value, rest) ← parseExpr fuel rest
      match rest with
      | ⟨.mark .closeBrace, _⟩ :: rest => some ([(key, value)], rest)
      | ⟨.newline, _⟩ :: rest =>
        let (fields, rest) ← parseFields fuel (skipNewlines rest)
        some ((key, value) :: fields, rest)
      | ⟨.mark .comma, _⟩ :: rest =>
        let (fields, rest) ← parseFields fuel (skipNewlines rest)
        some ((key, value) :: fields, rest)
      | _ => none

/-- The arguments of a call up to its closing parenthesis. -/
def parseArguments : Nat → Tokens → Option (List Expr × Tokens)
  | 0, _ => none
  | fuel + 1, tokens =>
    match tokens with
    | ⟨.mark .closeParen, _⟩ :: rest => some ([], rest)
    | tokens => parseSomeArguments fuel tokens

/-- At least one argument. A comma right behind the last one is dropped, and so is an ellipsis. -/
def parseSomeArguments : Nat → Tokens → Option (List Expr × Tokens)
  | 0, _ => none
  | fuel + 1, tokens => do
    let (argument, rest) ← parseExpr fuel tokens
    match rest with
    | ⟨.mark .ellipsis, _⟩ :: rest =>
      let rest ← expect .closeParen (skipNewlines rest)
      some ([argument], rest)
    | ⟨.mark .comma, _⟩ :: rest =>
      match skipNewlines rest with
      | ⟨.mark .closeParen, _⟩ :: rest => some ([argument], rest)
      | rest =>
        let (arguments, rest) ← parseSomeArguments fuel rest
        some (argument :: arguments, rest)
    | rest =>
      match skipNewlines rest with
      | ⟨.mark .closeParen, _⟩ :: rest => some ([argument], rest)
      | ⟨.mark .comma, _⟩ :: rest =>
        let (arguments, rest) ← parseSomeArguments fuel (skipNewlines rest)
        some (argument :: arguments, rest)
      | _ => none

/-- The names and the source of a `for` expression, from behind the word `for` up to and with the
colon. -/
def parseForHead : Nat → Tokens → Option ((List String × Expr) × Tokens)
  | 0, _ => none
  | fuel + 1, tokens => do
    let (names, rest) ← parseForNames tokens
    let (source, rest) ← parseExpr fuel rest
    let rest ← expect .colon (skipNewlines rest)
    return ((names, source), skipNewlines rest)

/-- The condition of a `for` expression, if it has one. -/
def parseGuard : Nat → Tokens → Option (Option Expr × Tokens)
  | 0, _ => none
  | fuel + 1, tokens =>
    match tokens with
    | ⟨.word "if", _⟩ :: rest => do
      let (guard, rest) ← parseExpr fuel (skipNewlines rest)
      return (some guard, rest)
    | tokens => some (none, tokens)

def parseForTuple : Nat → Tokens → Option (Expr × Tokens)
  | 0, _ => none
  | fuel + 1, tokens => do
    let ((names, source), rest) ← parseForHead fuel tokens
    let (item, rest) ← parseExpr fuel rest
    let (guard, rest) ← parseGuard fuel (skipNewlines rest)
    let rest ← expect .closeBracket (skipNewlines rest)
    return (.forTuple names source item guard, rest)

def parseForObject : Nat → Tokens → Option (Expr × Tokens)
  | 0, _ => none
  | fuel + 1, tokens => do
    let ((names, source), rest) ← parseForHead fuel tokens
    let (key, rest) ← parseExpr fuel rest
    let rest ← expect .arrow rest
    let (value, rest) ← parseExpr fuel (skipNewlines rest)
    let (grouped, rest) :=
      match expect .ellipsis rest with
      | some rest => (true, rest)
      | none => (false, rest)
    let (guard, rest) ← parseGuard fuel (skipNewlines rest)
    let rest ← expect .closeBrace (skipNewlines rest)
    return (.forObject names source key value grouped guard, rest)

end

mutual

/-- Items up to the first token that begins none. Newlines between them are optional. -/
def parseBody : Nat → Tokens → Option (List Item × Tokens)
  | 0, _ => none
  | fuel + 1, tokens =>
    match skipNewlines tokens with
    | ⟨.word name, line⟩ :: rest => do
      let (item, rest) ← parseItem fuel name line rest
      let (items, rest) ← parseBody fuel rest
      return (item :: items, rest)
    | rest => some ([], rest)

/-- The attribute or block of the given name, from behind that name on. -/
def parseItem : Nat → String → Nat → Tokens → Option (Item × Tokens)
  | 0, _, _, _ => none
  | fuel + 1, name, line, tokens =>
    match tokens with
    | ⟨.mark .assign, _⟩ :: rest => do
      let (value, rest) ← parseExpr fuel rest
      return (.attribute name value, rest)
    | tokens => do
      let (labels, rest) := spanLabels tokens
      let rest ← expect .openBrace (skipNewlines rest)
      let (body, rest) ← parseBody fuel rest
      match rest with
      | ⟨.mark .closeBrace, lastLine⟩ :: rest => some (.block name labels body line lastLine, rest)
      | _ => none

end

/-- The items of a whole text. Between two tokens no reading goes more than eight steps down. -/
def parse (text : List Char) : Option (List Item) := do
  let tokens ← tokenize (text ++ ['\n'])
  match ← parseBody (8 * tokens.length + 8) tokens with
  | (items, []) => some items
  | _ => none

end TerraIndex.Hcl
