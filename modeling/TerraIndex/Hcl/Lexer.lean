import TerraIndex.Hcl.Token
import TerraIndex.Text.Lines
/-!
# From characters to tokens

`tokenize` reads a whole text and answers none where some character begins no token. At each place
the longest spelling wins, except that right behind an ellipsis a word that begins with `if` is
read as that keyword alone.
-/

namespace TerraIndex.Hcl

def isWordStart (c : Char) : Bool := c.isAlpha || c == '_'

def isWordRest (c : Char) : Bool := c.isAlphanum || c == '_' || c == '-'

def isMarkerRest (c : Char) : Bool := c.isAlphanum || c == '.' || c == '_' || c == '-'

/-- Where a scan of a quoted string stands: in its text, in a template or in a template inside a
template. A template has to hold something, which is what the flags keep track of. -/
inductive QuotedState
  | text
  | template (filled : Bool)
  | nested (filled : Bool)

/-- The content of a quoted string up to its closing quote, and what follows. Quotes inside a
template do not close the string. -/
def scanQuoted : QuotedState → List Char → Option (List Char × List Char)
  | _, [] => none
  | .text, '"' :: rest => some ([], rest)
  | .text, ['\\'] => none
  | .text, '\\' :: c :: rest =>
    if c = '\n' then none
    else (scanQuoted .text rest).map fun (s, left) => ('\\' :: c :: s, left)
  | .text, '$' :: '{' :: rest =>
    (scanQuoted (.template false) rest).map fun (s, left) => ('$' :: '{' :: s, left)
  | .text, c :: rest => (scanQuoted .text rest).map fun (s, left) => (c :: s, left)
  | .template filled, '}' :: rest =>
    if filled then (scanQuoted .text rest).map fun (s, left) => ('}' :: s, left) else none
  | .template _, '$' :: '{' :: rest =>
    (scanQuoted (.nested false) rest).map fun (s, left) => ('$' :: '{' :: s, left)
  | .template _, c :: rest =>
    (scanQuoted (.template true) rest).map fun (s, left) => (c :: s, left)
  | .nested filled, '}' :: rest =>
    if filled then (scanQuoted (.template true) rest).map fun (s, left) => ('}' :: s, left)
    else none
  | .nested _, c :: rest =>
    (scanQuoted (.nested true) rest).map fun (s, left) => (c :: s, left)

/-- What stands before the first occurrence of a word, and what follows it. -/
def splitAtWord (word : List Char) : List Char → Option (List Char × List Char)
  | [] => if word.isEmpty then some ([], []) else none
  | c :: cs =>
    if word.isPrefixOf (c :: cs) then some ([], (c :: cs).drop word.length)
    else (splitAtWord word cs).map fun (before, left) => (c :: before, left)

/-- Drops the newlines, tabs and spaces at the end. -/
def trimHeredoc (cs : List Char) : List Char :=
  (cs.reverse.dropWhile fun c => c == '\n' || c == '\t' || c == ' ').reverse

/-- Removes from every line as many spaces as the least indented line has. -/
def unindent (cs : List Char) : List Char :=
  let lines := Text.splitNewlines cs
  let indents := lines.map fun line => (line.takeWhile (· == ' ')).length
  match indents.min? with
  | none => cs
  | some indent => Text.joinNewlines (lines.map (·.drop indent))

/-- What a lexeme reads: a token, or none for a blank or a block comment, the number of newlines in
it, and what follows it. -/
structure Lexeme where
  token? : Option Token
  newlines : Nat
  rest : List Char

/-- A heredoc from behind its angle brackets on: a marker of at least two characters ends the
line, and the text runs to the first occurrence of the marker. -/
def scanHeredoc (cs : List Char) : Option Lexeme :=
  let (indented, cs) :=
    match cs with
    | '-' :: cs => (true, cs)
    | cs => (false, cs)
  match cs with
  | [] => none
  | c :: rest =>
    let marker := c :: rest.takeWhile isMarkerRest
    match rest.dropWhile isMarkerRest with
    | '\n' :: rest =>
      if c.isAlpha && 2 ≤ marker.length then
        (splitAtWord marker rest).map fun (content, left) =>
          let cleaned := trimHeredoc content
          ⟨some (.heredoc (if indented then unindent cleaned else cleaned)),
            content.count '\n' + 1, left⟩
      else none
    | _ => none

def scanMark (cs : List Char) : Option Lexeme :=
  spellings.findSome? fun (spelling, token) =>
    if spelling.isPrefixOf cs then some ⟨some token, 0, cs.drop spelling.length⟩ else none

def scanLineComment (cs : List Char) : Option Lexeme :=
  (splitAtWord ['\n'] cs).map fun (_, left) => ⟨some .newline, 1, left⟩

/-- The lexeme that a text begins with. -/
def scanLexeme (afterEllipsis : Bool) (cs : List Char) : Option Lexeme :=
  match cs with
  | [] => none
  | ' ' :: rest => some ⟨none, 0, rest⟩
  | '\t' :: rest => some ⟨none, 0, rest⟩
  | '/' :: '*' :: rest =>
    (splitAtWord ['*', '/'] rest).map fun (comment, left) => ⟨none, comment.count '\n', left⟩
  | '\n' :: rest => some ⟨some .newline, 1, rest⟩
  | '#' :: rest => scanLineComment rest
  | '/' :: '/' :: rest => scanLineComment rest
  | '"' :: rest =>
    (scanQuoted .text rest).map fun (content, left) =>
      ⟨some (.quoted content), content.count '\n', left⟩
  | '<' :: '<' :: rest =>
    match scanHeredoc rest with
    | some lexeme => some lexeme
    | none => scanMark cs
  | c :: rest =>
    if c.isDigit then some ⟨some (.digit c), 0, rest⟩
    else if isWordStart c then
      if afterEllipsis && ['i', 'f'].isPrefixOf cs then some ⟨some (.word "if"), 0, cs.drop 2⟩
      else
        some ⟨some (.word (String.ofList (cs.takeWhile isWordRest))), 0, cs.dropWhile isWordRest⟩
    else scanMark cs

/-- Tokens of a text whose first character is on the given line; each consumes a character. -/
def tokensFrom : Nat → Nat → Bool → List Char → Option (List Located)
  | _, _, _, [] => some []
  | 0, _, _, _ => none
  | fuel + 1, line, afterEllipsis, cs =>
    match scanLexeme afterEllipsis cs with
    | none => none
    | some ⟨none, newlines, rest⟩ => tokensFrom fuel (line + newlines) afterEllipsis rest
    | some ⟨some token, newlines, rest⟩ =>
      (tokensFrom fuel (line + newlines) (token = .mark .ellipsis) rest).map (⟨token, line⟩ :: ·)

def tokenize (text : List Char) : Option (List Located) := tokensFrom text.length 1 false text

end TerraIndex.Hcl
