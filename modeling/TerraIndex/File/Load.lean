import TerraIndex.Document.Conversion
import TerraIndex.File.Kind
import TerraIndex.File.Store
import TerraIndex.Json.Nesting
import TerraIndex.Text.Lines
import TerraIndex.Text.Utf8
/-!
# Loading files

`load` reads a file, classifies it and parses it with the parser of its kind: configurations with
the parser that is installed, exports as JSON. A parser that accepts has to deliver a
map of representable values, or the file is rejected all the same.

An integer of too many digits in an export is no rejection but a failure of its own, and so is a
stack that is too small for the lists and maps of a file.
-/

namespace TerraIndex

/-- Why a file is rejected. -/
inductive Rejection
  | configSyntax
  | jsonSyntax (fault : Json.Fault)
  | notUtf8 (fault : Text.Utf8.Fault)
  | unsupported (e : UnsupportedValue)
  | notObject (typeName : String)
deriving DecidableEq

def Rejection.reason : Rejection → String
  | .configSyntax => "invalid HCL"
  | .jsonSyntax fault => fault.message
  | .notUtf8 fault => fault.message
  | .unsupported e => e.message
  | .notObject typeName => "top-level value is " ++ typeName ++ ", not an object"

/-- What there is no stack left for: decoding the list or map that a bracket opens, parsing a
configuration, or converting what was decoded. -/
inductive Exhaustion
  | decoding (opening : Char)
  | parsing
  | converting
deriving DecidableEq

def Exhaustion.message : Exhaustion → String
  | .decoding opening =>
    "maximum recursion depth exceeded while decoding a JSON "
      ++ (if opening = '[' then "array" else "object") ++ " from a unicode string"
  | .parsing | .converting => "maximum recursion depth exceeded"

inductive LoadError
  | unreadable (e : ReadError)
  | rejected (path : String) (rejection : Rejection)
  | tooManyDigits (fault : Json.Fault)
  | exhausted (e : Exhaustion)
deriving DecidableEq

def LoadError.message : LoadError → String
  | .unreadable e => e.message
  | .rejected path rejection => "failed to parse file " ++ path ++ ": " ++ rejection.reason
  | .tooManyDigits fault => fault.message
  | .exhausted e => e.message

/-- A file read, classified and parsed. -/
structure SourceFile where
  path : String
  content : String
  kind : FileKind
  tree : Body

/-- The document that a decoded value is, if it is one. -/
def documentOf (path : String) (raw : Raw) : Except LoadError Body :=
  match Node.ofRaw raw with
  | .error e => .error (.rejected path (.unsupported e))
  | .ok (.map entries) => .ok entries
  | .ok _ => .error (.rejected path (.notObject raw.typeName))

def parseConfig (parser : ConfigParser) (path : String) (content : List Char) :
    Except LoadError Body :=
  match parser content with
  | none => .error (.rejected path .configSyntax)
  | some raw => documentOf path raw

def parseExport (path : String) (content : List Char) : Except LoadError Body :=
  match Json.decode content with
  | .error fault =>
    if fault.problem.isSyntax then .error (.rejected path (.jsonSyntax fault))
    else .error (.tooManyDigits fault)
  | .ok raw => documentOf path raw

def parseAs (parser : ConfigParser) (kind : FileKind) (path : String) (content : List Char) :
    Except LoadError Body :=
  match kind with
  | .config => parseConfig parser path content
  | _ => parseExport path content

/-- The text of a file, with every kind of line end made a newline. -/
def decodeText (bytes : List UInt8) : Except Text.Utf8.Fault (List Char) :=
  Text.unifyNewlines <$> Text.Utf8.decode bytes

/-- The value that the parser for a kind of file makes of a text. -/
def decodeAs? (parser : ConfigParser) (kind : FileKind) (content : List Char) : Option Raw :=
  match kind with
  | .config => parser content
  | _ => (Json.decode content).toOption

namespace Stack

/-- A text is decoded to find out what kind of file it is, unless the caller knows that. -/
def classifying? (stack : Stack) (item : FileItem) (content : List Char) : Option Exhaustion :=
  if item.isState || item.isPlan then none
  else (Json.overflow? stack.classifying content).map .decoding

def parsing? (stack : Stack) (kind : FileKind) (content : List Char) : Option Exhaustion :=
  match kind with
  | .config => if stack.parses content then none else some .parsing
  | _ => (Json.overflow? stack.decoding content).map .decoding

def converting? (stack : Stack) (parser : ConfigParser) (kind : FileKind) (content : List Char) :
    Option Exhaustion :=
  if (decodeAs? parser kind content).any fun raw => raw.overflows stack.converting then
    some .converting
  else none

/-- The first thing that a stack is too small for when a text is loaded, if there is one. -/
def exhaustion? (stack : Stack) (parser : ConfigParser) (item : FileItem) (content : List Char) :
    Option Exhaustion :=
  let kind := item.classify content
  (stack.classifying? item content).or
    ((stack.parsing? kind content).or (stack.converting? parser kind content))

end Stack

def load (store : FileStore) (item : FileItem) : Except LoadError SourceFile := do
  let bytes ← (store.read item.path).mapError .unreadable
  let content ← (decodeText bytes).mapError fun fault => .rejected item.path (.notUtf8 fault)
  match store.stack.exhaustion? store.parser item content with
  | some e => .error (.exhausted e)
  | none => do
    let kind := item.classify content
    let tree ← parseAs store.parser kind item.path content
    return ⟨item.path, String.ofList content, kind, tree⟩

end TerraIndex
