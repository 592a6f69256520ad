import TerraIndex.Hcl.Value
import TerraIndex.Text.Surrogate
/-!
# Stored files

A `FileStore` holds the bytes of the files below the current directory under their normal paths,
and the directories that were made for them. Reading a path follows its parts one by one, as an
operating system does; `ReadError` says why it failed.

With the files go the stack of the machine that they are read on and the parser of configurations
that is installed there.
-/

namespace TerraIndex

inductive ReadFault
  | missing
  | isDirectory
  | notDirectory
  | nameTooLong
  | nullCharacter
  | unencodable
deriving DecidableEq

/-- A file that cannot be read, by its normal path. -/
structure ReadError where
  path : String
  fault : ReadFault
deriving DecidableEq

def ReadError.message (e : ReadError) : String :=
  let numbered (text : String) : String :=
    text ++ ": " ++ String.ofList (Text.display e.path.toList)
  match e.fault with
  | .missing => numbered "[Errno 2] No such file or directory"
  | .isDirectory => numbered "[Errno 21] Is a directory"
  | .notDirectory => numbered "[Errno 20] Not a directory"
  | .nameTooLong => numbered "[Errno 36] File name too long"
  | .nullCharacter => "embedded null byte"
  | .unencodable => Text.encodingMessage e.path.toList

/-- The parts of a text between slashes. -/
def splitSlashes : List Char → List (List Char)
  | [] => [[]]
  | c :: cs =>
    if c = '/' then [] :: splitSlashes cs
    else
      match splitSlashes cs with
      | [] => [[c]]
      | part :: parts => (c :: part) :: parts

/-- The parts of a path that lead somewhere. -/
def pathParts (path : String) : List String :=
  ((splitSlashes path.toList).map String.ofList).filter fun part => part ≠ "" && part ≠ "."

/-- Two slashes in front are kept, any other number counts as one. -/
def pathRoot (path : String) : String :=
  match path.toList with
  | '/' :: '/' :: '/' :: _ => "/"
  | '/' :: '/' :: _ => "//"
  | '/' :: _ => "/"
  | _ => ""

/-- A path without empty parts and dots; the current directory is a dot. -/
def normalPath (path : String) : String :=
  let text := pathRoot path ++ String.intercalate "/" (pathParts path)
  if text = "" then "." else text

/-- How many lists and maps a stack lets one enter one inside the other: where a connection is
decoded, where a file is decoded to be classified and to be parsed, and where what was decoded is
converted to a document. What the parser of configurations takes of it depends on the text. -/
structure Stack where
  connecting : Nat
  classifying : Nat
  decoding : Nat
  converting : Nat
  parses : List Char → Bool

/-- What a stack of a thousand frames leaves, where the decoder takes one for each list or map and
the conversion takes two. -/
def Stack.usual : Stack := ⟨991, 988, 989, 494, fun _ => true⟩

/-- A parser of configurations gives the value of a text that it accepts. -/
abbrev ConfigParser := List Char → Option Raw

structure FileStore where
  files : List (String × List UInt8)
  directories : List String
  stack : Stack := .usual
  parser : ConfigParser := Hcl.decode

namespace FileStore

def empty : FileStore := ⟨[], [], .usual, Hcl.decode⟩

/-- The directories above a file given by its parts. -/
def parents : List String → List String
  | [] => []
  | [_] => []
  | part :: rest => part :: (parents rest).map fun below => part ++ "/" ++ below

/-- Stores a file, in place of an earlier one of its path. -/
def write (store : FileStore) (path : String) (bytes : List UInt8) : FileStore :=
  let key := normalPath path
  { store with
    files := (key, bytes) :: store.files.filter fun file => file.1 ≠ key
    directories := store.directories ++ parents (pathParts path) }

def remove (store : FileStore) (path : String) : FileStore :=
  { store with files := store.files.filter fun file => file.1 ≠ normalPath path }

/-- The content of the file of a normal path. -/
def content? (store : FileStore) (key : String) : Option (List UInt8) :=
  (store.files.find? fun file => file.1 == key).map (·.2)

/-- Follows the parts of a path from a directory, given by the parts that lead to it, the last one
first. What lies above the current directory is not known to hold files. -/
def follow (store : FileStore) : List String → List String → Except ReadFault (List UInt8)
  | _, [] => .error .isDirectory
  | above, part :: rest =>
    if 255 < part.utf8ByteSize then .error .nameTooLong
    else if part = ".." then
      match above, rest with
      | [], [] => .error .isDirectory
      | [], _ :: _ => .error .missing
      | _ :: above, rest => store.follow above rest
    else
      let key := String.intercalate "/" (part :: above).reverse
      match store.content? key, rest with
      | some bytes, [] => .ok bytes
      | some _, _ :: _ => .error .notDirectory
      | none, rest =>
        if store.directories.contains key then store.follow (part :: above) rest
        else .error .missing

/-- A path stored under its normal form is found at once. -/
def read (store : FileStore) (path : String) : Except ReadError (List UInt8) :=
  let key := normalPath path
  let parts := pathParts path
  let result : Except ReadFault (List UInt8) :=
    if path.toList.any fun c => !Text.isEncodable c then .error .unencodable
    else if path.toList.contains '\x00' then .error .nullCharacter
    else
      match store.content? key with
      | some bytes => .ok bytes
      | none =>
        if store.directories.contains key then .error .isDirectory
        else if pathRoot path = "" ∨ parts = [] then store.follow [] parts
        else .error .missing
  result.mapError (⟨key, ·⟩)

end FileStore

end TerraIndex
