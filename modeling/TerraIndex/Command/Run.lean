import TerraIndex.Command.Arguments
import TerraIndex.Connection
/-!
# Running the command

`run` lists every file item in order. Standard output gets one line for each entity, standard
error one line for each listing that failed, and the status says whether any did. What goes wrong
with the connection file ends the program instead, and so does all that is no fault of a file: an
integer too long to be read, a path that cannot be handed to the system, or a stack that is too
small.
-/

namespace TerraIndex.Command

/-- What the program writes and the status it ends with. -/
structure Result where
  status : Nat
  stdout : String
  stderr : String

/-- Errors that are not reported but end the program. -/
inductive Abort
  | exit (e : Exit)
  | connection (e : ConnectionError)
  | listing (e : ListError)
  | exhausted

/-- What the program runs on: the stored files, and whether the stack suffices to build and to write
the entities of a kind that a file declares. How deep the values in a file are nested decides that,
and how much of the stack each of the steps takes. -/
structure Machine where
  store : FileStore
  sustains : ListKind → SourceFile → Bool

/-- The machine loads the file of an item, but its stack is too small for the entities. -/
def Machine.givesOut (machine : Machine) (kind : ListKind) (item : FileItem) : Bool :=
  match load machine.store item with
  | .ok file => !machine.sustains kind file
  | .error _ => false

/-- The items of the connection, then the paths given as arguments. -/
def itemsOf (settings : Settings) (connection : Option Connection) : List FileItem :=
  let tagged (path : String) : FileItem :=
    if settings.isState || settings.isPlan then ⟨path, settings.isPlan, settings.isState⟩
    else .ofPath path
  ((connection.map Connection.items).getD []) ++ settings.paths.map tagged

/-- An entity as one line of JSON. It is made of what was decoded, so no integer in it is too long to
be written. -/
def entityLine (entity : Entity) : String :=
  String.ofList (Json.Style.row.encode (.map entity.row) ++ ['\n'])

def errorLine (item : FileItem) (e : ListError) : String :=
  "Error listing '" ++ item.path ++ "': " ++ e.message ++ "\n"

/-- Errors that are reported and keep no later item from being listed. -/
def isReported : ListError → Bool
  | .load (.tooManyDigits _) => false
  | .load (.exhausted _) => false
  | .load (.unreadable e) => e.fault ≠ .nullCharacter ∧ e.fault ≠ .unencodable
  | .load (.rejected ..) => true
  | .build _ => true
  | .stop _ => false

/-- Adds what listing one item writes. -/
def addItem (kind : ListKind) (machine : Machine) (result : Result) (item : FileItem) :
    Except Abort Result :=
  let listing := list kind machine.store item
  let stdout := listing.entities.foldl (fun out entity => out ++ entityLine entity) result.stdout
  if machine.givesOut kind item then .error .exhausted
  else
    match listing.failure with
    | none => .ok { result with stdout := stdout }
    | some e =>
      if isReported e then .ok ⟨1, stdout, result.stderr ++ errorLine item e⟩
      else .error (.listing e)

def runItems (kind : ListKind) (machine : Machine) (items : List FileItem) :
    Except Abort Result :=
  items.foldlM (addItem kind machine) ⟨0, "", ""⟩

/-- The connection of the settings, if they name one. -/
def connectionOf (settings : Settings) (store : FileStore) :
    Except ConnectionError (Option Connection) :=
  match settings.config with
  | none => .ok none
  | some "" => .ok none
  | some path => some <$> Connection.ofFile store path

def runSettings (settings : Settings) (machine : Machine) : Except Abort Result :=
  if settings.paths = [] ∧ settings.config.getD "" = "" then
    .ok ⟨2, "", "tfdoc: no files given (pass paths or --config)\n"⟩
  else
    match connectionOf settings machine.store with
    | .error e => .error (.connection e)
    | .ok connection => runItems settings.kind machine (itemsOf settings connection)

def run (arguments : List String) (machine : Machine) : Except Abort Result :=
  match Settings.parse arguments with
  | .error e => .error (.exit e)
  | .ok settings => runSettings settings machine

end TerraIndex.Command
