import TerraIndex.Listing
/-!
# Command line arguments

`Settings.parse` reads the arguments. An option may be cut to any beginning that no other option
shares, its value may follow as the next argument, behind an equals sign, or, for a single letter,
right behind the letter; letters without value may be joined. Behind `--` everything is a path.

Paths are taken from the first run of arguments that are neither options nor values; a later run is
refused, and so are unknown options, but only in the end: a request for help that comes first is
answered.
-/

namespace TerraIndex.Command

inductive Flag
  | help
  | kind
  | state
  | plan
  | config
  | verbose
deriving DecidableEq

def Flag.takesValue : Flag → Bool
  | .kind => true
  | .config => true
  | _ => false

def spellings : List (String × Flag) := [
  ("-h", .help), ("--help", .help), ("-k", .kind), ("--kind", .kind), ("--state", .state),
  ("--plan", .plan), ("-c", .config), ("--config", .config), ("-v", .verbose),
  ("--verbose", .verbose)]

def kinds : List (String × ListKind) := [
  ("data_source", .dataSource), ("local", .localValue), ("module", .module), ("output", .output),
  ("provider", .provider), ("resource", .resource), ("variable", .variable)]

structure Settings where
  kind : ListKind
  isState : Bool
  isPlan : Bool
  config : Option String
  paths : List String

/-- The ways in which reading the arguments ends the program. -/
inductive Exit
  | usage
  | help
deriving DecidableEq

def Exit.code : Exit → Nat
  | .usage => 2
  | .help => 0

/-- Text attached to an option: behind an equals sign or right behind its letter. -/
inductive Attached
  | equals (text : List Char)
  | joined (text : List Char)

def Attached.text : Attached → List Char
  | .equals text => text
  | .joined text => text

/-- What an argument is. -/
inductive Argument
  | plain (text : String)
  | separator
  | option (flag : Flag) (isLetter : Bool) (attached : Option Attached)
  | unknown

/-- What stands before the first equals sign and, if there is one, what follows it. -/
def splitEquals : List Char → List Char × Option (List Char)
  | [] => ([], none)
  | c :: cs =>
    if c = '=' then ([], some cs)
    else
      let (before, behind) := splitEquals cs
      (c :: before, behind)

def flag? (text : List Char) : Option Flag := entryAt? spellings (String.ofList text)

/-- The options that a text with two dashes in front is a beginning of. -/
def completions (front : List Char) : List Flag :=
  (spellings.filter fun (spelling, _) => front.isPrefixOf spelling.toList).map (·.2)

/-- The text is a minus sign and a number in decimal digits. -/
def isNegativeNumber (cs : List Char) : Bool :=
  match cs with
  | '-' :: rest =>
    match rest.dropWhile Char.isDigit with
    | [] => !rest.isEmpty
    | '.' :: fraction => !fraction.isEmpty && fraction.all Char.isDigit
    | _ => false
  | _ => false

/-- Text with a dash in front that is no option is plain if it looks like a number or has a
blank in it. -/
def plainOrUnknown (text : String) : Argument :=
  if isNegativeNumber text.toList || text.toList.contains ' ' then .plain text else .unknown

/-- Says what an argument is, in front of any separator. It fails where it could be several
options. -/
def classify (text : String) : Except Exit Argument :=
  let cs := text.toList
  match cs with
  | ['-', '-'] => .ok .separator
  | ['-'] => .ok (.plain text)
  | '-' :: second :: rest =>
    match flag? cs with
    | some flag => .ok (.option flag (second ≠ '-') none)
    | none =>
      let (front, behind) := splitEquals cs
      match behind, flag? front with
      | some value, some flag => .ok (.option flag (front.length = 2) (some (.equals value)))
      | _, _ =>
        if second = '-' then
          match completions front with
          | [] => .ok (plainOrUnknown text)
          | [flag] => .ok (.option flag false (behind.map .equals))
          | _ => .error .usage
        else
          match flag? ['-', second] with
          | some flag => .ok (.option flag true (some (.joined rest)))
          | none => .ok (plainOrUnknown text)
  | _ => .ok (.plain text)

/-- Says what each argument is. -/
def classifyAll : List String → Except Exit (List Argument)
  | [] => .ok []
  | text :: rest => do
    match ← classify text with
    | .separator => return .separator :: rest.map .plain
    | argument =>
      let arguments ← classifyAll rest
      return argument :: arguments

/-- Paths not begun, being taken, or complete. -/
inductive PathPhase
  | before
  | taking
  | complete
deriving DecidableEq

structure Progress where
  settings : Settings
  phase : PathPhase
  refused : Bool

def Progress.start : Progress := ⟨⟨.resource, false, false, none, []⟩, .before, false⟩

namespace Progress

/-- Adds paths to the run that is being taken, or refuses them. -/
def takePaths (p : Progress) (paths : List String) : Progress :=
  match p.phase with
  | .complete => { p with refused := true }
  | _ =>
    let settings := { p.settings with paths := p.settings.paths ++ paths }
    { p with settings := settings, phase := .taking }

/-- An option ends the run of paths. -/
def endPaths (p : Progress) : Progress :=
  if p.phase = .taking then { p with phase := .complete } else p

/-- Sets a flag without value. State and plan exclude each other. -/
def setFlag (p : Progress) (flag : Flag) : Except Exit Progress :=
  match flag with
  | .help => .error .help
  | .state =>
    if p.settings.isPlan then .error .usage
    else .ok { p with settings := { p.settings with isState := true } }
  | .plan =>
    if p.settings.isState then .error .usage
    else .ok { p with settings := { p.settings with isPlan := true } }
  | _ => .ok p

def setValue (p : Progress) (flag : Flag) (value : String) : Except Exit Progress :=
  match flag with
  | .kind =>
    match entryAt? kinds value with
    | some kind => .ok { p with settings := { p.settings with kind := kind } }
    | none => .error .usage
  | _ => .ok { p with settings := { p.settings with config := some value } }

end Progress

/-- The flags of an argument: those set without value, then possibly one with its value, or waiting
for it; `refused` where letters are left that are no option. -/
structure Cluster where
  set : List Flag
  valued : Option (Flag × Option String)
  refused : Bool

/-- Takes an argument apart, where `done` holds the flags without value before this one; each step
after the first consumes a letter. -/
def cluster (done : List Flag) : Nat → Flag → Bool → Option Attached → Except Exit Cluster
  | _, flag, _, none =>
    if flag.takesValue then .ok ⟨done, some (flag, none), false⟩
    else .ok ⟨done ++ [flag], none, false⟩
  | 0, _, _, some _ => .error .usage
  | fuel + 1, flag, isLetter, some attached =>
    if flag.takesValue then .ok ⟨done, some (flag, some (String.ofList attached.text)), false⟩
    else
      match isLetter, attached with
      | true, .joined (letter :: rest) =>
        if letter = '-' then .error .usage
        else
          match flag? ['-', letter] with
          | none => .ok ⟨done ++ [flag], none, true⟩
          | some next =>
            let attached :=
              match rest with
              | [] => none
              | '=' :: text => some (.equals text)
              | text => some (.joined text)
            cluster (done ++ [flag]) fuel next true attached
      | _, _ => .error .usage

/-- Goes through the arguments. -/
def consume : Progress → List Argument → Except Exit Progress
  | p, [] => .ok p
  | p, .plain text :: rest => consume (p.takePaths [text]) rest
  | p, .separator :: rest => consume (p.takePaths []) rest
  | p, .unknown :: rest => consume { p.endPaths with refused := true } rest
  | p, .option flag isLetter attached :: rest => do
    let size := (attached.map fun a => a.text.length).getD 0
    let ⟨set, valued, refused⟩ ← cluster [] (size + 1) flag isLetter attached
    let p := p.endPaths
    let p := { p with refused := p.refused || refused }
    match valued with
    | none => do
      let p ← set.foldlM Progress.setFlag p
      consume p rest
    | some (flag, some value) => do
      let p ← set.foldlM Progress.setFlag p
      let p ← p.setValue flag value
      consume p rest
    | some (flag, none) =>
      match rest with
      | .plain value :: rest => do
        let p ← set.foldlM Progress.setFlag p
        let p ← p.setValue flag value
        consume p rest
      | _ => .error .usage

def Settings.parse (arguments : List String) : Except Exit Settings := do
  let arguments ← classifyAll arguments
  let p ← consume .start arguments
  if p.refused then throw .usage
  return p.settings

end TerraIndex.Command
