import TerraIndex.Command.Run
/-!
# The program

Reads the files that the arguments name and writes what `Command.run` answers.
-/

namespace TerraIndex

/-- Adds the file of a path to a store, or the path as a directory where it cannot be read as a
file though it exists. -/
def storePath (store : FileStore) (path : String) : IO FileStore := do
  try
    let bytes ← IO.FS.readBinFile path
    return store.write path bytes.toList
  catch
    | .noFileOrDirectory .. => return store
    | _ => return { store with directories := normalPath path :: store.directories }

/-- The files that settings name, those of the connection included. -/
def storeOf (settings : Command.Settings) : IO FileStore := do
  let store ← settings.config.toList.foldlM storePath .empty
  let connection := ((Command.connectionOf settings store).toOption).getD none
  ((Command.itemsOf settings connection).map FileItem.path).foldlM storePath store

/-- Writes a result and gives its status. -/
def report (result : Except Command.Abort Command.Result) : IO UInt32 := do
  match result with
  | .ok result =>
    IO.print result.stdout
    IO.eprint result.stderr
    return UInt32.ofNat result.status
  | .error (.exit e) => return UInt32.ofNat e.code
  | .error (.connection e) =>
    IO.eprintln e.message
    return 1
  | .error (.listing e) =>
    IO.eprintln e.message
    return 1
  | .error .exhausted =>
    IO.eprintln Exhaustion.converting.message
    return 1

end TerraIndex

open TerraIndex in
def main (arguments : List String) : IO UInt32 := do
  match Command.Settings.parse arguments with
  | .error e => report (.error (.exit e))
  | .ok settings =>
    let machine : Command.Machine := ⟨← storeOf settings, fun _ _ => true⟩
    report (Command.runSettings settings machine)
