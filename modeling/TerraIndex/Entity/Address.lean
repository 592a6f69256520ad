import TerraIndex.Document.Display
import TerraIndex.Entity.Build
/-!
# Resource addresses

The address of a resource is its type and name, with `data.` and the module in front as far as it
has them. The address of an instance has the index in brackets behind: a string is written as a JSON
string, any other index as it is displayed, if it can be.
-/

namespace TerraIndex

def resourceAddress (type name mode module : String) : String :=
  let address := plainAddress type name
  let address := if mode = "data" then "data." ++ address else address
  if module = "" then address else module ++ "." ++ address

def indexText? (index : Raw) : Option (List Char) :=
  match index with
  | .null => some []
  | .text s => some ('[' :: Text.quoteAscii s.toList ++ [']'])
  | index => index.display?.map fun text => '[' :: text ++ [']']

def instanceAddress? (type name : String) (index : Raw) (mode module : String) : Option String :=
  (indexText? index).map fun text => resourceAddress type name mode module ++ String.ofList text

end TerraIndex
