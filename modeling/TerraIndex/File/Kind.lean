import TerraIndex.Json.Decode
/-!
# Kinds of files

A file is a configuration, a plan export or a state export. The caller's classification comes
first, state before plan; a file that nobody classified is a plan when it is a JSON object with
the keys that every plan has, and a configuration otherwise.
-/

namespace TerraIndex

inductive FileKind
  | config
  | plan
  | state
deriving DecidableEq

/-- A path with the caller's classification. -/
structure FileItem where
  path : String
  isPlan : Bool
  isState : Bool
deriving DecidableEq

/-- A path classified by its suffix. -/
def FileItem.ofPath (path : String) : FileItem :=
  ⟨path, false, ".tfstate".toList.isSuffixOf path.toList⟩

def isPlanText (content : List Char) : Bool :=
  match Json.decode content with
  | .ok (.map entries) => hasEntry entries "resource_changes" && hasEntry entries "format_version"
  | _ => false

def FileItem.classify (item : FileItem) (content : List Char) : FileKind :=
  if item.isState then .state
  else if item.isPlan || isPlanText content then .plan
  else .config

end TerraIndex
