import TerraIndex.Proofs.Document.Paths
import TerraIndex.Proofs.Listing.Parts
/-!
# The sites of a file

The sites of a file are what its entities of one kind can be built from, in document order
(`SourceFile.sites`). All of them are parts of its tree (`SourceFile.parts_sites`); the sites of an
export that have names are the maps among the entries of one map, which a path leads to
(`SourceFile.mem_exportSites`).
-/

namespace TerraIndex

/-- What one entity is built from. A resource of a state whose instances are no list is a site that
nothing can be built from. -/
inductive Site
  | block (block : ConfigBlock)
  | localEntry (block : ConfigBlock) (name : String) (value : Node)
  | planned (entry : Body)
  | stateInstance (resource inst : Body)
  | noInstances (resource : Body)
  | exported (name : String) (body : Body)

/-- The instances of a resource that are maps. Where there are none because the key is missing or
null, the resource has no site at all. -/
def State.sites (resource : Body) : List Site :=
  match resource.present? "instances" with
  | none => []
  | some (.list items) => (items.filterMap Node.map?).map (.stateInstance resource)
  | some _ => [.noInstances resource]

namespace SourceFile

/-- The blocks of a kind, and in `locals` blocks their entries. -/
def configSites (file : SourceFile) : ListKind → List Site
  | .resource => (configBlocks file.tree "resource" 2).map .block
  | .dataSource => (configBlocks file.tree "data" 2).map .block
  | .module => (configBlocks file.tree "module" 1).map .block
  | .output => (configBlocks file.tree "output" 1).map .block
  | .variable => (configBlocks file.tree "variable" 1).map .block
  | .provider => (configBlocks file.tree "provider" 1).map .block
  | .localValue => (configBlocks file.tree "locals" 0).flatMap fun block =>
    block.body.map fun (name, value) => .localEntry block name value

/-- What a plan or a state holds of a kind. -/
def exportSites (file : SourceFile) : ListKind → List Site
  | .resource =>
    match file.kind with
    | .plan => (Plan.entries file.tree).map .planned
    | _ => (State.resources file.tree).flatMap State.sites
  | .output => (namedEntries file.outputsNode).map fun (name, body) => .exported name body
  | .variable =>
    (namedEntries (file.tree.child? "variables")).map fun (name, body) => .exported name body
  | _ => []

def sites (file : SourceFile) (kind : ListKind) : List Site :=
  if file.kind = .config then file.configSites kind else file.exportSites kind

end SourceFile

section Parts

/-- All that a site holds is part of the tree. -/
def Site.PartOf (tree : Node) : Site → Prop
  | .block b => tree.HasPart (.map b.body)
  | .localEntry _ _ value => tree.HasPart value
  | .planned entry => tree.HasPart (.map entry)
  | .stateInstance resource inst => tree.HasPart (.map resource) ∧ tree.HasPart (.map inst)
  | .noInstances resource => tree.HasPart (.map resource)
  | .exported _ body => tree.HasPart (.map body)

theorem stateSites_part {tree : Node} {resource : Body} (h : tree.HasPart (.map resource)) :
    ∀ site ∈ State.sites resource, site.PartOf tree := by
  unfold State.sites
  split
  · exact List.forall_mem_nil _
  · rename_i items hitems
    have hlist := child?_part h (present?_some hitems)
    exact List.forall_mem_map.mpr fun inst hinst =>
      ⟨h, filterMap_map?_part (fun _ => hlist.item) inst hinst⟩
  · exact List.forall_mem_singleton.mpr h

namespace SourceFile

variable {file : SourceFile}

theorem configSites_part (kind : ListKind) :
    ∀ site ∈ file.configSites kind, site.PartOf (.map file.tree) := by
  cases kind with
  | localValue =>
    intro site hsite
    obtain ⟨block, hblock, hsite⟩ := List.mem_flatMap.mp hsite
    obtain ⟨⟨name, value⟩, hentry, rfl⟩ := List.mem_map.mp hsite
    exact (configBlocks_part .whole hblock).value hentry
  | _ => exact List.forall_mem_map.mpr fun _ => configBlocks_part .whole

theorem exportSites_part (kind : ListKind) :
    ∀ site ∈ file.exportSites kind, site.PartOf (.map file.tree) := by
  cases kind with
  | resource =>
    rw [exportSites]
    split
    · exact List.forall_mem_map.mpr (entries_part .whole)
    · refine List.forall_mem_flatMap.mpr fun resource hresource => stateSites_part ?_
      exact maps_part (fun _ => child?_part .whole) resource hresource
  | output =>
    refine List.forall_mem_map.mpr (namedEntries_part fun node hnode => ?_)
    unfold outputsNode at hnode
    split at hnode
    · split at hnode
      · rename_i planned hplanned
        exact child?_part (child?_part .whole hplanned) hnode
      · cases hnode
    · exact child?_part .whole hnode
  | «variable» =>
    exact List.forall_mem_map.mpr (namedEntries_part fun _ => child?_part .whole)
  | _ => exact List.forall_mem_nil _

theorem parts_sites (kind : ListKind) :
    ∀ site ∈ file.sites kind, site.PartOf (.map file.tree) := by
  unfold sites
  split_ifs
  · exact configSites_part kind
  · exact exportSites_part kind

end SourceFile

end Parts

section Named

theorem mem_namedEntries {node : Option Node} {name : String} {body : Body} :
    (name, body) ∈ namedEntries node
      ↔ ∃ entries, node = some (.map entries) ∧ (name, .map body) ∈ entries := by
  unfold namedEntries
  split
  · rename_i entries
    simp only [List.mem_filterMap, Option.some.injEq, Node.map.injEq, exists_eq_left']
    constructor
    · rintro ⟨⟨other, child⟩, hmem, hchild⟩
      cases child with
      | map inner =>
        cases hchild
        exact hmem
      | _ => cases hchild
    · exact fun hmem => ⟨_, hmem, rfl⟩
  · rename_i hnone
    exact iff_of_false List.not_mem_nil fun ⟨entries, hnode, _⟩ => hnone entries hnode

namespace SourceFile

/-- Where an export has its outputs and its variables. -/
def exportPath (file : SourceFile) : ListKind → Path
  | .output =>
    if file.kind = .plan then [.key "planned_values", .key "outputs"] else [.key "outputs"]
  | .variable => [.key "variables"]
  | _ => []

theorem at?_key (body : Body) (key : String) :
    (Node.map body).at? [.key key] = body.child? key := Option.bind_fun_some _

theorem at?_outputs (file : SourceFile) :
    (Node.map file.tree).at? (file.exportPath .output) = file.outputsNode := by
  unfold outputsNode exportPath
  cases file.kind with
  | plan =>
    simp only [if_true, Node.at?_cons, Node.step?]
    rw [Body.child?]
    cases entryAt? file.tree "planned_values" with
    | none => rfl
    | some node =>
      cases node with
      | map planned => exact at?_key planned "outputs"
      | _ => rfl
  | config => exact at?_key file.tree "outputs"
  | state => exact at?_key file.tree "outputs"

theorem mem_exported {node : Option Node} {name : String} {body : Body} :
    .exported name body ∈ (namedEntries node).map (fun (name, body) => Site.exported name body)
      ↔ ∃ entries, node = some (.map entries) ∧ (name, .map body) ∈ entries := by
  rw [← mem_namedEntries, List.mem_map]
  constructor
  · rintro ⟨entry, hentry, heq⟩
    obtain ⟨rfl, rfl⟩ := Site.exported.inj heq
    exact hentry
  · exact fun hentry => ⟨_, hentry, rfl⟩

/-- The outputs and variables of an export are the maps among the entries of one map. -/
theorem mem_exportSites {file : SourceFile} {kind : ListKind} {name : String} {body : Body}
    (hkind : kind = .output ∨ kind = .variable) :
    .exported name body ∈ file.exportSites kind
      ↔ ∃ entries, (Node.map file.tree).at? (file.exportPath kind) = some (.map entries)
        ∧ (name, .map body) ∈ entries := by
  rcases hkind with rfl | rfl
  · rw [at?_outputs]
    exact mem_exported
  · rw [exportPath, at?_key]
    exact mem_exported

end SourceFile

end Named

end TerraIndex
