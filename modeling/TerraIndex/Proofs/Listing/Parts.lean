import TerraIndex.Proofs.Document.Writable
import TerraIndex.Proofs.Json.Occurrences
import TerraIndex.Proofs.Listing.ConfigBlocks
/-!
# What a listing takes from a tree

A listing takes nothing but parts of the tree of its file: the blocks of a configuration without
their reserved keys, the entries of a plan in its tree of modules, the resources of a state with
their instances, and what stands under the names of an export.
-/

namespace TerraIndex

section Walks

variable {tree : Node}

section Bodies

mutual

theorem walkLabels_part : ∀ (node : Node) (depth : Nat) (above : List String)
    {labels : List String} {body : Body}, tree.HasPart node →
    (labels, body) ∈ walkLabels node depth above → tree.HasPart (.map body)
  | .map entries, 0, above, labels, body, hnode, h => by
    rw [walkLabels, List.mem_singleton, Prod.mk.injEq] at h
    exact h.2 ▸ hnode
  | .map entries, depth + 1, above, _, _, hnode, h =>
    walkEntries_part entries depth above (fun _ => .value hnode) h
  | .scalar _, _, _, _, _, _, h => by simp [walkLabels] at h
  | .list _, _, _, _, _, _, h => by simp [walkLabels] at h
  | .stray _, _, _, _, _, _, h => by simp [walkLabels] at h

theorem walkEntries_part : ∀ (entries : List (String × Node)) (depth : Nat)
    (above : List String) {labels : List String} {body : Body},
    (∀ entry ∈ entries, tree.HasPart entry.2) →
    (labels, body) ∈ walkEntries entries depth above → tree.HasPart (.map body)
  | [], _, _, _, _, _, h => by simp [walkEntries] at h
  | (key, child) :: rest, depth, above, labels, body, hentries, h => by
    obtain ⟨hchild, hrest⟩ := List.forall_mem_cons.mp hentries
    rw [walkEntries] at h
    split_ifs at h
    · exact walkEntries_part rest depth above hrest h
    · rcases List.mem_append.mp h with h | h
      · exact walkLabels_part child depth (above ++ [key]) hchild h
      · exact walkEntries_part rest depth above hrest h

end

theorem child?_part {body : Body} {key : String} {node : Node} (hbody : tree.HasPart (.map body))
    (h : body.child? key = some node) : tree.HasPart node :=
  hbody.value (mem_of_entryAt? h)

theorem blocksOf_part {node : Node} (hnode : tree.HasPart node) :
    ∀ block ∈ blocksOf node, tree.HasPart block := by
  cases node with
  | list items => exact fun _ => hnode.item
  | _ => exact List.forall_mem_singleton.mpr hnode

theorem labelledBodies_part {body : Body} {kind : String} {depth : Nat}
    {source : List String × Body} (hbody : tree.HasPart (.map body))
    (h : source ∈ labelledBodies body kind depth) : tree.HasPart (.map source.2) := by
  unfold labelledBodies at h
  split at h
  · exact absurd h List.not_mem_nil
  · rename_i node hnode
    obtain ⟨block, hblock, h⟩ := List.mem_flatMap.mp h
    exact walkLabels_part block depth [] (blocksOf_part (child?_part hbody hnode) block hblock) h

theorem exists_source {tree : Body} {kind : String} {depth : Nat} {block : ConfigBlock}
    (h : block ∈ configBlocks tree kind depth) :
    ∃ source ∈ labelledBodies tree kind depth, block.body = source.2.sanitize := by
  have hnumbers := numberBlocks_matching (labelledBodies tree kind depth)
  rw [← configBlocks_eq] at hnumbers
  obtain ⟨source, hsource, hnumber⟩ := forall₂_mem_right hnumbers.flip h
  exact ⟨source, hsource, hnumber.body⟩

theorem configBlocks_part {body : Body} {kind : String} {depth : Nat} {block : ConfigBlock}
    (hbody : tree.HasPart (.map body)) (h : block ∈ configBlocks body kind depth) :
    tree.HasPart (.map block.body) := by
  obtain ⟨source, hsource, hsame⟩ := exists_source h
  rw [hsame]
  exact .sanitized (labelledBodies_part hbody hsource)

end Bodies

theorem filterMap_map?_part {nodes : List Node} (h : ∀ node ∈ nodes, tree.HasPart node) :
    ∀ body ∈ nodes.filterMap Node.map?, tree.HasPart (.map body) := by
  intro body hbody
  obtain ⟨node, hnode, hmap⟩ := List.mem_filterMap.mp hbody
  cases node with
  | map entries =>
    cases hmap
    exact h _ hnode
  | _ => cases hmap

theorem maps_part {node : Option Node} (h : ∀ n ∈ node, tree.HasPart n) :
    ∀ body ∈ Plan.maps node, tree.HasPart (.map body) := by
  unfold Plan.maps
  split
  · exact filterMap_map?_part fun _ => (h _ rfl).item
  · exact List.forall_mem_nil _

theorem namedEntries_part {node : Option Node} (h : ∀ n ∈ node, tree.HasPart n) :
    ∀ entry ∈ namedEntries node, tree.HasPart (.map entry.2) := by
  unfold namedEntries
  split
  · intro entry hentry
    obtain ⟨⟨name, child⟩, hchild, hmap⟩ := List.mem_filterMap.mp hentry
    have hpart := (h _ rfl).value hchild
    cases child with
    | map body =>
      cases hmap
      exact hpart
    | _ => cases hmap
  · exact List.forall_mem_nil _

mutual

theorem moduleEntries_part : ∀ {node : Node}, tree.HasPart node →
    ∀ body ∈ Plan.moduleEntries node, tree.HasPart (.map body)
  | .map entries, h => by
    rw [Plan.moduleEntries]
    exact List.forall_mem_append.mpr ⟨maps_part fun _ => child?_part h,
      childEntries_part entries fun _ => .value h⟩
  | .scalar _, _ => by simp [Plan.moduleEntries]
  | .list _, _ => by simp [Plan.moduleEntries]
  | .stray _, _ => by simp [Plan.moduleEntries]

theorem childEntries_part : ∀ (entries : List (String × Node)),
    (∀ entry ∈ entries, tree.HasPart entry.2) →
    ∀ body ∈ Plan.childEntries entries, tree.HasPart (.map body)
  | [], _ => by simp [Plan.childEntries]
  | (key, node) :: entries, h => by
    obtain ⟨hnode, hentries⟩ := List.forall_mem_cons.mp h
    rw [Plan.childEntries]
    split_ifs
    · exact listEntries_part hnode
    · exact childEntries_part entries hentries

theorem listEntries_part : ∀ {node : Node}, tree.HasPart node →
    ∀ body ∈ Plan.listEntries node, tree.HasPart (.map body)
  | .list items, h => itemsEntries_part items fun _ => .item h
  | .scalar _, _ => by simp [Plan.listEntries]
  | .map _, _ => by simp [Plan.listEntries]
  | .stray _, _ => by simp [Plan.listEntries]

theorem itemsEntries_part : ∀ (items : List Node), (∀ item ∈ items, tree.HasPart item) →
    ∀ body ∈ Plan.itemsEntries items, tree.HasPart (.map body)
  | [], _ => by simp [Plan.itemsEntries]
  | _ :: items, h => by
    obtain ⟨hitem, hitems⟩ := List.forall_mem_cons.mp h
    exact List.forall_mem_append.mpr ⟨moduleEntries_part hitem, itemsEntries_part items hitems⟩

end

theorem entries_part {body : Body} (h : tree.HasPart (.map body)) :
    ∀ entry ∈ Plan.entries body, tree.HasPart (.map entry) := by
  unfold Plan.entries
  split
  · rename_i planned hplanned
    split
    · rename_i root hroot
      exact moduleEntries_part (child?_part (child?_part h hplanned) hroot)
    · exact List.forall_mem_nil _
  · exact List.forall_mem_nil _

theorem instances_part {resource : Body} {instances : List Body}
    (hresource : tree.HasPart (.map resource)) (h : State.instances resource = .ok instances) :
    ∀ inst ∈ instances, tree.HasPart (.map inst) := by
  unfold State.instances at h
  split at h
  · cases h
    exact List.forall_mem_nil _
  · rename_i items hitems
    cases h
    exact filterMap_map?_part fun _ => (child?_part hresource (present?_some hitems)).item
  · cases h

end Walks

end TerraIndex
