import TerraIndex.Document.Display
import TerraIndex.Document.Reserved
import TerraIndex.Proofs.Document.Conversion
/-!
# Trees that can be written

A tree can be written if its scalars are values of documents and no value is in the place of a node.
It has a canonical text, a plain text and a value that can be shown, and so have all its parts,
however deep they stand in it and with or without their reserved keys (`Node.HasPart.writable`).
Whatever a value is converted to can be written, unless an integer of the value is too long
(`writable_of_ofRaw`).
-/

namespace TerraIndex

open Json

/-- Induction over the nodes in lists and maps. -/
@[elab_as_elim]
theorem Node.nested {P : Node → Prop} (scalar : ∀ s, P (.scalar s))
    (list : ∀ items, (∀ item ∈ items, P item) → P (.list items))
    (map : ∀ entries, (∀ entry ∈ entries, P entry.2) → P (.map entries))
    (stray : ∀ value, P (.stray value)) : ∀ node, P node
  | .scalar s => scalar s
  | .list items => list items fun item hitem =>
    have := List.sizeOf_lt_of_mem hitem
    Node.nested scalar list map stray item
  | .map entries => map entries fun (key, value) hentry =>
    have := List.sizeOf_lt_of_mem hentry
    have := Prod.mk.sizeOf_spec key value
    Node.nested scalar list map stray value
  | .stray value => stray value
termination_by node => sizeOf node
decreasing_by all_goals simp only [Node.list.sizeOf_spec, Node.map.sizeOf_spec]; omega

mutual

/-- The scalars of a tree are values of documents, and no value is in the place of a node. -/
def Node.Writable : Node → Prop
  | .scalar s => s.IsValue
  | .list items => itemsWritable items
  | .map body => valuesWritable body
  | .stray _ => False

def itemsWritable : List Node → Prop
  | [] => True
  | item :: rest => item.Writable ∧ itemsWritable rest

def valuesWritable : Body → Prop
  | [] => True
  | (_, value) :: rest => value.Writable ∧ valuesWritable rest

end

theorem writable_list {items : List Node} :
    (Node.list items).Writable ↔ ∀ item ∈ items, item.Writable := by
  rw [Node.Writable]
  induction items with
  | nil => simp [itemsWritable]
  | cons item items ih => simp [itemsWritable, ih]

theorem writable_map {body : Body} :
    (Node.map body).Writable ↔ ∀ entry ∈ body, entry.2.Writable := by
  rw [Node.Writable]
  induction body with
  | nil => simp [valuesWritable]
  | cons entry body ih => simp [valuesWritable, ih]

theorem writable_of_value (node : Node) (h : node.Holds Scalar.IsValue) : node.Writable := by
  induction node using Node.nested with
  | scalar s => exact h
  | list items ih =>
    exact writable_list.mpr fun item hitem => ih item hitem ((itemsHold_iff items).mp h item hitem)
  | map body ih =>
    exact writable_map.mpr fun entry hentry =>
      ih entry hentry ((valuesHold_iff body).mp h.2 entry hentry)
  | stray value => exact h.elim

theorem writable_of_values {body : Body} (h : valuesHold Scalar.IsValue body) :
    ∀ entry ∈ body, entry.2.Writable := fun entry hentry =>
  writable_of_value entry.2 ((valuesHold_iff body).mp h entry hentry)

section Conversion

/-- No integer of the value has too many digits to be written. -/
def Raw.IsShort (raw : Raw) : Prop :=
  ∀ n, .int n ∈ raw.leaves → n.natAbs.repr.toList.length ≤ maxIntegerDigits

mutual

theorem writable_of_ofRaw : ∀ {raw : Raw} {node : Node}, raw.IsShort →
    Node.ofRaw raw = .ok node → node.Writable
  | .null, _, _, h => by
    cases h
    trivial
  | .bool _, _, _, h => by
    cases h
    trivial
  | .int n, _, hshort, h => by
    cases h
    exact hshort n (List.mem_singleton_self _)
  | .float x, _, _, h => by
    rw [Node.ofRaw] at h
    split_ifs at h with hfinite
    cases h
    exact hfinite
  | .text _, _, _, h => by
    cases h
    trivial
  | .other _, _, _, h => by cases h
  | .list items, _, hshort, h => by
    obtain ⟨nodes, hnodes, rfl⟩ := map_ok h
    exact writable_list.mpr (writable_of_ofRawList items hshort hnodes)
  | .tuple items, _, hshort, h => by
    obtain ⟨nodes, hnodes, rfl⟩ := map_ok h
    exact writable_list.mpr (writable_of_ofRawList items hshort hnodes)
  | .map entries, _, hshort, h => by
    obtain ⟨nodes, hnodes, rfl⟩ := map_ok h
    exact writable_map.mpr (writable_of_ofRawEntries entries hshort hnodes)

theorem writable_of_ofRawList : ∀ (items : List Raw) {nodes : List Node},
    (Raw.list items).IsShort → Node.ofRawList items = .ok nodes → ∀ node ∈ nodes, node.Writable
  | [], _, _, h => by
    cases h
    exact List.forall_mem_nil _
  | item :: items, _, hshort, h => by
    obtain ⟨node, hnode, h⟩ := bind_ok h
    obtain ⟨nodes, hnodes, h⟩ := bind_ok h
    cases h
    have hitem : item.IsShort := fun n hn => hshort n (List.mem_append_left _ hn)
    have hitems : (Raw.list items).IsShort := fun n hn => hshort n (List.mem_append_right _ hn)
    exact List.forall_mem_cons.mpr
      ⟨writable_of_ofRaw hitem hnode, writable_of_ofRawList items hitems hnodes⟩

theorem writable_of_ofRawEntries : ∀ (entries : List (String × Raw)) {nodes : Body},
    (Raw.map entries).IsShort → Node.ofRawEntries entries = .ok nodes →
    ∀ entry ∈ nodes, entry.2.Writable
  | [], _, _, h => by
    cases h
    exact List.forall_mem_nil _
  | (key, value) :: entries, _, hshort, h => by
    obtain ⟨node, hnode, h⟩ := bind_ok h
    obtain ⟨nodes, hnodes, h⟩ := bind_ok h
    cases h
    have hvalue : value.IsShort := fun n hn => hshort n (List.mem_append_left _ hn)
    have hentries : (Raw.map entries).IsShort := fun n hn => hshort n (List.mem_append_right _ hn)
    exact List.forall_mem_cons.mpr
      ⟨writable_of_ofRaw hvalue hnode, writable_of_ofRawEntries entries hentries hnodes⟩

end

end Conversion

section Texts

theorem exists_collect {α β : Type} : ∀ {rows : List (α × Except UnsupportedValue β)},
    (∀ row ∈ rows, ∃ b, row.2 = .ok b) → ∃ parts, Node.collect rows = .ok parts
  | [], _ => ⟨[], rfl⟩
  | (a, result) :: rows, h => by
    obtain ⟨⟨b, hb⟩, hrows⟩ := List.forall_mem_cons.mp h
    obtain ⟨parts, hparts⟩ := exists_collect hrows
    cases hb
    exact ⟨(a, b) :: parts, by rw [Node.collect, hparts]; rfl⟩

theorem exists_canonicalList : ∀ {items : List Node},
    (∀ item ∈ items, ∃ text, item.canonicalChars = .ok text) →
    ∃ parts, Node.canonicalList items = .ok parts
  | [], _ => ⟨[], rfl⟩
  | item :: items, h => by
    obtain ⟨⟨text, htext⟩, hitems⟩ := List.forall_mem_cons.mp h
    obtain ⟨parts, hparts⟩ := exists_canonicalList hitems
    exact ⟨text :: parts, by rw [Node.canonicalList, htext, hparts]; rfl⟩

theorem canonicalEntries_eq (entries : List (String × Node)) :
    Node.canonicalEntries entries = entries.map (Prod.map id Node.canonicalChars) := by
  induction entries with
  | nil => rfl
  | cons entry entries ih => rw [Node.canonicalEntries, ih, List.map_cons]; rfl

theorem exists_canonicalChars (node : Node) (h : node.Writable) :
    ∃ text, node.canonicalChars = .ok text := by
  induction node using Node.nested with
  | scalar s =>
    obtain ⟨text, htext, -⟩ := isReadIn_scalar h (readsBack_of_isValue s h)
    exact ⟨text, htext⟩
  | list items ih =>
    obtain ⟨parts, hparts⟩ := exists_canonicalList fun item hitem =>
      ih item hitem (writable_list.mp h item hitem)
    exact ⟨_, by rw [Node.canonicalChars, hparts]; rfl⟩
  | map body ih =>
    -- the rows have texts in the order of the tree, and so they have in the order of their keys
    obtain ⟨parts, hparts⟩ : ∃ parts, Node.collect (sortEntries (Node.canonicalEntries body))
        = .ok parts := by
      refine exists_collect fun row hrow => ?_
      rw [canonicalEntries_eq] at hrow
      obtain ⟨entry, hentry, rfl⟩ := List.mem_map.mp (mem_sortEntries.mp hrow)
      exact ih entry hentry (writable_map.mp h entry hentry)
    exact ⟨_, by rw [Node.canonicalChars, hparts]; rfl⟩
  | stray value => exact h.elim

theorem exists_toRawList_of : ∀ {items : List Node}, (∀ item ∈ items, ∃ raw, item.toRaw = .ok raw) →
    ∃ raws, Node.toRawList items = .ok raws
  | [], _ => ⟨[], rfl⟩
  | item :: items, h => by
    obtain ⟨⟨raw, hraw⟩, hitems⟩ := List.forall_mem_cons.mp h
    obtain ⟨raws, hraws⟩ := exists_toRawList_of hitems
    exact ⟨raw :: raws, by rw [Node.toRawList, hraw, hraws]; rfl⟩

theorem exists_toRawEntries_of : ∀ {body : Body}, (∀ entry ∈ body, ∃ raw, entry.2.toRaw = .ok raw) →
    ∃ raws, Node.toRawEntries body = .ok raws
  | [], _ => ⟨[], rfl⟩
  | (key, node) :: body, h => by
    obtain ⟨⟨raw, hraw⟩, hbody⟩ := List.forall_mem_cons.mp h
    obtain ⟨raws, hraws⟩ := exists_toRawEntries_of hbody
    exact ⟨(key, raw) :: raws, by rw [Node.toRawEntries, hraw, hraws]; rfl⟩

theorem toRawList_mem : ∀ {items : List Node} {raws : List Raw},
    Node.toRawList items = .ok raws → ∀ item ∈ items, ∃ raw, item.toRaw = .ok raw
  | [], _, _ => List.forall_mem_nil _
  | _ :: _, _, h => by
    obtain ⟨raw, hraw, h⟩ := bind_ok h
    obtain ⟨_, hraws, -⟩ := bind_ok h
    exact List.forall_mem_cons.mpr ⟨⟨raw, hraw⟩, toRawList_mem hraws⟩

theorem toRawEntries_mem : ∀ {body : Body} {raws : List (String × Raw)},
    Node.toRawEntries body = .ok raws → ∀ entry ∈ body, ∃ raw, entry.2.toRaw = .ok raw
  | [], _, _ => List.forall_mem_nil _
  | (_, _) :: _, _, h => by
    obtain ⟨raw, hraw, h⟩ := bind_ok h
    obtain ⟨_, hraws, -⟩ := bind_ok h
    exact List.forall_mem_cons.mpr ⟨⟨raw, hraw⟩, toRawEntries_mem hraws⟩

theorem toRaw_list {items : List Node} :
    (∃ raw, (Node.list items).toRaw = .ok raw) ↔ ∀ item ∈ items, ∃ raw, item.toRaw = .ok raw := by
  constructor
  · rintro ⟨_, h⟩
    obtain ⟨_, hraws, -⟩ := map_ok h
    exact toRawList_mem hraws
  · intro h
    obtain ⟨raws, hraws⟩ := exists_toRawList_of h
    exact ⟨.list raws, by rw [Node.toRaw, hraws]; rfl⟩

theorem toRaw_map {body : Body} :
    (∃ raw, (Node.map body).toRaw = .ok raw) ↔
      ∀ entry ∈ body, ∃ raw, entry.2.toRaw = .ok raw := by
  constructor
  · rintro ⟨_, h⟩
    obtain ⟨_, hraws, -⟩ := map_ok h
    exact toRawEntries_mem hraws
  · intro h
    obtain ⟨raws, hraws⟩ := exists_toRawEntries_of h
    exact ⟨.map raws, by rw [Node.toRaw, hraws]; rfl⟩

end Texts

section Shown

mutual

/-- The value of a tree that can be written can be shown. -/
theorem exists_display : ∀ {node : Node} {raw : Raw}, node.Writable → node.toRaw = .ok raw →
    ∃ text, raw.display? = some text
  | .scalar s, _, h, hraw => by
    cases hraw
    cases s with
    | int n => exact ⟨_, if_pos h⟩
    | foreign value => exact h.elim
    | _ => exact ⟨_, rfl⟩
  | .list items, _, h, hraw => by
    obtain ⟨raws, hraws, rfl⟩ := map_ok hraw
    obtain ⟨parts, hparts⟩ := exists_displayList items (writable_list.mp h) hraws
    exact ⟨Display.list parts, by rw [Raw.display?, hparts]; rfl⟩
  | .map body, _, h, hraw => by
    obtain ⟨raws, hraws, rfl⟩ := map_ok hraw
    obtain ⟨parts, hparts⟩ := exists_displayEntries body (writable_map.mp h) hraws
    exact ⟨Display.map parts, by rw [Raw.display?, hparts]; rfl⟩
  | .stray _, _, h, _ => h.elim

theorem exists_displayList : ∀ (items : List Node) {raws : List Raw},
    (∀ item ∈ items, item.Writable) → Node.toRawList items = .ok raws →
    ∃ parts, Raw.displayList? raws = some parts
  | [], _, _, hraws => by
    cases hraws
    exact ⟨[], rfl⟩
  | item :: items, _, h, hraws => by
    obtain ⟨hitem, hitems⟩ := List.forall_mem_cons.mp h
    obtain ⟨raw, hraw, hraws⟩ := bind_ok hraws
    obtain ⟨rest, hrest, hraws⟩ := bind_ok hraws
    cases hraws
    obtain ⟨part, hpart⟩ := exists_display hitem hraw
    obtain ⟨parts, hparts⟩ := exists_displayList items hitems hrest
    exact ⟨part :: parts, by rw [Raw.displayList?, hpart, hparts]; rfl⟩

theorem exists_displayEntries : ∀ (body : Body) {raws : List (String × Raw)},
    (∀ entry ∈ body, entry.2.Writable) → Node.toRawEntries body = .ok raws →
    ∃ parts, Raw.displayEntries? raws = some parts
  | [], _, _, hraws => by
    cases hraws
    exact ⟨[], rfl⟩
  | (key, node) :: body, _, h, hraws => by
    obtain ⟨hnode, hbody⟩ := List.forall_mem_cons.mp h
    obtain ⟨raw, hraw, hraws⟩ := bind_ok hraws
    obtain ⟨rest, hrest, hraws⟩ := bind_ok hraws
    cases hraws
    obtain ⟨part, hpart⟩ := exists_display hnode hraw
    obtain ⟨parts, hparts⟩ := exists_displayEntries body hbody hrest
    exact ⟨(Text.display key.toList, part) :: parts, by
      rw [Raw.displayEntries?, hpart, hparts]; rfl⟩

end

end Shown

namespace Node.Writable

variable {node : Node} (h : node.Writable)
include h

theorem exists_canonical : ∃ text, node.canonical = .ok text := by
  obtain ⟨text, htext⟩ := exists_canonicalChars node h
  exact ⟨String.ofList text, by rw [canonical, htext]; rfl⟩

theorem exists_plainText : ∃ text, node.plainText = .ok text := by
  unfold plainText
  cases node.text? with
  | some s => exact ⟨s, rfl⟩
  | none => exact h.exists_canonical

theorem exists_toRaw : ∃ raw, node.toRaw = .ok raw := by
  induction node using Node.nested with
  | scalar s => exact ⟨s.toRaw, rfl⟩
  | list items ih =>
    exact toRaw_list.mpr fun item hitem => ih item hitem (writable_list.mp h item hitem)
  | map body ih =>
    exact toRaw_map.mpr fun entry hentry => ih entry hentry (writable_map.mp h entry hentry)
  | stray value => exact h.elim

/-- The items of the tree, if it is a list, can be written too. -/
theorem of_mem_items : ∀ item ∈ node.items, item.Writable := by
  cases node with
  | list items => exact writable_list.mp h
  | _ => exact List.forall_mem_nil _

/-- The entries of the tree, if it is a map, have values. -/
theorem exists_toRawEntries : ∃ raws, toRawEntries (node.map?.getD []) = .ok raws := by
  cases node with
  | map entries =>
    obtain ⟨raw, hraw⟩ := h.exists_toRaw
    obtain ⟨raws, hraws, -⟩ := map_ok hraw
    exact ⟨raws, hraws⟩
  | _ => exact ⟨[], rfl⟩

end Node.Writable

/-- A part of a tree: the tree, an item of a list or a value of a map that is a part, or a part
without its reserved keys. -/
inductive Node.HasPart (tree : Node) : Node → Prop
  | whole : HasPart tree tree
  | item {items : List Node} {node : Node} (hlist : HasPart tree (.list items))
    (hitem : node ∈ items) : HasPart tree node
  | value {body : Body} {key : String} {node : Node} (hmap : HasPart tree (.map body))
    (hentry : (key, node) ∈ body) : HasPart tree node
  | sanitized {node : Node} (hnode : HasPart tree node) : HasPart tree node.sanitize

section Parts

theorem mem_sanitizeList : ∀ {nodes : List Node} {node : Node}, node ∈ Node.sanitizeList nodes →
    ∃ item ∈ nodes, item.sanitize = node
  | item :: _, _, h => by
    rcases List.mem_cons.mp h with rfl | h
    · exact ⟨item, List.mem_cons_self .., rfl⟩
    · obtain ⟨other, hother, hnode⟩ := mem_sanitizeList h
      exact ⟨other, List.mem_cons_of_mem _ hother, hnode⟩

theorem mem_sanitizeEntries : ∀ {body : Body} {entry : String × Node},
    entry ∈ Node.sanitizeEntries body → ∃ other ∈ body, (other.1, other.2.sanitize) = entry
  | (key, node) :: _, _, h => by
    rw [Node.sanitizeEntries] at h
    split_ifs at h
    · obtain ⟨other, hother, hentry⟩ := mem_sanitizeEntries h
      exact ⟨other, List.mem_cons_of_mem _ hother, hentry⟩
    · rcases List.mem_cons.mp h with rfl | h
      · exact ⟨(key, node), List.mem_cons_self .., rfl⟩
      · obtain ⟨other, hother, hentry⟩ := mem_sanitizeEntries h
        exact ⟨other, List.mem_cons_of_mem _ hother, hentry⟩

theorem sanitize_writable (node : Node) (h : node.Writable) : node.sanitize.Writable := by
  induction node using Node.nested with
  | scalar s => exact h
  | list items ih =>
    refine writable_list.mpr fun node hnode => ?_
    obtain ⟨item, hitem, rfl⟩ := mem_sanitizeList hnode
    exact ih item hitem (writable_list.mp h item hitem)
  | map body ih =>
    refine writable_map.mpr fun entry hentry => ?_
    obtain ⟨other, hother, rfl⟩ := mem_sanitizeEntries hentry
    exact ih other hother (writable_map.mp h other hother)
  | stray value => exact h

theorem sanitize_toRaw (node : Node) (h : ∃ raw, node.toRaw = .ok raw) :
    ∃ raw, node.sanitize.toRaw = .ok raw := by
  induction node using Node.nested with
  | scalar s => exact h
  | list items ih =>
    refine toRaw_list.mpr fun node hnode => ?_
    obtain ⟨item, hitem, rfl⟩ := mem_sanitizeList hnode
    exact ih item hitem (toRaw_list.mp h item hitem)
  | map body ih =>
    refine toRaw_map.mpr fun entry hentry => ?_
    obtain ⟨other, hother, rfl⟩ := mem_sanitizeEntries hentry
    exact ih other hother (toRaw_map.mp h other hother)
  | stray value => exact h

namespace Node.HasPart

variable {tree node : Node} (h : tree.HasPart node)
include h

/-- The parts of a tree that can be written can be written. -/
theorem writable (htree : tree.Writable) : node.Writable := by
  induction h with
  | whole => exact htree
  | item _ hitem ih => exact writable_list.mp ih _ hitem
  | value _ hentry ih => exact writable_map.mp ih _ hentry
  | sanitized _ ih => exact sanitize_writable _ ih

/-- The parts of a tree that has a value have values, however long the integers in them. -/
theorem exists_toRaw (htree : ∃ raw, tree.toRaw = .ok raw) : ∃ raw, node.toRaw = .ok raw := by
  induction h with
  | whole => exact htree
  | item _ hitem ih => exact toRaw_list.mp ih _ hitem
  | value _ hentry ih => exact toRaw_map.mp ih _ hentry
  | sanitized _ ih => exact sanitize_toRaw _ ih

end Node.HasPart

end Parts

end TerraIndex
