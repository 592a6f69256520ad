import TerraIndex.Document.Conversion
import TerraIndex.Entity.Export
import TerraIndex.Proofs.Json.Layout
import TerraIndex.Proofs.Json.ReadBack
import Mathlib.Data.List.Forall2
/-!
# Documents as bodies

`Raw.read` is the node that the decoder and the conversion make of a document. It has the shape of
the document: what stands under a key of a body is read from the value under that key
(`child?_body`), and so are the strings (`textAt_text`) and the maps of a list (`maps_read`).
-/

namespace TerraIndex

/-- The node that is read from the text of a document. -/
def Raw.read (v : Raw) : Except UnsupportedValue Node := Node.ofRaw v.readBack

/-- The body that is read from the text of a document, if that holds a map. -/
def Raw.body? (v : Raw) : Option Body :=
  match v.read with
  | .ok node => node.map?
  | .error _ => none

theorem bind_ok {ε α β : Type} {x : Except ε α} {f : α → Except ε β} {b : β}
    (h : x >>= f = .ok b) : ∃ a, x = .ok a ∧ f a = .ok b := by
  cases x with
  | error => simp [bind, Except.bind] at h
  | ok a => exact ⟨a, rfl, h⟩

theorem map_ok {ε α β : Type} {x : Except ε α} {f : α → β} {b : β} (h : f <$> x = .ok b) :
    ∃ a, x = .ok a ∧ f a = b := by
  cases x with
  | error => simp [Functor.map, Except.map] at h
  | ok a => exact ⟨a, rfl, Except.ok.inj h⟩

theorem mapError_ok {ε ε' α : Type} {x : Except ε α} {f : ε → ε'} {a : α}
    (h : x.mapError f = .ok a) : x = .ok a := by
  cases x with
  | error => cases h
  | ok b => exact congrArg _ (Except.ok.inj h)

/-- Two maps of one list are related item by item. -/
theorem forall₂_map_map {α β γ : Type} {R : β → γ → Prop} {f : α → β} {g : α → γ} {l : List α}
    (h : ∀ a ∈ l, R (f a) (g a)) : List.Forall₂ R (l.map f) (l.map g) := by
  rw [List.forall₂_map_left_iff, List.forall₂_map_right_iff]
  exact List.forall₂_same.mpr h

/-- What a list is related to is related to one of its items. -/
theorem forall₂_mem_right {α β : Type} {R : α → β → Prop} {l : List α} {m : List β}
    (h : List.Forall₂ R l m) {b : β} (hb : b ∈ m) : ∃ a ∈ l, R a b := by
  induction h with
  | nil => cases hb
  | cons hr _ ih =>
    rcases List.mem_cons.mp hb with rfl | hb
    · exact ⟨_, List.mem_cons_self .., hr⟩
    · obtain ⟨a, ha, hab⟩ := ih hb
      exact ⟨a, List.mem_cons_of_mem _ ha, hab⟩

section Conversion

theorem map_ofRawList {items : List Raw} {nodes : List Node}
    (h : Node.ofRawList items = .ok nodes) : items.map Node.ofRaw = nodes.map .ok := by
  induction items generalizing nodes with
  | nil =>
    rw [Node.ofRawList, Except.ok.injEq] at h
    rw [← h]
    rfl
  | cons item items ih =>
    rw [Node.ofRawList] at h
    obtain ⟨node, hnode, h⟩ := bind_ok h
    obtain ⟨rest, hrest, h⟩ := bind_ok h
    rw [← Except.ok.inj h, List.map_cons, List.map_cons, hnode, ih hrest]

theorem map_fst_ofRawEntries : ∀ {entries : List (String × Raw)} {nodes : List (String × Node)},
    Node.ofRawEntries entries = .ok nodes → nodes.map Prod.fst = entries.map Prod.fst
  | [], _, h => by
    rw [← Except.ok.inj h]
    rfl
  | (key, value) :: entries, _, h => by
    rw [Node.ofRawEntries] at h
    obtain ⟨_, -, h⟩ := bind_ok h
    obtain ⟨rest, hrest, h⟩ := bind_ok h
    rw [← Except.ok.inj h, List.map_cons, List.map_cons, map_fst_ofRawEntries hrest]

theorem entryAt?_ofRawEntries {entries : List (String × Raw)} {nodes : List (String × Node)}
    (h : Node.ofRawEntries entries = .ok nodes) (key : String) :
    (entryAt? entries key).map Node.ofRaw = (entryAt? nodes key).map .ok := by
  induction entries generalizing nodes with
  | nil =>
    rw [Node.ofRawEntries, Except.ok.injEq] at h
    rw [← h]
    rfl
  | cons entry entries ih =>
    obtain ⟨k, v⟩ := entry
    rw [Node.ofRawEntries] at h
    obtain ⟨node, hnode, h⟩ := bind_ok h
    obtain ⟨rest, hrest, h⟩ := bind_ok h
    rw [← Except.ok.inj h, entryAt?, entryAt?]
    split_ifs
    · rw [Option.map_some, Option.map_some, hnode]
    · exact ih hrest

theorem mem_ofRawEntries {key : String} {node : Node} : ∀ {entries : List (String × Raw)}
    {nodes : List (String × Node)}, Node.ofRawEntries entries = .ok nodes → (key, node) ∈ nodes →
    ∃ raw, (key, raw) ∈ entries ∧ Node.ofRaw raw = .ok node
  | [], _, h, hmem => by
    rw [← Except.ok.inj h] at hmem
    cases hmem
  | (other, raw) :: entries, _, h, hmem => by
    rw [Node.ofRawEntries] at h
    obtain ⟨first, hfirst, h⟩ := bind_ok h
    obtain ⟨rest, hrest, h⟩ := bind_ok h
    rw [← Except.ok.inj h] at hmem
    rcases List.mem_cons.mp hmem with heq | hmem
    · obtain ⟨rfl, rfl⟩ := Prod.mk.inj heq
      exact ⟨raw, List.mem_cons_self .., hfirst⟩
    · obtain ⟨raw, hraw, hnode⟩ := mem_ofRawEntries hrest hmem
      exact ⟨raw, List.mem_cons_of_mem _ hraw, hnode⟩

/-- Lists are read as lists, maps as maps and all else as scalars. -/
theorem read_cases {v : Raw} {node : Node} (hdoc : v.IsDocument) (h : v.read = .ok node) :
    (∃ items nodes, v = .list items ∧ node = .list nodes ∧ items.map Raw.read = nodes.map .ok)
      ∨ (∃ entries body, v = .map entries ∧ node = .map body
        ∧ Node.ofRawEntries (readBackEntries entries) = .ok body)
      ∨ (v.isNested = false ∧ ∃ s, node = .scalar s) := by
  unfold Raw.read at h
  cases v with
  | list items =>
    obtain ⟨nodes, hnodes, rfl⟩ := map_ok h
    have hread := map_ofRawList hnodes
    rw [readBackItems_eq, List.map_map] at hread
    exact .inl ⟨items, nodes, rfl, rfl, hread⟩
  | map entries =>
    obtain ⟨body, hbody, rfl⟩ := map_ok h
    exact .inr (.inl ⟨entries, body, rfl, rfl, hbody⟩)
  | float x =>
    obtain ⟨y, hy, -⟩ := floatText_readFloat x
    rw [Raw.readBack, hy, Node.ofRaw] at h
    split_ifs at h
    exact .inr (.inr ⟨rfl, _, (Except.ok.inj h).symm⟩)
  | tuple => exact hdoc.elim
  | other => exact hdoc.elim
  | _ => exact .inr (.inr ⟨rfl, _, (Except.ok.inj h).symm⟩)

end Conversion

section Bodies

theorem read_of_body? {v : Raw} {body : Body} (h : v.body? = some body) :
    v.read = .ok (.map body) := by
  unfold Raw.body? at h
  split at h
  · rename_i node hnode
    cases node with
    | map nodes => rw [hnode, Option.some.inj h]
    | _ => simp [Node.map?] at h
  · simp at h

/-- A value that is read as a body is a map. -/
theorem map_of_body? {v : Raw} {body : Body} (h : v.body? = some body) :
    ∃ entries, v = .map entries := by
  have hread := read_of_body? h
  unfold Raw.read at hread
  cases v with
  | map entries => exact ⟨entries, rfl⟩
  | float x =>
    obtain ⟨y, hy, -⟩ := floatText_readFloat x
    rw [Raw.readBack, hy, Node.ofRaw] at hread
    split_ifs at hread
    simp at hread
  | list items =>
    obtain ⟨nodes, -, hlist⟩ := map_ok hread
    simp at hlist
  | tuple items =>
    obtain ⟨nodes, -, hlist⟩ := map_ok hread
    simp at hlist
  | _ => simp [Raw.readBack, Node.ofRaw] at hread

section Body

variable {entries : List (String × Raw)} {body : Body}
  (h : (Raw.map entries).body? = some body)
include h

/-- What stands under a key of a body is read from the value under that key. -/
theorem child?_body (key : String) :
    (entryAt? entries key).map Raw.read = (body.child? key).map .ok := by
  have hread : Node.map <$> Node.ofRawEntries (readBackEntries entries) = .ok (.map body) :=
    read_of_body? h
  obtain ⟨nodes, hnodes, hmap⟩ := map_ok hread
  have hentries := entryAt?_ofRawEntries hnodes key
  rw [entryAt?_readBackEntries, Option.map_map, Node.map.inj hmap] at hentries
  exact hentries

theorem child?_none {key : String} (hkey : entryAt? entries key = none) :
    body.child? key = none := by
  have hchild := child?_body h key
  rw [hkey] at hchild
  exact Option.map_eq_none_iff.mp hchild.symm

theorem child?_some {key : String} {v : Raw} (hkey : entryAt? entries key = some v) :
    ∃ node, body.child? key = some node ∧ v.read = .ok node := by
  have hchild := child?_body h key
  rw [hkey, Option.map_some] at hchild
  obtain ⟨node, hnode, hread⟩ := Option.map_eq_some_iff.mp hchild.symm
  exact ⟨node, hnode, hread.symm⟩

theorem textAt_none {key : String} (default : String) (hkey : entryAt? entries key = none) :
    body.textAt key default = default := by
  rw [Body.textAt, child?_none h hkey]
  rfl

theorem textAt_text {key s : String} (default : String)
    (hkey : entryAt? entries key = some (.text s)) : body.textAt key default = s := by
  obtain ⟨node, hnode, hread⟩ := child?_some h hkey
  have hscalar : Except.ok (.scalar (.text s)) = Except.ok node := hread
  rw [Body.textAt, hnode, ← Except.ok.inj hscalar]
  rfl

end Body

theorem present?_some {body : Body} {key : String} {node : Node}
    (h : body.present? key = some node) : body.child? key = some node := by
  unfold Body.present? at h
  split at h
  · rename_i other hother
    split_ifs at h
    rw [hother, ← h]
  · cases h

theorem body?_map {entries : List (String × Raw)} {body : Body}
    (h : Node.ofRawEntries (readBackEntries entries) = .ok body) :
    (Raw.map entries).body? = some body := by
  rw [Raw.body?, Raw.read, Raw.readBack, Node.ofRaw, h]
  rfl

end Bodies

theorem filterMap_map? {items : List Raw} {nodes : List Node}
    (h : items.map Raw.read = nodes.map .ok) :
    nodes.filterMap Node.map? = items.filterMap Raw.body? := by
  induction items generalizing nodes with
  | nil =>
    rw [List.map_eq_nil_iff.mp h.symm]
    rfl
  | cons item items ih =>
    cases nodes with
    | nil => simp at h
    | cons node nodes =>
      rw [List.map_cons, List.map_cons, List.cons.injEq] at h
      have hitem : item.body? = node.map? := by
        rw [Raw.body?, h.1]
      rw [List.filterMap_cons, List.filterMap_cons, hitem, ih h.2]

/-- The maps that are read from a value, if it is a list. -/
def Raw.bodies (v : Raw) : List Body :=
  match v with
  | .list items => items.filterMap Raw.body?
  | _ => []

theorem maps_read {v : Raw} {node : Node} (hdoc : v.IsDocument) (h : v.read = .ok node) :
    Plan.maps (some node) = v.bodies := by
  rcases read_cases hdoc h with ⟨items, nodes, rfl, rfl, hread⟩ | ⟨_, _, rfl, rfl, _⟩ |
    ⟨hleaf, _, rfl⟩
  · exact filterMap_map? hread
  · rfl
  · cases v <;> first | rfl | simp [Raw.isNested] at hleaf

end TerraIndex
