import TerraIndex.Proofs.Document.Canonical
/-!
# Which values are documents

A value becomes a document exactly when all its leaves can stand in one; otherwise the first leaf
that cannot, depth first and from left to right, is the one that the error names. Nothing is lost
on the way: the document turns back into the value, with its tuples read as lists, and that into
the same document (`ofRaw_leaves`).
-/

namespace TerraIndex

section Leaves

mutual

/-- The leaves of a value, depth first and from left to right. -/
def Raw.leaves : Raw → List Raw
  | .list items => itemsLeaves items
  | .tuple items => itemsLeaves items
  | .map entries => entriesLeaves entries
  | leaf => [leaf]

def itemsLeaves : List Raw → List Raw
  | [] => []
  | item :: rest => item.leaves ++ itemsLeaves rest

def entriesLeaves : List (String × Raw) → List Raw
  | [] => []
  | (_, value) :: rest => value.leaves ++ entriesLeaves rest

end

mutual

/-- The value with its tuples read as lists. -/
def Raw.untupled : Raw → Raw
  | .list items => .list (untupledItems items)
  | .tuple items => .list (untupledItems items)
  | .map entries => .map (untupledEntries entries)
  | leaf => leaf

def untupledItems : List Raw → List Raw
  | [] => []
  | item :: rest => item.untupled :: untupledItems rest

def untupledEntries : List (String × Raw) → List (String × Raw)
  | [] => []
  | (key, value) :: rest => (key, value.untupled) :: untupledEntries rest

end

namespace Raw

/-- The leaf can stand in a document. -/
def isPlain : Raw → Bool
  | null => true
  | bool _ => true
  | int _ => true
  | float x => x.isFinite
  | text _ => true
  | _ => false

/-- What a leaf that cannot stand in a document is called in the error. -/
def refusedName : Raw → String
  | float _ => "non-finite float"
  | leaf => leaf.typeName

/-- The error that the first leaf makes that cannot stand in a document. -/
def refusal? (leaves : List Raw) : Option UnsupportedValue :=
  (leaves.find? fun leaf => !leaf.isPlain).map fun leaf => ⟨leaf.refusedName⟩

theorem refusal?_append (leaves more : List Raw) :
    refusal? (leaves ++ more) = (refusal? leaves).or (refusal? more) := by
  simp only [refusal?, List.find?_append, Option.map_or]

end Raw

/-- A scalar that a value can become. -/
def Scalar.IsPlain : Scalar → Prop
  | .float x => x.isFinite = true
  | .foreign _ => False
  | _ => True

end Leaves

section Refusals

def refusalOf {ε α : Type} : Except ε α → Option ε
  | .ok _ => none
  | .error e => some e

section Refusals

variable {ε α β γ : Type}

theorem refusalOf_map (f : α → β) (x : Except ε α) : refusalOf (f <$> x) = refusalOf x := by
  cases x <;> rfl

/-- Of two results needed, the first refusal counts. -/
theorem refusalOf_pair (f : α → β → γ) (x : Except ε α) (y : Except ε β) :
    refusalOf (x >>= fun a => y >>= fun b => pure (f a b)) = (refusalOf x).or (refusalOf y) := by
  cases x <;> cases y <;> rfl

end Refusals

mutual

theorem refusalOf_ofRaw : ∀ raw : Raw, refusalOf (Node.ofRaw raw) = Raw.refusal? raw.leaves
  | .null => rfl
  | .bool _ => rfl
  | .int _ => rfl
  | .text _ => rfl
  | .other _ => rfl
  | .float x => by
    rw [Node.ofRaw]
    cases hx : x.isFinite <;>
      simp [Raw.leaves, Raw.refusal?, Raw.isPlain, Raw.refusedName, refusalOf, hx]
  | .list items => (refusalOf_map Node.list _).trans (refusalOf_ofRawList items)
  | .tuple items => (refusalOf_map Node.list _).trans (refusalOf_ofRawList items)
  | .map entries => (refusalOf_map Node.map _).trans (refusalOf_ofRawEntries entries)

theorem refusalOf_ofRawList : ∀ items : List Raw,
    refusalOf (Node.ofRawList items) = Raw.refusal? (itemsLeaves items)
  | [] => rfl
  | item :: items => by
    rw [Node.ofRawList, itemsLeaves, Raw.refusal?_append, ← refusalOf_ofRaw item,
      ← refusalOf_ofRawList items]
    exact refusalOf_pair List.cons _ _

theorem refusalOf_ofRawEntries : ∀ entries : List (String × Raw),
    refusalOf (Node.ofRawEntries entries) = Raw.refusal? (entriesLeaves entries)
  | [] => rfl
  | (key, value) :: entries => by
    rw [Node.ofRawEntries, entriesLeaves, Raw.refusal?_append, ← refusalOf_ofRaw value,
      ← refusalOf_ofRawEntries entries]
    exact refusalOf_pair (fun node nodes => (key, node) :: nodes) _ _

end

theorem ofRaw_ok_iff {raw : Raw} :
    (∃ node, Node.ofRaw raw = .ok node) ↔ ∀ leaf ∈ raw.leaves, leaf.isPlain = true := by
  have hrefusal := refusalOf_ofRaw raw
  have hplain : Raw.refusal? raw.leaves = none ↔ ∀ leaf ∈ raw.leaves, leaf.isPlain = true := by
    simp [Raw.refusal?]
  rw [← hplain, ← hrefusal]
  cases Node.ofRaw raw <;> simp [refusalOf]

theorem ofRaw_refused {raw leaf : Raw}
    (h : raw.leaves.find? (fun leaf => !leaf.isPlain) = some leaf) :
    Node.ofRaw raw = .error ⟨leaf.refusedName⟩ := by
  have hrefusal := refusalOf_ofRaw raw
  rw [Raw.refusal?, h] at hrefusal
  cases hraw : Node.ofRaw raw with
  | ok node => simp [hraw, refusalOf] at hrefusal
  | error e => simpa [hraw, refusalOf] using hrefusal

end Refusals

section ThereAndBack

mutual

theorem toRaw_ofRaw : ∀ {raw : Raw} {node : Node}, Node.ofRaw raw = .ok node →
    node.toRaw = .ok raw.untupled
  | .null, _, h => by
    cases h
    rfl
  | .bool _, _, h => by
    cases h
    rfl
  | .int _, _, h => by
    cases h
    rfl
  | .float x, _, h => by
    rw [Node.ofRaw] at h
    split_ifs at h
    cases h
    rfl
  | .text _, _, h => by
    cases h
    rfl
  | .other _, _, h => by cases h
  | .list items, _, h => by
    obtain ⟨nodes, hnodes, rfl⟩ := map_ok h
    rw [Node.toRaw, toRawList_ofRawList items hnodes]
    rfl
  | .tuple items, _, h => by
    obtain ⟨nodes, hnodes, rfl⟩ := map_ok h
    rw [Node.toRaw, toRawList_ofRawList items hnodes]
    rfl
  | .map entries, _, h => by
    obtain ⟨nodes, hnodes, rfl⟩ := map_ok h
    rw [Node.toRaw, toRawEntries_ofRawEntries entries hnodes]
    rfl

theorem toRawList_ofRawList : ∀ (items : List Raw) {nodes : List Node},
    Node.ofRawList items = .ok nodes → Node.toRawList nodes = .ok (untupledItems items)
  | [], _, h => by
    cases h
    rfl
  | item :: items, _, h => by
    obtain ⟨node, hnode, h⟩ := bind_ok h
    obtain ⟨nodes, hnodes, h⟩ := bind_ok h
    cases h
    rw [Node.toRawList, toRaw_ofRaw hnode, toRawList_ofRawList items hnodes]
    rfl

theorem toRawEntries_ofRawEntries : ∀ (entries : List (String × Raw)) {nodes : Body},
    Node.ofRawEntries entries = .ok nodes →
    Node.toRawEntries nodes = .ok (untupledEntries entries)
  | [], _, h => by
    cases h
    rfl
  | (key, value) :: entries, _, h => by
    obtain ⟨node, hnode, h⟩ := bind_ok h
    obtain ⟨nodes, hnodes, h⟩ := bind_ok h
    cases h
    rw [Node.toRawEntries, toRaw_ofRaw hnode, toRawEntries_ofRawEntries entries hnodes]
    rfl

end

mutual

/-- It makes no difference whether a list is a tuple. -/
theorem ofRaw_untupled : ∀ raw : Raw, Node.ofRaw raw.untupled = Node.ofRaw raw
  | .null => rfl
  | .bool _ => rfl
  | .int _ => rfl
  | .float _ => rfl
  | .text _ => rfl
  | .other _ => rfl
  | .list items => congrArg (Node.list <$> ·) (ofRawList_untupled items)
  | .tuple items => congrArg (Node.list <$> ·) (ofRawList_untupled items)
  | .map entries => congrArg (Node.map <$> ·) (ofRawEntries_untupled entries)

theorem ofRawList_untupled : ∀ items : List Raw,
    Node.ofRawList (untupledItems items) = Node.ofRawList items
  | [] => rfl
  | item :: items => by
    rw [untupledItems, Node.ofRawList, Node.ofRawList, ofRaw_untupled item,
      ofRawList_untupled items]

theorem ofRawEntries_untupled : ∀ entries : List (String × Raw),
    Node.ofRawEntries (untupledEntries entries) = Node.ofRawEntries entries
  | [] => rfl
  | (key, value) :: entries => by
    rw [untupledEntries, Node.ofRawEntries, Node.ofRawEntries, ofRaw_untupled value,
      ofRawEntries_untupled entries]

end

section Values

variable {P : Scalar → Prop}

mutual

/-- A tree in which no value is in the place of a node has a value. -/
theorem exists_toRaw : ∀ {node : Node}, node.Holds P → ∃ raw, node.toRaw = .ok raw
  | .scalar s, _ => ⟨s.toRaw, rfl⟩
  | .list items, h => by
    obtain ⟨raws, hraws⟩ := exists_toRawList items h
    exact ⟨.list raws, by rw [Node.toRaw, hraws]; rfl⟩
  | .map entries, h => by
    obtain ⟨raws, hraws⟩ := exists_toRawEntries entries h.2
    exact ⟨.map raws, by rw [Node.toRaw, hraws]; rfl⟩
  | .stray _, h => h.elim

theorem exists_toRawList : ∀ (items : List Node), itemsHold P items →
    ∃ raws, Node.toRawList items = .ok raws
  | [], _ => ⟨[], rfl⟩
  | item :: items, h => by
    obtain ⟨raw, hraw⟩ := exists_toRaw h.1
    obtain ⟨raws, hraws⟩ := exists_toRawList items h.2
    exact ⟨raw :: raws, by rw [Node.toRawList, hraw, hraws]; rfl⟩

theorem exists_toRawEntries : ∀ (body : Body), valuesHold P body →
    ∃ raws, Node.toRawEntries body = .ok raws
  | [], _ => ⟨[], rfl⟩
  | (key, node) :: body, h => by
    obtain ⟨raw, hraw⟩ := exists_toRaw h.1
    obtain ⟨raws, hraws⟩ := exists_toRawEntries body h.2
    exact ⟨(key, raw) :: raws, by rw [Node.toRawEntries, hraw, hraws]; rfl⟩

end

end Values

mutual

/-- A document without foreign values is the one that is made of its value. -/
theorem ofRaw_toRaw : ∀ {node : Node} {raw : Raw}, node.Holds Scalar.IsPlain →
    node.toRaw = .ok raw → Node.ofRaw raw = .ok node
  | .scalar s, _, h, hraw => by
    cases hraw
    cases s with
    | float x => exact if_pos h
    | foreign value => exact h.elim
    | _ => rfl
  | .list items, _, h, hraw => by
    obtain ⟨raws, hraws, rfl⟩ := map_ok hraw
    rw [Node.ofRaw, ofRawList_toRawList items h hraws]
    rfl
  | .map entries, _, h, hraw => by
    obtain ⟨raws, hraws, rfl⟩ := map_ok hraw
    rw [Node.ofRaw, ofRawEntries_toRawEntries entries h.2 hraws]
    rfl
  | .stray _, _, h, _ => h.elim

theorem ofRawList_toRawList : ∀ (items : List Node) {raws : List Raw},
    itemsHold Scalar.IsPlain items → Node.toRawList items = .ok raws →
    Node.ofRawList raws = .ok items
  | [], _, _, hraws => by
    cases hraws
    rfl
  | item :: items, _, h, hraws => by
    obtain ⟨raw, hraw, hraws⟩ := bind_ok hraws
    obtain ⟨rest, hrest, hraws⟩ := bind_ok hraws
    cases hraws
    rw [Node.ofRawList, ofRaw_toRaw h.1 hraw, ofRawList_toRawList items h.2 hrest]
    rfl

theorem ofRawEntries_toRawEntries : ∀ (body : Body) {raws : List (String × Raw)},
    valuesHold Scalar.IsPlain body → Node.toRawEntries body = .ok raws →
    Node.ofRawEntries raws = .ok body
  | [], _, _, hraws => by
    cases hraws
    rfl
  | (key, node) :: body, _, h, hraws => by
    obtain ⟨raw, hraw, hraws⟩ := bind_ok hraws
    obtain ⟨rest, hrest, hraws⟩ := bind_ok hraws
    cases hraws
    rw [Node.ofRawEntries, ofRaw_toRaw h.1 hraw, ofRawEntries_toRawEntries body h.2 hrest]
    rfl

end

/-- A value becomes a document if and only if all its leaves can stand in one, and the first one
that cannot is named by the error. The document turns back into the value, with tuples read as
lists and the keys of every map in their order, and that into the document, as every document
without foreign values does. -/
theorem ofRaw_leaves (raw : Raw) :
    ((∃ node, Node.ofRaw raw = .ok node) ↔ ∀ leaf ∈ raw.leaves, leaf.isPlain = true)
    ∧ (∀ leaf, raw.leaves.find? (fun leaf => !leaf.isPlain) = some leaf →
      Node.ofRaw raw = .error ⟨leaf.refusedName⟩)
    ∧ (∀ node, Node.ofRaw raw = .ok node →
      node.toRaw = .ok raw.untupled ∧ Node.ofRaw raw.untupled = .ok node)
    ∧ ∀ node : Node, node.Holds Scalar.IsPlain →
      ∃ back, node.toRaw = .ok back ∧ Node.ofRaw back = .ok node := by
  refine ⟨ofRaw_ok_iff, fun _ hleaf => ofRaw_refused hleaf, fun node hnode => ?_,
    fun node hnode => ?_⟩
  · exact ⟨toRaw_ofRaw hnode, (ofRaw_untupled raw).trans hnode⟩
  · obtain ⟨back, hback⟩ := exists_toRaw hnode
    exact ⟨back, hback, ofRaw_toRaw hnode hback⟩

/-- Two leaves without a place in a document, the first of them in a tuple. -/
def unusual : Raw := .map [("ports", .list [.int 22, .tuple [.text "http", .other "set"]]),
  ("tags", .other "bytes")]

/-- A tuple in a map that is not sorted by its keys. -/
def tupled : Raw := .map [("ports", .tuple [.int 22, .tuple []]), ("enabled", .bool true)]

theorem ofRaw_leaves_tuples :
    Node.ofRaw unusual = .error ⟨"set"⟩
    ∧ ∃ node, Node.ofRaw tupled = .ok node ∧ node.toRaw = .ok tupled.untupled
      ∧ Node.ofRaw tupled.untupled = .ok node :=
  ⟨(ofRaw_leaves unusual).2.1 (.other "set") rfl,
    _, rfl, (ofRaw_leaves tupled).2.2.1 _ rfl⟩

end ThereAndBack

end TerraIndex
