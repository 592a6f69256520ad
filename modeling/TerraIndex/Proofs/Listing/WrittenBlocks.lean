import TerraIndex.File.Load
import TerraIndex.Proofs.Hcl.TokenLines
import TerraIndex.Proofs.Hcl.Tree
import TerraIndex.Proofs.Listing.Definitions
/-!
# The blocks of a configuration as they are written

A block that is listed was read from an item of the text. Where all items of a kind, up to case, are
blocks of that very kind with the right number of labels, the blocks that are listed are these items
in their order, except those with a reserved label. Each is located at its own lines
(`configBlocks_stand`).
-/

namespace TerraIndex

namespace Hcl

def Item.labels : Item → List String
  | .attribute _ _ => []
  | .block _ labels _ _ _ => labels

/-- A block of the kind that no reserved label hides. -/
def Item.isListed (kind : String) (item : Item) : Bool :=
  item.name == kind && item.labels.all fun label => !isReserved label

/-- Whatever is named like the kind, up to case, is a block of that kind with so many labels. -/
def OfKind (kind : String) (depth : Nat) (items : List Item) : Prop :=
  ∀ item ∈ items, sameFolded item.name kind = true →
    item.name = kind ∧ item.isBlock = true ∧ item.labels.length = depth

/-- The labels and the body that are read from a block of a kind. -/
inductive Gives (kind : String) : Item → List String × Body → Prop
  | block {labels : List String} {body : List Item} {first last : Nat}
      {inner : List (String × Raw)} {nodes : Body} (hinner : Item.addItems [] [] body = some inner)
      (hnodes : Node.ofRawEntries (noted inner first last) = .ok nodes) :
      Gives kind (.block kind labels body first last) (labels, nodes)

section Results

/-- The labels of a block lead to its body, but for reserved ones. -/
theorem walkLabels_nestLabels {inner : List (String × Raw)} :
    ∀ {labels : List String} {node : Node},
    Node.ofRaw (nestLabels labels (.map inner)) = .ok node →
    ∃ body, Node.ofRawEntries inner = .ok body ∧ ∀ above, walkLabels node labels.length above
      = if labels.all (fun label => !isReserved label) then [(above ++ labels, body)] else []
  | [], node, h => by
    obtain ⟨body, hbody, rfl⟩ := map_ok h
    exact ⟨body, hbody, fun above => by rw [List.append_nil]; rfl⟩
  | label :: labels, node, h => by
    obtain ⟨entries, hentries, rfl⟩ := map_ok h
    rw [Node.ofRawEntries] at hentries
    obtain ⟨child, hchild, hentries⟩ := bind_ok hentries
    obtain ⟨body, hbody, hwalk⟩ := walkLabels_nestLabels hchild
    obtain rfl := Except.ok.inj hentries
    refine ⟨body, hbody, fun above => ?_⟩
    rw [List.length_cons, walkLabels, walkEntries, walkEntries, hwalk, List.all_cons]
    cases isReserved label with
    | true => rfl
    | false =>
      simp only [Bool.false_eq_true, if_false, List.append_nil, Bool.not_false, Bool.true_and,
        List.append_assoc, List.singleton_append]

section Gives

variable {kind : String} {depth : Nat} {items : List Item} {raws : List Raw} {nodes : List Node}

theorem walkLabels_adds (hadds : List.Forall₂ Adds items raws)
    (hkind : ∀ item ∈ items, item.name = kind ∧ item.labels.length = depth)
    (hnodes : raws.map Node.ofRaw = nodes.map .ok) :
    List.Forall₂ (Gives kind) (items.filter (Item.isListed kind))
      (nodes.flatMap fun node => walkLabels node depth []) := by
  induction hadds generalizing nodes with
  | nil =>
    rw [List.map_nil, eq_comm, List.map_eq_nil_iff] at hnodes
    rw [hnodes]
    exact .nil
  | @cons item raw items raws hadd _ ih =>
    obtain ⟨hitem, hitems⟩ := List.forall_mem_cons.mp hkind
    rcases nodes with _ | ⟨node, nodes⟩
    · cases hnodes
    rw [List.map_cons, List.map_cons, List.cons.injEq] at hnodes
    have hrest := ih hitems hnodes.2
    cases hadd with
    | @block type labels body first last inner hinner =>
      have hname : type = kind := hitem.1
      have hlabels : labels.length = depth := hitem.2
      obtain ⟨body', hbody', hwalk⟩ := walkLabels_nestLabels hnodes.1
      have hlisted : (Item.block type labels body first last).isListed kind
          = labels.all fun label => !isReserved label := by
        rw [← hname, Item.isListed, Item.name, beq_self_eq_true, Bool.true_and, Item.labels]
      rw [hlabels] at hwalk
      rw [List.flatMap_cons, hwalk, List.filter_cons, hlisted, hname]
      cases labels.all fun label => !isReserved label with
      | true => exact .cons (.block hinner hbody') hrest
      | false => exact hrest

/-- The bodies of a kind are read from its blocks. -/
theorem labelledBodies_gives {root : List (String × Raw)} {tree : Body}
    (hroot : Item.addItems [] [] items = some root) (htree : Node.ofRawEntries root = .ok tree)
    (hkind : OfKind kind depth items) :
    List.Forall₂ (Gives kind) (items.filter (Item.isListed kind))
      (labelledBodies tree kind depth) := by
  have hself : sameFolded kind kind = true := beq_self_eq_true _
  have hitems : ∀ item ∈ items, item.name = kind →
      item.isBlock = true ∧ item.labels.length = depth :=
    fun item hmem hname => (hkind item hmem (hname ▸ hself)).2
  obtain ⟨raws, hadds, hkeeps⟩ :=
    addItems_keeps hroot (fun item hmem hname => (hitems item hmem hname).1)
      (keeps_nil : Keeps [] kind [])
  have hfilter : items.filter (Item.isListed kind)
      = (items.filter fun item => item.name = kind).filter (Item.isListed kind) := by
    rw [List.filter_filter]
    refine List.filter_congr fun item _ => ?_
    rw [Item.isListed, beq_eq_decide]
    cases decide (item.name = kind) <;> simp
  have hchild := entryAt?_ofRawEntries htree kind
  rw [hfilter, labelledBodies]
  rw [Keeps, List.nil_append] at hkeeps
  rw [hkeeps] at hchild
  split_ifs at hchild with hnone
  · subst hnone
    rw [List.forall₂_nil_right_iff.mp hadds]
    rw [Option.map_none, eq_comm, Option.map_eq_none_iff] at hchild
    rw [Body.child?, hchild]
    exact .nil
  · rw [Option.map_some] at hchild
    obtain ⟨node, hnode, hraw⟩ := Option.map_eq_some_iff.mp hchild.symm
    obtain ⟨nodes, hnodes, rfl⟩ := map_ok hraw.symm
    rw [Body.child?, hnode]
    refine walkLabels_adds hadds (fun item hmem => ?_) (map_ofRawList hnodes)
    obtain ⟨hmem, hname⟩ := List.mem_filter.mp hmem
    exact ⟨of_decide_eq_true hname, (hitems item hmem (of_decide_eq_true hname)).2⟩

end Gives

end Results

section LocatedBlocks

/-- The lines that the parser noted are those of the block. -/
theorem spanOf_noted {inner : List (String × Raw)} {first last : Nat} {nodes : Body}
    (text : ConfigText) (hnodes : Node.ofRawEntries (noted inner first last) = .ok nodes)
    (hfirst : 0 < first) (hlast : first ≤ last) :
    text.spanOf nodes = ⟨first, last, text.sourceText first last⟩ := by
  have hnumber : ∀ (key : String) (n : Nat), entryAt? (noted inner first last) key = some (.int n) →
      lineNumber nodes key = n := by
    intro key n hentry
    have hchild := entryAt?_ofRawEntries hnodes key
    rw [hentry] at hchild
    obtain ⟨node, hnode, hread⟩ := Option.map_eq_some_iff.mp hchild.symm
    obtain rfl := Except.ok.inj hread
    rw [lineNumber, Body.child?, hnode]
    rfl
  have hstart := hnumber startKey first (by
    rw [noted, entryAt?_insertEntry, if_neg (by decide), entryAt?_insertEntry, if_pos rfl])
  have hend := hnumber endKey last (by rw [noted, entryAt?_insertEntry, if_pos rfl])
  rw [ConfigText.spanOf, hstart, hend, if_neg (by omega)]
  rfl

/-- A block of a kind as it is listed: its labels, what is read from its body, and a number by which
it is found. -/
inductive Stands (text : ConfigText) (kind : String) : Item → ConfigBlock → Prop
  | block {labels : List String} {body : List Item} {first last occurrence : Nat}
      {inner : List (String × Raw)} {nodes : Body} (hinner : Item.addItems [] [] body = some inner)
      (hnodes : Node.ofRawEntries (noted inner first last) = .ok nodes)
      (hlocate : text.locate kind labels occurrence = text.spanOf nodes) :
      Stands text kind (.block kind labels body first last)
        ⟨labels, Body.sanitize nodes, occurrence⟩

theorem Stands.item {text : ConfigText} {kind : String} {item : Item} {block : ConfigBlock}
    (h : Stands text kind item block) :
    ∃ body first last, item = .block kind block.labels body first last := by
  cases h with
  | block => exact ⟨_, _, _, rfl⟩

theorem configBlocks_stand {content : List Char} {kind : String} {depth : Nat} {items : List Item}
    {root : List (String × Raw)} {tree : Body} (hcounted : (kind, depth) ∈ labelCounts)
    (hroot : Item.addItems [] [] items = some root) (htree : Node.ofRawEntries root = .ok tree)
    (hkind : OfKind kind depth items) :
    List.Forall₂ (Stands (.ofContent content tree) kind) (items.filter (Item.isListed kind))
      (configBlocks tree kind depth) := by
  have hgives := labelledBodies_gives hroot htree hkind
  have hnumbers := numberBlocks_matching (labelledBodies tree kind depth)
  rw [← configBlocks_eq] at hnumbers
  obtain ⟨hkeys, -, -⟩ := addItems_keys hroot .nil
  rw [← map_fst_ofRawEntries htree] at hkeys
  have hsole : ∀ entry ∈ tree, entry.1 ≠ kind → sameFolded entry.1 kind = false := by
    rintro ⟨key, node⟩ hentry hne
    obtain ⟨raw, hraw⟩ : ∃ raw, (key, raw) ∈ root := by
      have hkey : key ∈ tree.map Prod.fst := List.mem_map_of_mem (f := Prod.fst) hentry
      rw [map_fst_ofRawEntries htree] at hkey
      obtain ⟨⟨_, raw⟩, hmem, rfl⟩ := List.mem_map.mp hkey
      exact ⟨raw, hmem⟩
    obtain ⟨item, hmem, hname⟩ := mem_addItems_name hroot hraw
    rw [Bool.eq_false_iff]
    intro hfolded
    exact hne (hname ▸ (hkind item hmem (hname ▸ hfolded)).1)
  refine forall₂_comp (fun item source block hgive hnumber => ?_) hgives hnumbers.flip
  obtain ⟨labels, body, occurrence⟩ := block
  obtain ⟨hmem, rfl, rfl, hoccurrence⟩ := hnumber
  cases hgive with
  | @block labels body first last inner nodes hinner hnodes =>
    refine .block hinner hnodes ?_
    have hlength : labels.length = depth := length_labels hmem
    have hcount : entryAt? labelCounts (Text.lower kind) = some depth :=
      labelCounts_lower (kind, depth) hcounted
    have hchild : tree.child? kind ≠ none := by
      intro hnone
      rw [labelledBodies, hnone] at hmem
      exact List.not_mem_nil hmem
    rw [ConfigText.locate, hcount]
    simp only [hlength, ne_eq, not_true_eq_false, false_or, Int.not_lt.mpr (Int.natCast_nonneg _),
      if_false, Int.toNat_natCast, matchingBodies_eq content labels hkeys hsole hchild, hoccurrence]

end LocatedBlocks

section Parts

/-- The items of a configuration with their tokens. -/
def partsOf (content : List Char) : List Part :=
  partsFrom (8 * (tokensOf content).length + 8) (tokensOf content)

section Parts

variable {parser : ConfigParser} {content : List Char} {path : String} {tree : Body}

theorem parseConfig_ok (hfollows : parser.Follows content)
    (h : parseConfig parser path content = .ok tree) : ∃ items root,
    parse content = some items ∧ Item.addItems [] [] items = some root
      ∧ Node.ofRawEntries root = .ok tree := by
  rw [parseConfig, hfollows] at h
  split at h
  · cases h
  · rename_i raw hdecode
    obtain ⟨items, hitems, hdecode⟩ := Option.bind_eq_some_iff.mp hdecode
    obtain ⟨root, hroot, hdecode⟩ := Option.bind_eq_some_iff.mp hdecode
    obtain rfl := Option.some.inj hdecode
    refine ⟨items, root, hitems, hroot, ?_⟩
    rw [documentOf] at h
    split at h
    · cases h
    · rename_i entries hnode
      obtain ⟨nodes, hnodes, heq⟩ := map_ok hnode
      rw [hnodes, ← Except.ok.inj h, Node.map.inj heq]
    · cases h

theorem items_partsOf {items : List Item} (h : parse content = some items) :
    (partsOf content).map Part.item = items :=
  partsFrom_items _ (parse_tokensOf h).2

/-- Where a part stands in its file. -/
theorem mem_partsOf {part : Part} (h : part ∈ partsOf content) :
    (∃ name line rest, part.IsRead name line rest)
      ∧ ∃ above, tokensOf content = above ++ part.front := by
  refine ⟨partsFrom_isRead _ part h, ?_⟩
  obtain ⟨before, after, hparts⟩ := List.append_of_mem h
  obtain ⟨above, habove, -⟩ := partsFrom_above _ hparts
  exact ⟨above, habove⟩

/-- The blocks of a kind that are listed are parts of the configuration. -/
theorem configBlocks_parts {kind : String} {depth : Nat} (hfollows : parser.Follows content)
    (h : parseConfig parser path content = .ok tree) (hcounted : (kind, depth) ∈ labelCounts)
    (hkind : OfKind kind depth ((partsOf content).map Part.item)) :
    List.Forall₂ (fun part block => Stands (.ofContent content tree) kind part.item block)
      ((partsOf content).filter fun part => part.item.isListed kind)
      (configBlocks tree kind depth) := by
  obtain ⟨items, root, hitems, hroot, htree⟩ := parseConfig_ok hfollows h
  rw [← items_partsOf hitems] at hroot
  have hstand : List.Forall₂ (Stands (.ofContent content tree) kind) _ _ :=
    configBlocks_stand hcounted hroot htree hkind
  rwa [List.filter_map, List.forall₂_map_left_iff] at hstand

end Parts

end Parts

end Hcl

end TerraIndex
