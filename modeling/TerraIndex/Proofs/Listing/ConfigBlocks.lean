import TerraIndex.Listing
import TerraIndex.Proofs.Document.Bodies
import Mathlib.Data.List.Forall2
/-!
# Blocks of a configuration and their spans

A configuration is walked twice: `walkLabels` lists every block with its labels, and `descend`
follows labels that are given, up to case. The second walk passes through those blocks of the first
whose labels are the given ones up to case, in the same order (`descend_eq_filter`), so a block has
among them the number that `numberBlocks` gives it (`numberBlocks_matching`). Each block is
therefore located at the lines that its own body notes (`locate_own_body`).
-/

namespace TerraIndex

/-- The labels up to case. -/
def foldLabels (labels : List String) : List String := labels.map Text.lower

/-- The bodies of the blocks of a kind, as they stand in the tree, with their labels. -/
def labelledBodies (tree : Body) (kind : String) (depth : Nat) : List (List String × Body) :=
  match tree.child? kind with
  | none => []
  | some node => (blocksOf node).flatMap fun block => walkLabels block depth []

theorem configBlocks_eq (tree : Body) (kind : String) (depth : Nat) :
    configBlocks tree kind depth = numberBlocks [] (labelledBodies tree kind depth) := by
  unfold configBlocks labelledBodies
  cases tree.child? kind <;> rfl

mutual

/-- The labels of a body are those above the walk and one for each level of its depth. -/
theorem walkLabels_labels : ∀ (node : Node) (depth : Nat) (above : List String)
    {labels : List String} {body : Body}, (labels, body) ∈ walkLabels node depth above →
    ∃ below, labels = above ++ below ∧ below.length = depth
  | .map entries, 0, above, labels, body, h => by
    rw [walkLabels, List.mem_singleton, Prod.mk.injEq] at h
    exact ⟨[], by rw [h.1, List.append_nil], rfl⟩
  | .map entries, depth + 1, above, _, _, h => walkEntries_labels entries depth above h
  | .scalar _, _, _, _, _, h => by simp [walkLabels] at h
  | .list _, _, _, _, _, h => by simp [walkLabels] at h
  | .stray _, _, _, _, _, h => by simp [walkLabels] at h

theorem walkEntries_labels : ∀ (entries : List (String × Node)) (depth : Nat)
    (above : List String) {labels : List String} {body : Body},
    (labels, body) ∈ walkEntries entries depth above →
    ∃ below, labels = above ++ below ∧ below.length = depth + 1
  | [], _, _, _, _, h => by simp [walkEntries] at h
  | (key, child) :: rest, depth, above, labels, body, h => by
    rw [walkEntries] at h
    split_ifs at h
    · exact walkEntries_labels rest depth above h
    · rcases List.mem_append.mp h with h | h
      · obtain ⟨below, hlabels, hlength⟩ := walkLabels_labels child depth (above ++ [key]) h
        refine ⟨key :: below, ?_, by rw [List.length_cons, hlength]⟩
        rw [hlabels, List.append_assoc, List.singleton_append]
      · exact walkEntries_labels rest depth above h

end

theorem length_labels {tree : Body} {kind : String} {depth : Nat} {labels : List String}
    {body : Body} (h : (labels, body) ∈ labelledBodies tree kind depth) :
    labels.length = depth := by
  unfold labelledBodies at h
  split at h
  · exact absurd h List.not_mem_nil
  · obtain ⟨block, -, h⟩ := List.mem_flatMap.mp h
    obtain ⟨below, hlabels, hlength⟩ := walkLabels_labels block depth [] h
    rw [hlabels, List.nil_append, hlength]

section Labels

/-- The bodies of a walk whose labels are the given ones up to case. -/
def matching (labels : List String) (blocks : List (List String × Body)) : List Body :=
  (blocks.filter fun p => foldLabels p.1 == foldLabels labels).map Prod.snd

theorem matching_append (labels : List String) (blocks more : List (List String × Body)) :
    matching labels (blocks ++ more) = matching labels blocks ++ matching labels more := by
  simp only [matching, List.filter_append, List.map_append]

/-- Only the labels up to case count. -/
theorem matching_congr {labels others : List String} (blocks : List (List String × Body))
    (h : foldLabels labels = foldLabels others) :
    matching labels blocks = matching others blocks := by
  rw [matching, matching, h]

/-- Below a key that is not the label, no body has the labels. -/
theorem matching_other {key label : String} (child : Node) (above labels : List String)
    (h : sameFolded key label = false) :
    matching (above ++ label :: labels) (walkLabels child labels.length (above ++ [key])) = [] := by
  rw [matching, List.filter_eq_nil_iff.mpr, List.map_nil]
  rintro ⟨found, body⟩ hmem hfound
  obtain ⟨below, rfl, -⟩ := walkLabels_labels child labels.length (above ++ [key]) hmem
  simp only [foldLabels, List.append_assoc, List.singleton_append, List.map_append, List.map_cons,
    beq_iff_eq, List.append_cancel_left_eq, List.cons.injEq] at hfound
  simp only [sameFolded, hfound.1, beq_self_eq_true] at h
  exact absurd h (by decide)

mutual

/-- Following labels leads to the bodies of the walk that have them up to case. -/
theorem descend_eq_filter : ∀ (node : Node) (labels above : List String),
    descend labels node = matching (above ++ labels) (walkLabels node labels.length above)
  | .map entries, [], above => by
    rw [List.append_nil]
    simp [descend, matching, walkLabels]
  | .map entries, label :: labels, above => descendEntries_eq_filter entries label labels above
  | .scalar _, _, _ => by simp [descend, matching, walkLabels]
  | .list _, _, _ => by simp [descend, matching, walkLabels]
  | .stray _, _, _ => by simp [descend, matching, walkLabels]

theorem descendEntries_eq_filter : ∀ (entries : List (String × Node)) (label : String)
    (labels above : List String),
    descendEntries label labels entries
      = matching (above ++ label :: labels) (walkEntries entries labels.length above)
  | [], _, _, _ => by simp [descendEntries, matching, walkEntries]
  | (key, child) :: rest, label, labels, above => by
    have hrest := descendEntries_eq_filter rest label labels above
    rw [descendEntries, walkEntries, hrest]
    cases isReserved key with
    | true => rfl
    | false =>
      rw [if_neg Bool.false_ne_true, matching_append]
      cases hfold : sameFolded key label with
      | false => rw [matching_other child above labels hfold]; rfl
      | true =>
        have hkey : foldLabels (above ++ [key] ++ labels)
            = foldLabels (above ++ label :: labels) := by
          simp only [sameFolded, beq_iff_eq] at hfold
          simp [foldLabels, hfold]
        have hchild := descend_eq_filter child labels (above ++ [key])
        rw [matching_congr _ hkey] at hchild
        rw [hchild]
        rfl

end

end Labels

section Numbers

theorem length_filter_count (labels : List String) (blocks : List (List String × Body)) :
    (blocks.filter fun p => foldLabels p.1 == foldLabels labels).length
      = (blocks.map fun p => foldLabels p.1).count (foldLabels labels) := by
  rw [List.count, List.countP_map, List.countP_eq_length_filter]
  rfl

/-- Behind the blocks before it, a body is the next one with its labels. -/
theorem matching_at (labels : List String) (body : Body)
    (before after : List (List String × Body)) :
    (matching labels (before ++ (labels, body) :: after))[
        (before.map fun p => foldLabels p.1).count (foldLabels labels)]? = some body := by
  have hlength : (matching labels before).length
      = (before.map fun p => foldLabels p.1).count (foldLabels labels) := by
    rw [matching, List.length_map, length_filter_count]
  rw [matching_append, ← hlength, List.getElem?_append_right (Nat.le_refl _), Nat.sub_self,
    matching, List.filter_cons_of_pos (by simp)]
  rfl

/-- A block has the labels of a body and the body without its reserved keys, and the body is the
one numbered `occurrence` among those with the same labels up to case. -/
structure Numbers (blocks : List (List String × Body)) (block : ConfigBlock)
    (source : List String × Body) : Prop where
  mem : source ∈ blocks
  labels : block.labels = source.1
  body : block.body = Body.sanitize source.2
  occurrence : (matching source.1 blocks)[block.occurrence]? = some source.2

theorem numberBlocks_numbers : ∀ (rest before : List (List String × Body))
    (seen : List (List String)),
    (∀ labels, seen.count labels = (before.map fun p => foldLabels p.1).count labels) →
    List.Forall₂ (Numbers (before ++ rest)) (numberBlocks seen rest) rest
  | [], _, _, _ => .nil
  | (labels, body) :: rest, before, seen, hseen => by
    have hnext : ∀ others, (foldLabels labels :: seen).count others
        = ((before ++ [(labels, body)]).map fun p => foldLabels p.1).count others := by
      intro others
      rw [List.map_append, List.count_append, List.count_cons, hseen, List.map_singleton,
        List.count_singleton]
    have htail := numberBlocks_numbers rest (before ++ [(labels, body)]) _ hnext
    rw [List.append_assoc, List.singleton_append] at htail
    have hnumber := matching_at labels body before rest
    rw [← hseen] at hnumber
    exact .cons ⟨List.mem_append_right _ (List.mem_cons_self ..), rfl, rfl, hnumber⟩ htail

/-- Every block has the number of its body among those with its labels up to case. -/
theorem numberBlocks_matching (blocks : List (List String × Body)) :
    List.Forall₂ (Numbers blocks) (numberBlocks [] blocks) blocks :=
  numberBlocks_numbers blocks [] [] fun _ => rfl

end Numbers

section Spans

/-- The body has the integer under the key. -/
def StoresLine (body : Body) (key : String) (line : Int) : Prop :=
  body.child? key = some (.scalar (.int line))

/-- The span of the lines whose numbers the body has under its two keys. It is empty if there is no
integer under one of them, or if the lines are none. -/
structure NotesSpan (content : List Char) (body : Body) (span : Span) : Prop where
  noted {first last : Int} : StoresLine body Hcl.startKey first → StoresLine body Hcl.endKey last →
    0 < first → first ≤ last →
    span.startLine = first ∧ span.endLine = last
      ∧ span.source.toList = Text.joinNewlines
        (((Text.splitNewlines content).take last.toNat).drop (first.toNat - 1))
  empty {first last : Int} : StoresLine body Hcl.startKey first → StoresLine body Hcl.endKey last →
    first ≤ 0 ∨ last < first → span = .empty
  missing : (∀ line, ¬ StoresLine body Hcl.startKey line)
    ∨ (∀ line, ¬ StoresLine body Hcl.endKey line) → span = .empty

theorem StoresLine.lineNumber {body : Body} {key : String} {line : Int}
    (h : StoresLine body key line) : lineNumber body key = line := by
  rw [TerraIndex.lineNumber, h]
  rfl

theorem lineNumber_of_missing {body : Body} {key : String}
    (h : ∀ line, ¬ StoresLine body key line) : lineNumber body key = 0 := by
  unfold lineNumber
  cases hchild : body.child? key with
  | none => rfl
  | some node =>
    cases node with
    | scalar s =>
      cases s with
      | int line => exact absurd hchild (h line)
      | _ => rfl
    | _ => rfl

theorem notesSpan_spanOf (content : List Char) (tree body : Body) :
    NotesSpan content body ((ConfigText.ofContent content tree).spanOf body) where
  noted hfirst hlast hpos hle := by
    rw [ConfigText.spanOf, hfirst.lineNumber, hlast.lineNumber, if_neg (by omega)]
    exact ⟨rfl, rfl, String.toList_ofList⟩
  empty hfirst hlast h := by
    rw [ConfigText.spanOf, hfirst.lineNumber, hlast.lineNumber, if_pos h]
  missing h := by
    refine if_pos ?_
    rcases h with h | h
    · have hnone := lineNumber_of_missing h
      omega
    · have hnone := lineNumber_of_missing h
      omega

/-- A top-level key that alone has its spelling up to case holds all blocks of its kind. -/
theorem flatMap_sole {kind : String} {node : Node} (f : Node → List Body) : ∀ {tree : Body},
    (tree.map Prod.fst).Nodup →
    (∀ entry ∈ tree, entry.1 ≠ kind → sameFolded entry.1 kind = false) →
    tree.child? kind = some node →
    (tree.flatMap fun (key, value) => if sameFolded key kind then f value else []) = f node
  | [], _, _, hnode => by simp [Body.child?, entryAt?] at hnode
  | (key, value) :: tree, hkeys, hsole, hnode => by
    rw [List.map_cons, List.nodup_cons] at hkeys
    obtain ⟨hentry, hrest⟩ := List.forall_mem_cons.mp hsole
    rw [Body.child?, entryAt?] at hnode
    rw [List.flatMap_cons]
    split_ifs at hnode with hk
    · have hnone : (tree.flatMap fun (key, value) =>
          if sameFolded key kind then f value else []) = [] := by
        refine List.flatMap_eq_nil_iff.mpr fun other hmem => ?_
        have hother : other.1 ≠ kind := by
          intro hother
          have hkey := List.mem_map_of_mem (f := Prod.fst) hmem
          rw [hother, ← hk] at hkey
          exact hkeys.1 hkey
        simp only [hrest other hmem hother, if_neg Bool.false_ne_true]
      have hself : sameFolded key kind = true := by
        rw [hk]
        exact beq_self_eq_true _
      simp only [hnone, hself, if_true, List.append_nil, Option.some.inj hnode]
    · simp only [hentry hk, if_neg Bool.false_ne_true, List.nil_append]
      exact flatMap_sole f hkeys.2 hrest hnode

theorem matchingBodies_eq {tree : Body} {kind : String} (content : List Char)
    (labels : List String) (hkeys : (tree.map Prod.fst).Nodup)
    (hsole : ∀ entry ∈ tree, entry.1 ≠ kind → sameFolded entry.1 kind = false)
    (hkind : tree.child? kind ≠ none) :
    (ConfigText.ofContent content tree).matchingBodies kind labels
      = matching labels (labelledBodies tree kind labels.length) := by
  obtain ⟨node, hnode⟩ := Option.ne_none_iff_exists'.mp hkind
  have hsplit := flatMap_sole (fun value => (blocksOf value).flatMap (descend labels)) hkeys hsole
    hnode
  have hblocks : ∀ blocks : List Node, blocks.flatMap (descend labels)
      = matching labels (blocks.flatMap fun block => walkLabels block labels.length []) := by
    intro blocks
    induction blocks with
    | nil => rfl
    | cons block blocks ih =>
      rw [List.flatMap_cons, List.flatMap_cons, matching_append, ih,
        descend_eq_filter block labels [], List.nil_append]
  rw [labelledBodies, hnode]
  exact hsplit.trans (hblocks (blocksOf node))

theorem labelCounts_lower : ∀ entry ∈ labelCounts,
    entryAt? labelCounts (Text.lower entry.1) = some entry.2 := by decide

/-- Each block of a configuration is located at the lines that its own body notes. -/
theorem locate_own_body (content : List Char) {tree : Body} {kind : String} {depth : Nat}
    (hkind : (kind, depth) ∈ labelCounts) (hkeys : (tree.map Prod.fst).Nodup)
    (hsole : ∀ entry ∈ tree, entry.1 ≠ kind → sameFolded entry.1 kind = false) :
    List.Forall₂ (fun block source => block.labels = source.1
        ∧ block.body = Body.sanitize source.2
        ∧ NotesSpan content source.2 ((ConfigText.ofContent content tree).locate kind block.labels
            block.occurrence))
      (configBlocks tree kind depth) (labelledBodies tree kind depth) := by
  have hcount : entryAt? labelCounts (Text.lower kind) = some depth :=
    labelCounts_lower (kind, depth) hkind
  have hnumbers := numberBlocks_matching (labelledBodies tree kind depth)
  rw [← configBlocks_eq] at hnumbers
  refine hnumbers.imp fun block source h => ⟨h.labels, h.body, ?_⟩
  have hlength : source.1.length = depth := length_labels h.mem
  have hchild : tree.child? kind ≠ none := by
    intro hnone
    have hmem := h.mem
    rw [labelledBodies, hnone] at hmem
    exact List.not_mem_nil hmem
  have hbodies := matchingBodies_eq content source.1 hkeys hsole hchild
  have hfound : (ConfigText.ofContent content tree).locate kind block.labels block.occurrence
      = (ConfigText.ofContent content tree).spanOf source.2 := by
    rw [ConfigText.locate, hcount, h.labels]
    simp only [hlength, ne_eq, not_true_eq_false, false_or, Int.not_lt.mpr (Int.natCast_nonneg _),
      if_false, Int.toNat_natCast, hbodies, h.occurrence]
  rw [hfound]
  exact notesSpan_spanOf content tree source.2

end Spans

def providers : Body := [("provider", .list [
  .map [("aws", .map [(Hcl.startKey, .scalar (.int 1)), (Hcl.endKey, .scalar (.int 2))])],
  .map [("AWS", .map [("alias", .scalar (.text "west")), (Hcl.startKey, .scalar (.int 3)),
    (Hcl.endKey, .scalar (.int 5))])]])]

def providersText : List Char :=
  "provider \"aws\" \x7b\n\x7d\nprovider \"AWS\" \x7b\n  alias = \"west\"\n\x7d\n".toList

theorem locate_own_body_providers :
    ("provider", 1) ∈ labelCounts ∧ (providers.map Prod.fst).Nodup
      ∧ (∀ entry ∈ providers, entry.1 ≠ "provider" → sameFolded entry.1 "provider" = false)
      ∧ (configBlocks providers "provider" 1).map (fun block => (block.labels, block.occurrence))
        = [(["aws"], 0), (["AWS"], 1)]
      ∧ (configBlocks providers "provider" 1).map (fun block =>
          (ConfigText.ofContent providersText providers).locate "provider" block.labels
            block.occurrence)
        = [⟨1, 2, "provider \"aws\" \x7b\n\x7d"⟩,
          ⟨3, 5, "provider \"AWS\" \x7b\n  alias = \"west\"\n\x7d"⟩]
      ∧ List.Forall₂ (fun block source => block.labels = source.1
          ∧ block.body = Body.sanitize source.2
          ∧ NotesSpan providersText source.2 ((ConfigText.ofContent providersText providers).locate
              "provider" block.labels block.occurrence))
        (configBlocks providers "provider" 1) (labelledBodies providers "provider" 1) := by
  have hkind : ("provider", 1) ∈ labelCounts := by decide
  have hkeys : (providers.map Prod.fst).Nodup := by decide
  have hsole : ∀ entry ∈ providers, entry.1 ≠ "provider" →
      sameFolded entry.1 "provider" = false := fun entry h hne =>
    absurd (congrArg Prod.fst (List.mem_singleton.mp h)) hne
  exact ⟨hkind, hkeys, hsole, by decide, rfl, locate_own_body providersText hkind hkeys hsole⟩

end TerraIndex
