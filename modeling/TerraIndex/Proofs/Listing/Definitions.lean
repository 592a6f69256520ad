import TerraIndex.Proofs.Document.Paths
import TerraIndex.Proofs.Listing.Attempts
import TerraIndex.Proofs.Listing.OneKind
/-!
# Which definitions of a configuration are listed

A definition is what one entity of a configuration is built from: a map that the labels of a block
lead to, or an entry of a `locals` block. `definitions` finds those of a kind by the shape of the
tree alone. A listing makes one attempt on each of them, in document order, but for those that a
reserved key leads to, of which it leaves no trace (`listing_definitions`). The parser notes
positions under two such keys; a label or a name of the same form is dropped with them
(`listing_drops_reserved`).
-/

namespace TerraIndex

mutual

/-- The nodes that a number of keys lead to, with these keys, in document order. -/
def nodesBelow : Nat → Node → List (List String × Node)
  | 0, node => [([], node)]
  | depth + 1, .map entries => entriesBelow depth entries
  | _, _ => []

def entriesBelow : Nat → List (String × Node) → List (List String × Node)
  | _, [] => []
  | depth, (key, child) :: rest =>
    (nodesBelow depth child).map (Prod.map (key :: ·) id) ++ entriesBelow depth rest

end

/-- How many keys lead from a block to a definition: its labels, or the name of a local value. -/
def ListKind.depth : ListKind → Nat
  | .resource => 2
  | .dataSource => 2
  | _ => 1

/-- A local value can be any node, everything else is defined by a map. -/
def ListKind.defines (kind : ListKind) (node : Node) : Bool :=
  kind = .localValue || node.map?.isSome

/-- The definitions of a kind, with the keys that lead to them. -/
def definitions (tree : Body) (kind : ListKind) : List (List String × Node) :=
  (((tree.child? kind.blockType).elim [] blocksOf).flatMap (nodesBelow kind.depth)).filter
    fun definition => kind.defines definition.2

/-- No key on the way to the definition is reserved. -/
def isListed (definition : List String × Node) : Bool := definition.1.all fun key => !isReserved key

/-- The attempt that is made on a definition: on its map without the reserved keys, or on its value
without them if it is a local. -/
inductive Builds (file : SourceFile) (kind : ListKind) : List String × Node → Attempt → Prop
  | block {keys : List String} {body : Body} {occurrence : Nat} {attempt : Attempt}
    (htries : file.Tries kind (.block ⟨keys, body.sanitize, occurrence⟩) attempt) :
    Builds file kind (keys, .map body) attempt
  | localEntry {block : ConfigBlock} {name : String} {value : Node} {attempt : Attempt}
    (htries : file.Tries kind (.localEntry block name value.sanitize) attempt) :
    Builds file kind ([name], value) attempt

section Nodes

theorem filter_isListed_cons (key : String) (nodes : List (List String × Node)) :
    (nodes.map (Prod.map (key :: ·) id)).filter isListed
      = if isReserved key then [] else (nodes.filter isListed).map (Prod.map (key :: ·) id) := by
  rw [List.filter_map]
  cases hkey : isReserved key with
  | true =>
    have hnone : isListed ∘ Prod.map (key :: ·) id = fun _ : List String × Node => false := by
      funext definition
      simp [isListed, hkey]
    rw [hnone, List.filter_false]
    rfl
  | false =>
    have hsame : isListed ∘ Prod.map (key :: ·) id = (isListed : List String × Node → Bool) := by
      funext definition
      simp [isListed, hkey]
    rw [hsame]
    rfl

/-- The nodes that are maps and not below a reserved key. -/
def listedMaps (nodes : List (List String × Node)) : List (List String × Node) :=
  (nodes.filter isListed).filter fun definition => definition.2.map?.isSome

theorem listedMaps_append (nodes more : List (List String × Node)) :
    listedMaps (nodes ++ more) = listedMaps nodes ++ listedMaps more := by
  rw [listedMaps, List.filter_append, List.filter_append]
  rfl

theorem listedMaps_cons (key : String) (nodes : List (List String × Node)) :
    listedMaps (nodes.map (Prod.map (key :: ·) id))
      = if isReserved key then [] else (listedMaps nodes).map (Prod.map (key :: ·) id) := by
  rw [listedMaps, filter_isListed_cons]
  split_ifs
  · rfl
  · rw [List.filter_map]
    rfl

mutual

/-- A walk goes to the maps that are not below a reserved key, with the keys above it. -/
theorem walkLabels_eq : ∀ (node : Node) (depth : Nat) (above : List String),
    (walkLabels node depth above).map (Prod.map id Node.map)
      = (listedMaps (nodesBelow depth node)).map (Prod.map (above ++ ·) id)
  | .map entries, 0, above => by
    simp [walkLabels, nodesBelow, listedMaps, isListed, Node.map?]
  | .map entries, depth + 1, above => walkEntries_eq entries depth above
  | .scalar _, depth, above => by
    cases depth <;> simp [walkLabels, nodesBelow, listedMaps, isListed, Node.map?]
  | .list _, depth, above => by
    cases depth <;> simp [walkLabels, nodesBelow, listedMaps, isListed, Node.map?]
  | .stray _, depth, above => by
    cases depth <;> simp [walkLabels, nodesBelow, listedMaps, isListed, Node.map?]

theorem walkEntries_eq : ∀ (entries : List (String × Node)) (depth : Nat) (above : List String),
    (walkEntries entries depth above).map (Prod.map id Node.map)
      = (listedMaps (entriesBelow depth entries)).map (Prod.map (above ++ ·) id)
  | [], _, _ => rfl
  | (key, child) :: rest, depth, above => by
    have hchild := walkLabels_eq child depth (above ++ [key])
    have hrest := walkEntries_eq rest depth above
    rw [walkEntries, entriesBelow, listedMaps_append, listedMaps_cons, List.map_append, ← hrest]
    split_ifs
    · rfl
    · have habove : (Prod.map (above ++ ·) id : List String × Node → List String × Node)
          ∘ Prod.map (key :: ·) id = Prod.map (above ++ [key] ++ ·) id := by
        funext definition
        simp [Prod.map]
      rw [List.map_append, hchild, List.map_map, habove]

end

/-- The definitions by a map that are listed are the bodies that the labels lead to. -/
theorem definitions_bodies {kind : ListKind} (tree : Body) (hkind : kind ≠ .localValue) :
    (definitions tree kind).filter isListed
      = (labelledBodies tree kind.blockType kind.depth).map (Prod.map id Node.map) := by
  have hdefines : (fun definition : List String × Node => kind.defines definition.2)
      = fun definition => definition.2.map?.isSome := by
    funext definition
    rw [ListKind.defines, decide_eq_false hkind, Bool.false_or]
  have hblocks : ∀ blocks : List Node, listedMaps (blocks.flatMap (nodesBelow kind.depth))
      = (blocks.flatMap fun block => walkLabels block kind.depth []).map
        (Prod.map id Node.map) := by
    intro blocks
    induction blocks with
    | nil => rfl
    | cons block blocks ih =>
      rw [List.flatMap_cons, List.flatMap_cons, listedMaps_append, ih, List.map_append,
        walkLabels_eq]
      exact congrArg (· ++ _) (List.map_id _).symm
  rw [definitions, hdefines, List.filter_comm, labelledBodies]
  cases tree.child? kind.blockType with
  | none => rfl
  | some node => exact hblocks (blocksOf node)

end Nodes

theorem entriesBelow_zero (entries : List (String × Node)) :
    entriesBelow 0 entries = entries.map fun entry => ([entry.1], entry.2) := by
  induction entries with
  | nil => rfl
  | cons entry rest ih =>
    rw [entriesBelow, ih, nodesBelow]
    rfl

/-- The entries of a body that are listed. -/
def entriesOf (body : Body) : List (List String × Node) :=
  (body.filter fun entry => !isReserved entry.1).map fun entry => ([entry.1], entry.2)

theorem definitions_entries (tree : Body) :
    (definitions tree .localValue).filter isListed
      = (labelledBodies tree "locals" 0).flatMap fun source => entriesOf source.2 := by
  have hdefines : (fun definition : List String × Node => ListKind.localValue.defines definition.2)
      = fun _ => true := rfl
  have hblock : ∀ block : Node, (nodesBelow 1 block).filter isListed
      = (walkLabels block 0 []).flatMap fun source => entriesOf source.2 := by
    intro block
    cases block with
    | map entries =>
      rw [walkLabels, List.flatMap_singleton, nodesBelow, entriesBelow_zero, List.filter_map,
        entriesOf]
      congr 2
      funext entry
      simp [isListed]
    | scalar | list | stray => simp [nodesBelow, walkLabels]
  have hblocks : ∀ blocks : List Node, (blocks.flatMap (nodesBelow 1)).filter isListed
      = (blocks.flatMap fun block => walkLabels block 0 []).flatMap fun source =>
        entriesOf source.2 := by
    intro blocks
    rw [List.filter_flatMap, List.flatMap_assoc]
    exact List.flatMap_congr fun block _ => hblock block
  rw [definitions, hdefines, List.filter_true, labelledBodies, ListKind.blockType, ListKind.depth]
  · cases tree.child? "locals" with
    | none => rfl
    | some node => exact hblocks (blocksOf node)
  · intro h
    cases h
  · intro h
    cases h

section Attempts

/-- What is related to the items of a list in turn, by way of another list. -/
theorem forall₂_comp {α β γ : Type} {R : α → β → Prop} {S : β → γ → Prop} {T : α → γ → Prop}
    (h : ∀ a b c, R a b → S b c → T a c) : ∀ {as : List α} {bs : List β} {cs : List γ},
    List.Forall₂ R as bs → List.Forall₂ S bs cs → List.Forall₂ T as cs
  | _, _, _, .nil, .nil => .nil
  | _, _, _, .cons hab hrest, .cons hbc hmore =>
    .cons (h _ _ _ hab hbc) (forall₂_comp h hrest hmore)

namespace SourceFile

variable {file : SourceFile} {kind : ListKind}

/-- The definition that a site belongs to. -/
inductive SiteOf : List String × Node → Site → Prop
  | block {keys : List String} {body : Body} {occurrence : Nat} :
    SiteOf (keys, .map body) (.block ⟨keys, body.sanitize, occurrence⟩)
  | localEntry {block : ConfigBlock} {name : String} {value : Node} :
    SiteOf ([name], value) (.localEntry block name value.sanitize)

theorem configSites_eq (hkind : kind ≠ .localValue) :
    file.configSites kind = (configBlocks file.tree kind.blockType kind.depth).map .block := by
  cases kind with
  | localValue => exact absurd rfl hkind
  | _ => rfl

theorem siteOf_blocks (hkind : kind ≠ .localValue) :
    List.Forall₂ SiteOf ((definitions file.tree kind).filter isListed) (file.configSites kind) := by
  have hnumbers := numberBlocks_matching (labelledBodies file.tree kind.blockType kind.depth)
  rw [definitions_bodies file.tree hkind, configSites_eq hkind, configBlocks_eq,
    List.forall₂_map_left_iff, List.forall₂_map_right_iff]
  refine (hnumbers.imp fun block source h => ?_).flip
  obtain ⟨labels, body, occurrence⟩ := block
  obtain ⟨rfl, rfl⟩ := And.intro h.labels h.body
  exact .block

theorem siteOf_entries : List.Forall₂ SiteOf ((definitions file.tree .localValue).filter isListed)
    (file.configSites .localValue) := by
  have hnumbers := numberBlocks_matching (labelledBodies file.tree "locals" 0)
  rw [definitions_entries, configSites, configBlocks_eq]
  refine List.rel_flatMap hnumbers.flip fun source block h => ?_
  rw [entriesOf, h.body, sanitize_eq, List.map_map]
  exact forall₂_map_map fun _ _ => .localEntry

theorem siteOf_definitions (file : SourceFile) (kind : ListKind) :
    List.Forall₂ SiteOf ((definitions file.tree kind).filter isListed) (file.configSites kind) := by
  by_cases hkind : kind = .localValue
  · rw [hkind]
    exact siteOf_entries
  · exact siteOf_blocks hkind

/-- Of the definitions of a configuration, those that no reserved key leads to are listed: each is
an entity or an error in the log. -/
theorem listing_definitions (file : SourceFile) (kind : ListKind) (hconfig : file.kind = .config)
    (hlines : kind = .localValue → file.LinesWithin) :
    ∃ attempts, List.Forall₂ (Builds file kind) ((definitions file.tree kind).filter isListed)
        attempts
      ∧ file.listing kind = Listing.ofAttempts kind file.path attempts := by
  obtain ⟨attempts, htries, hlisting⟩ := ofSteps_config kind hconfig hlines
  refine ⟨attempts, forall₂_comp ?_ (siteOf_definitions file kind) htries, hlisting⟩
  intro definition site attempt hsite htries
  cases hsite with
  | block => exact .block htries
  | localEntry =>
    cases htries with
    | localValue hspan => exact .localEntry (.localValue hspan)

end SourceFile

end Attempts

namespace ReservedName

def text : List Char := "output \"__main__\" \x7b\n  value = 1\n\x7d\n".toList

def main : Body := [("value", .scalar (.int 1)), (Hcl.startKey, .scalar (.int 1)),
  (Hcl.endKey, .scalar (.int 3))]

/-- The tree of the text. -/
def tree : Body := [("output", .list [.map [("__main__", .map main)]])]

def file : SourceFile := ⟨"main.tf", String.ofList text, .config, tree⟩

theorem parseConfig_text : parseConfig Hcl.decode "main.tf" text = .ok tree := by cbv

end ReservedName

/-- Two providers, and a local value in a block whose lines are noted. -/
theorem listing_definitions_providers :
    let file : SourceFile := ⟨"main.tf", String.ofList providersText, .config, providers⟩
    (file.kind = .config
      ∧ ((definitions providers .provider).filter isListed).length = 2
      ∧ ∃ attempts, List.Forall₂ (Builds file .provider)
          ((definitions providers .provider).filter isListed) attempts
        ∧ file.listing .provider = Listing.ofAttempts .provider "main.tf" attempts)
    ∧ BrokenOutput.file.kind = .config ∧ BrokenOutput.file.LinesWithin
      ∧ (definitions BrokenOutput.tree .localValue).length = 3
      ∧ (definitions BrokenOutput.tree .localValue).filter isListed
        = [(["a"], .scalar (.text "$\x7bb\x7d"))]
      ∧ ∃ attempts, List.Forall₂ (Builds BrokenOutput.file .localValue)
          ((definitions BrokenOutput.tree .localValue).filter isListed) attempts
        ∧ BrokenOutput.file.listing .localValue
          = Listing.ofAttempts .localValue "main.tf" attempts :=
  ⟨⟨rfl, by decide, SourceFile.listing_definitions _ .provider rfl nofun⟩, rfl,
    BrokenOutput.linesWithin, rfl, rfl,
    SourceFile.listing_definitions BrokenOutput.file .localValue rfl
      fun _ => BrokenOutput.linesWithin⟩

open ReservedName in
/-- No reserved key of the parser leads to the output, and it is lost. -/
theorem listing_drops_reserved :
    parseConfig Hcl.decode "main.tf" text = .ok tree
      ∧ definitions tree .output = [(["__main__"], .map main)]
      ∧ "__main__" ≠ Hcl.startKey ∧ "__main__" ≠ Hcl.endKey
      ∧ file.listing .output = ⟨[], [], none⟩ :=
  ⟨parseConfig_text, rfl, by decide, by decide, rfl⟩

end TerraIndex
