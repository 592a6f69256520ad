import TerraIndex.Entity.Build
import Mathlib.Tactic.SplitIfs
/-!
# Paths in a document

A path leads from a node to a node below it: to the value under a key of a map, to an item of a
list. A sanitized document has exactly those paths of the document that meet no reserved key, and
they lead to nodes of the same kind (`sanitize_paths`). So there is nothing left to drop in it, and
a resource is built from it as from the document.
-/

namespace TerraIndex

/-- A step down a tree: to the value under a key, or to the item at an index. -/
inductive PathStep
  | key (name : String)
  | item (index : Nat)
deriving DecidableEq

abbrev Path := List PathStep

def PathStep.isReserved : PathStep → Bool
  | key name => TerraIndex.isReserved name
  | item _ => false

namespace Node

def step? : Node → PathStep → Option Node
  | map entries, .key name => entryAt? entries name
  | list items, .item index => items[index]?
  | _, _ => none

/-- The node that a path leads to. -/
def at? : Node → Path → Option Node
  | node, [] => some node
  | node, step :: rest => (node.step? step).bind fun child => child.at? rest

@[simp] theorem at?_nil (node : Node) : node.at? [] = some node := rfl

@[simp] theorem at?_cons (node : Node) (step : PathStep) (rest : Path) :
    node.at? (step :: rest) = (node.step? step).bind fun child => child.at? rest := rfl

theorem step?_key_eq_some {node child : Node} {name : String} :
    node.step? (.key name) = some child
      ↔ ∃ entries, node = map entries ∧ entryAt? entries name = some child := by
  cases node <;> simp [step?]

theorem step?_item_eq_some {node child : Node} {index : Nat} :
    node.step? (.item index) = some child
      ↔ ∃ items, node = list items ∧ items[index]? = some child := by
  cases node <;> simp [step?]

/-- The nodes are of one kind: the same leaf, lists of one length, or maps of which the second has
the keys of the first in their order, less the reserved ones. -/
def KeepsKind : Node → Node → Prop
  | map entries, map kept =>
    kept.map Prod.fst = (entries.map Prod.fst).filter fun name => !isReserved name
  | list items, list kept => kept.length = items.length
  | scalar s, scalar kept => kept = s
  | stray value, stray kept => kept = value
  | _, _ => False

end Node

theorem sanitizeList_eq (nodes : List Node) :
    Node.sanitizeList nodes = nodes.map Node.sanitize := by
  induction nodes with
  | nil => rfl
  | cons node nodes ih => rw [Node.sanitizeList, ih, List.map_cons]

theorem sanitize_eq : ∀ body : Body, body.sanitize
      = (body.filter fun entry => !isReserved entry.1).map (Prod.map id Node.sanitize)
  | [] => rfl
  | (key, node) :: rest => by
    have hrest := sanitize_eq rest
    rw [Body.sanitize] at hrest ⊢
    rw [Node.sanitizeEntries, hrest, List.filter_cons]
    cases isReserved key <;> rfl

theorem map_fst_sanitize (body : Body) :
    body.sanitize.map Prod.fst = (body.map Prod.fst).filter fun name => !isReserved name := by
  rw [sanitize_eq, List.map_map, List.filter_map]
  rfl

/-- What stands under a key that is not reserved stays there, sanitized. -/
theorem entryAt?_sanitize (body : Body) (name : String) :
    entryAt? body.sanitize name
      = if isReserved name then none else (entryAt? body name).map Node.sanitize := by
  rw [Body.sanitize]
  induction body with
  | nil => simp [Node.sanitizeEntries, entryAt?]
  | cons entry body ih =>
    obtain ⟨key, node⟩ := entry
    rw [Node.sanitizeEntries]
    by_cases hname : key = name
    · subst hname
      by_cases hkey : isReserved key
      · simp [hkey, ih]
      · simp [hkey, entryAt?]
    · by_cases hkey : isReserved key
      · simp [hkey, ih, entryAt?, hname]
      · simp [hkey, ih, entryAt?, hname]

mutual

theorem sanitize_sanitize : ∀ node : Node, node.sanitize.sanitize = node.sanitize
  | .map entries => congrArg Node.map (sanitizeEntries_sanitizeEntries entries)
  | .list items => congrArg Node.list (sanitizeList_sanitizeList items)
  | .scalar _ => rfl
  | .stray _ => rfl

theorem sanitizeList_sanitizeList : ∀ nodes : List Node,
    Node.sanitizeList (Node.sanitizeList nodes) = Node.sanitizeList nodes
  | [] => rfl
  | node :: nodes => by
    simp only [Node.sanitizeList, sanitize_sanitize node, sanitizeList_sanitizeList nodes]

theorem sanitizeEntries_sanitizeEntries : ∀ body : Body,
    Node.sanitizeEntries (Node.sanitizeEntries body) = Node.sanitizeEntries body
  | [] => rfl
  | (key, node) :: body => by
    have hbody := sanitizeEntries_sanitizeEntries body
    cases hkey : isReserved key with
    | true => simpa only [Node.sanitizeEntries, hkey, if_true] using hbody
    | false =>
      simp only [Node.sanitizeEntries, hkey, Bool.false_eq_true, if_false, sanitize_sanitize node,
        hbody]

end

section Paths

theorem keepsKind_sanitize (node : Node) : node.KeepsKind node.sanitize := by
  cases node with
  | map entries => exact map_fst_sanitize entries
  | list items =>
    rw [Node.sanitize, Node.KeepsKind, sanitizeList_eq, List.length_map]
  | scalar s => rfl
  | stray value => rfl

/-- A step leads to the sanitized node, unless it is reserved. -/
theorem step?_sanitize (node : Node) (step : PathStep) :
    node.sanitize.step? step
      = if step.isReserved then none else (node.step? step).map Node.sanitize := by
  cases node with
  | map entries =>
    cases step with
    | key name => exact entryAt?_sanitize entries name
    | item index => rfl
  | list items =>
    cases step with
    | key name => simp [Node.sanitize, Node.step?]
    | item index => simp [Node.sanitize, Node.step?, PathStep.isReserved, sanitizeList_eq]
  | scalar s => simp [Node.sanitize, Node.step?]
  | stray value => simp [Node.sanitize, Node.step?]

/-- A path leads to the sanitized node, unless it meets a reserved key. -/
theorem at?_sanitize (node : Node) (path : Path) :
    node.sanitize.at? path
      = if path.any PathStep.isReserved then none else (node.at? path).map Node.sanitize := by
  induction path generalizing node with
  | nil => rfl
  | cons step rest ih =>
    rw [Node.at?_cons, Node.at?_cons, step?_sanitize, List.any_cons]
    by_cases hstep : step.isReserved
    · simp [hstep]
    · cases hnode : node.step? step with
      | none => simp
      | some child => simpa [hstep] using ih child

/-- The paths of a sanitized body are those of the body that meet no reserved key. Each leads to a
node of the kind it led to, with the keys that stay in their order. Sanitizing it again changes
nothing, and so a resource is built from it, or refused, as from the body. -/
theorem sanitize_paths (body : Body) :
    (∀ path : Path,
      (((Node.map body.sanitize).at? path).isSome
        ↔ ((Node.map body).at? path).isSome ∧ ∀ step ∈ path, step.isReserved = false)
      ∧ ∀ node kept, (Node.map body).at? path = some node →
        (Node.map body.sanitize).at? path = some kept → node.KeepsKind kept)
    ∧ body.sanitize.sanitize = body.sanitize
    ∧ ∀ place type name,
      Resource.ofBlock place type name body.sanitize = Resource.ofBlock place type name body := by
  have hpath : ∀ path : Path, (Node.map body.sanitize).at? path
      = if path.any PathStep.isReserved then none
        else ((Node.map body).at? path).map Node.sanitize := at?_sanitize (.map body)
  have htwice : body.sanitize.sanitize = body.sanitize := sanitizeEntries_sanitizeEntries body
  refine ⟨fun path => ⟨?_, fun node kept hnode hkept => ?_⟩, htwice, fun place type name => ?_⟩
  · rw [hpath]
    by_cases hreserved : path.any PathStep.isReserved
    · obtain ⟨step, hstep, htrue⟩ := List.any_eq_true.mp hreserved
      rw [if_pos hreserved]
      refine ⟨fun h => by simp at h, fun h => ?_⟩
      rw [h.2 step hstep] at htrue
      exact absurd htrue Bool.false_ne_true
    · have hopen : ∀ step ∈ path, step.isReserved = false := by simpa using hreserved
      rw [if_neg hreserved, Option.isSome_map, and_iff_left hopen]
  · rw [hpath, hnode] at hkept
    split_ifs at hkept
    rw [← Option.some.inj hkept]
    exact keepsKind_sanitize node
  · rw [Resource.ofBlock, Resource.ofBlock, htwice]

/-- A block with the lines noted by the parser, at two depths, and two keys that look like them. -/
def linedBlock : Body := [("__start_line__", .scalar (.int 1)),
  ("ingress", .list [.map [("__owner", .scalar (.text "ops")), ("__start_line__", .scalar (.int 2)),
    ("port", .scalar (.int 22))], .scalar .null]), ("____", .scalar (.bool true)),
  ("__end_line__", .scalar (.int 5))]

theorem sanitize_paths_linedBlock :
    ∃ node kept, (Node.map linedBlock).at? [.key "ingress", .item 0] = some node
      ∧ (Node.map linedBlock.sanitize).at? [.key "ingress", .item 0] = some kept
      ∧ node.KeepsKind kept
      ∧ kept = .map [("__owner", .scalar (.text "ops")), ("port", .scalar (.int 22))] :=
  ⟨_, _, rfl, rfl, ((sanitize_paths linedBlock).1 [.key "ingress", .item 0]).2 _ _ rfl rfl, rfl⟩

end Paths

end TerraIndex
