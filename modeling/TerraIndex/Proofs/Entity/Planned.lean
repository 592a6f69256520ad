import TerraIndex.Entity.Export
import TerraIndex.Proofs.Document.Paths
import Mathlib.Data.List.Sort
/-!
# Where a plan is visited

A spot is a place for a planned resource: an index in the list of its module, and the indexes of
the child modules that lead there from the root module. The entries of a plan are the maps at its
spots, each visited once and in the order `Spot.Before`. What stands at a spot is visited or not
whatever stands at others (`entries_visits`).
-/

namespace TerraIndex.Plan

inductive Spot
  | own (index : Nat)
  | child (index : Nat) (spot : Spot)
deriving DecidableEq

namespace Spot

/-- The path from a module to a spot in it. -/
def pathBelow : Spot → Path
  | own index => [.key "resources", .item index]
  | child index spot => .key "child_modules" :: .item index :: spot.pathBelow

def path (spot : Spot) : Path := .key "planned_values" :: .key "root_module" :: spot.pathBelow

/-- The order of visits: the resources of a module in list order, then its child modules in list
order, each as a whole. -/
inductive Before : Spot → Spot → Prop
  | resources {i j : Nat} (h : i < j) : Before (own i) (own j)
  | ownFirst {i j : Nat} {spot : Spot} : Before (own i) (child j spot)
  | modules {i j : Nat} {spot other : Spot} (h : i < j) : Before (child i spot) (child j other)
  | within {i : Nat} {spot other : Spot} (h : Before spot other) :
    Before (child i spot) (child i other)

theorem Before.asymm {spot other : Spot} (h : spot.Before other) : ¬ other.Before spot := by
  induction h with
  | resources h =>
    rintro (h' | _)
    omega
  | ownFirst => rintro ⟨⟩
  | modules h =>
    rintro (_ | _ | h' | _) <;> omega
  | within _ ih =>
    rintro (_ | _ | h' | h')
    · omega
    · exact ih h'

theorem Before.ne {spot other : Spot} (h : spot.Before other) : spot ≠ other := by
  rintro rfl
  exact h.asymm h

end Spot

section Visits

/-- The list has what stands at the spots, each once and in order. -/
structure Visits (stands : Spot → Body → Prop) (visits : List (Spot × Body)) : Prop where
  mem_iff : ∀ {spot body}, (spot, body) ∈ visits ↔ stands spot body
  ordered : visits.Pairwise fun visit next => visit.1.Before next.1

/-- The bodies are what stands at the spots, in order. -/
def Found (stands : Spot → Body → Prop) (bodies : List Body) : Prop :=
  ∃ visits, Visits stands visits ∧ bodies = visits.map Prod.snd

section Found

variable {stands others : Spot → Body → Prop} {bodies more : List Body}

theorem Found.congr (h : Found stands bodies)
    (hiff : ∀ spot body, others spot body ↔ stands spot body) : Found others bodies := by
  obtain ⟨visits, hvisits, hbodies⟩ := h
  exact ⟨visits, ⟨hvisits.mem_iff.trans (hiff _ _).symm, hvisits.ordered⟩, hbodies⟩

theorem found_nil (h : ∀ spot body, ¬ stands spot body) : Found stands [] :=
  ⟨[], ⟨⟨fun hmem => absurd hmem List.not_mem_nil, fun hstands => absurd hstands (h _ _)⟩, .nil⟩,
    rfl⟩

theorem found_singleton (spot : Spot) (body : Body) :
    Found (fun s b => s = spot ∧ b = body) [body] :=
  ⟨[(spot, body)], ⟨by simp, List.pairwise_singleton _ _⟩, rfl⟩

/-- What is found first stands before what is found then. -/
theorem Found.append (h : Found stands bodies) (hmore : Found others more)
    (hbefore : ∀ {spot body other added}, stands spot body → others other added →
      spot.Before other) :
    Found (fun spot body => stands spot body ∨ others spot body) (bodies ++ more) := by
  obtain ⟨visits, hvisits, rfl⟩ := h
  obtain ⟨added, hadded, rfl⟩ := hmore
  refine ⟨visits ++ added, ⟨?_, ?_⟩, List.map_append.symm⟩
  · intro spot body
    rw [List.mem_append, hvisits.mem_iff, hadded.mem_iff]
  · refine List.pairwise_append.mpr ⟨hvisits.ordered, hadded.ordered, ?_⟩
    exact fun visit hvisit next hnext =>
      hbefore (hvisits.mem_iff.mp hvisit) (hadded.mem_iff.mp hnext)

/-- What a child module holds, seen from the module. -/
theorem Found.child (h : Found stands bodies) (index : Nat) :
    Found (fun spot body => ∃ below, spot = .child index below ∧ stands below body) bodies := by
  obtain ⟨visits, hvisits, rfl⟩ := h
  refine ⟨visits.map (Prod.map (.child index) id), ⟨?_, ?_⟩, by rw [List.map_map]; rfl⟩
  · intro spot body
    simp only [List.mem_map, Prod.exists, Prod.map_apply, id, Prod.mk.injEq]
    constructor
    · rintro ⟨below, _, hmem, rfl, rfl⟩
      exact ⟨below, rfl, hvisits.mem_iff.mp hmem⟩
    · rintro ⟨below, rfl, hstands⟩
      exact ⟨below, body, hvisits.mem_iff.mpr hstands, rfl, rfl⟩
  · rw [List.pairwise_map]
    exact hvisits.ordered.imp fun h => .within h

end Found

end Visits

section Modules

/-- The resource stands at the spot of the module. -/
def Within (module : Node) (spot : Spot) (body : Body) : Prop :=
  module.at? spot.pathBelow = some (.map body)

/-- The resource is an element of the list, its index counted from the first one. -/
def AmongOwn (first : Nat) (items : List Node) (spot : Spot) (body : Body) : Prop :=
  ∃ i, spot = .own (first + i) ∧ items[i]? = some (.map body)

/-- The resource stands in a module of the list, its index counted from the first one. -/
def AmongChildren (first : Nat) (items : List Node) (spot : Spot) (body : Body) : Prop :=
  ∃ i module below, spot = .child (first + i) below ∧ items[i]? = some module
    ∧ Within module below body

theorem amongOwn_cons {first : Nat} {item : Node} {items : List Node} {spot : Spot} {body : Body} :
    AmongOwn first (item :: items) spot body
      ↔ (spot = .own first ∧ item = .map body) ∨ AmongOwn (first + 1) items spot body := by
  constructor
  · rintro ⟨_ | i, rfl, hitem⟩
    · exact .inl ⟨rfl, Option.some.inj hitem⟩
    · exact .inr ⟨i, congrArg Spot.own (by omega), hitem⟩
  · rintro (⟨rfl, rfl⟩ | ⟨i, rfl, hitem⟩)
    · exact ⟨0, rfl, rfl⟩
    · exact ⟨i + 1, congrArg Spot.own (by omega), hitem⟩

theorem amongChildren_cons {first : Nat} {item : Node} {items : List Node} {spot : Spot}
    {body : Body} : AmongChildren first (item :: items) spot body
      ↔ (∃ below, spot = .child first below ∧ Within item below body)
        ∨ AmongChildren (first + 1) items spot body := by
  constructor
  · rintro ⟨_ | i, module, below, rfl, hitem, hwithin⟩
    · exact .inl ⟨below, rfl, Option.some.inj hitem ▸ hwithin⟩
    · exact .inr ⟨i, module, below, congrArg (Spot.child · below) (by omega), hitem, hwithin⟩
  · rintro (⟨below, rfl, hwithin⟩ | ⟨i, module, below, rfl, hitem, hwithin⟩)
    · exact ⟨0, item, below, rfl, rfl, hwithin⟩
    · exact ⟨i + 1, module, below, congrArg (Spot.child · below) (by omega), hitem, hwithin⟩

/-- A module holds its own resources and those of its child modules. -/
theorem within_map {entries : Body} {spot : Spot} {body : Body} : Within (.map entries) spot body
    ↔ (∃ items, entryAt? entries "resources" = some (.list items) ∧ AmongOwn 0 items spot body)
      ∨ ∃ items, entryAt? entries "child_modules" = some (.list items)
        ∧ AmongChildren 0 items spot body := by
  cases spot with
  | own index =>
    have hpath : Within (.map entries) (.own index) body ↔ ∃ items,
        entryAt? entries "resources" = some (.list items) ∧ items[index]? = some (.map body) := by
      simp only [Within, Spot.pathBelow, Node.at?_cons, Node.at?_nil, Option.bind_eq_some_iff,
        Node.step?_key_eq_some, Node.step?_item_eq_some]
      grind
    rw [hpath]
    simp [AmongOwn, AmongChildren]
  | child index below =>
    have hpath : Within (.map entries) (.child index below) body ↔ ∃ items module,
        entryAt? entries "child_modules" = some (.list items) ∧ items[index]? = some module
          ∧ Within module below body := by
      simp only [Within, Spot.pathBelow, Node.at?_cons, Option.bind_eq_some_iff,
        Node.step?_key_eq_some, Node.step?_item_eq_some]
      grind
    rw [hpath]
    simp [AmongOwn, AmongChildren]

theorem found_own (items : List Node) :
    ∀ first, Found (AmongOwn first items) (items.filterMap Node.map?) := by
  induction items with
  | nil => exact fun first => found_nil fun spot body => by simp [AmongOwn]
  | cons item items ih =>
    intro first
    have hrest := ih (first + 1)
    cases item with
    | map entries =>
      refine ((found_singleton (.own first) entries).append hrest ?_).congr fun spot body => ?_
      · rintro _ _ _ _ ⟨rfl, -⟩ ⟨i, rfl, -⟩
        exact .resources (by omega)
      · rw [amongOwn_cons, Node.map.injEq, @eq_comm _ entries]
    | _ => exact hrest.congr fun spot body => by simp [amongOwn_cons]

theorem found_maps (node : Option Node) :
    Found (fun spot body => ∃ items, node = some (.list items) ∧ AmongOwn 0 items spot body)
      (maps node) := by
  unfold maps
  split
  · rename_i items
    exact (found_own items 0).congr fun spot body => by simp
  · rename_i hnode
    exact found_nil fun spot body => by
      rintro ⟨items, rfl, -⟩
      exact hnode items rfl

theorem not_within {module : Node} {spot : Spot} {body : Body}
    (h : ∀ entries, module ≠ .map entries) : ¬ Within module spot body := by
  intro hwithin
  cases spot <;>
    simp only [Within, Spot.pathBelow, Node.at?_cons, Option.bind_eq_some_iff,
      Node.step?_key_eq_some] at hwithin <;>
    obtain ⟨_, ⟨entries, rfl, _⟩, _⟩ := hwithin <;>
    exact h entries rfl

mutual

theorem found_module : ∀ module : Node, Found (Within module) (moduleEntries module)
  | .map entries => by
    rw [moduleEntries]
    refine ((found_maps (entryAt? entries "resources")).append (found_children entries) ?_).congr
      fun spot body => within_map
    rintro _ _ _ _ ⟨_, -, i, rfl, -⟩ ⟨_, -, j, _, below, rfl, -⟩
    exact .ownFirst
  | .list _ => found_nil fun _ _ => not_within nofun
  | .scalar _ => found_nil fun _ _ => not_within nofun
  | .stray _ => found_nil fun _ _ => not_within nofun

/-- Only the first entry under the key counts, as it does for a path. -/
theorem found_children : ∀ entries : List (String × Node),
    Found (fun spot body => ∃ items, entryAt? entries "child_modules" = some (.list items)
      ∧ AmongChildren 0 items spot body) (childEntries entries)
  | [] => found_nil fun spot body => by simp [entryAt?]
  | (key, node) :: rest => by
    rw [childEntries]
    split_ifs with hkey
    · exact (found_list node).congr fun spot body => by simp [entryAt?, hkey]
    · exact (found_children rest).congr fun spot body => by simp [entryAt?, hkey]

theorem found_list : ∀ node : Node, Found (fun spot body => ∃ items, node = .list items
    ∧ AmongChildren 0 items spot body) (listEntries node)
  | .list items => (found_modules items 0).congr fun spot body => by simp
  | .map _ => found_nil fun _ _ => by simp
  | .scalar _ => found_nil fun _ _ => by simp
  | .stray _ => found_nil fun _ _ => by simp

theorem found_modules : ∀ (items : List Node) (first : Nat),
    Found (AmongChildren first items) (itemsEntries items)
  | [], first => found_nil fun spot body => by simp [AmongChildren]
  | item :: items, first => by
    refine (((found_module item).child first).append (found_modules items (first + 1)) ?_).congr
      fun spot body => amongChildren_cons
    rintro _ _ _ _ ⟨below, rfl, -⟩ ⟨i, _, _, rfl, -⟩
    exact .modules (by omega)

end

end Modules

/-- The resource stands at the spot of the plan. -/
def Planned (tree : Body) (spot : Spot) (body : Body) : Prop :=
  (Node.map tree).at? spot.path = some (.map body)

theorem planned_iff {tree : Body} {spot : Spot} {body : Body} : Planned tree spot body
    ↔ ∃ planned root, tree.child? "planned_values" = some (.map planned)
      ∧ entryAt? planned "root_module" = some root ∧ Within root spot body := by
  simp only [Planned, Spot.path, Node.at?_cons, Option.bind_eq_some_iff, Node.step?_key_eq_some,
    Within, Body.child?]
  grind

theorem found_entries (tree : Body) : Found (Planned tree) (entries tree) := by
  unfold entries
  split
  · rename_i planned hplanned
    split
    · rename_i root hroot
      exact (found_module root).congr fun spot body => by simp [planned_iff, hplanned, hroot]
    · rename_i hroot
      exact found_nil fun spot body => by simp [planned_iff, hplanned, hroot]
  · rename_i hplanned
    refine found_nil fun spot body h => ?_
    obtain ⟨planned, _, htree, -⟩ := planned_iff.mp h
    exact hplanned planned htree

/-- The visits that the plans have in common are the same. -/
theorem Visits.filter_eq {stands others : Spot → Body → Prop} {visits added : List (Spot × Body)}
    (h : Visits stands visits) (hadded : Visits others added) {p : Spot → Bool}
    (hagree : ∀ spot body, p spot = true → (others spot body ↔ stands spot body)) :
    (added.filter fun visit => p visit.1) = visits.filter fun visit => p visit.1 := by
  let earlier : Spot × Body → Spot × Body → Prop := fun visit next => visit.1.Before next.1
  have hasymm : Std.Antisymm earlier := ⟨fun _ _ hab hba => absurd hba hab.asymm⟩
  have hirrefl : Std.Irrefl earlier := ⟨fun _ haa => haa.asymm haa⟩
  refine List.Pairwise.eq_of_mem_iff (r := earlier) (hadded.ordered.filter _)
    (h.ordered.filter _) fun ⟨spot, body⟩ => ?_
  simp only [List.mem_filter, h.mem_iff, hadded.mem_iff]
  exact and_congr_left fun hp => hagree spot body hp

/-- The entries of a plan are the maps that stand at its spots, each visited once: a module's own
resources in list order, then those of its child modules in list order. Where two plans hold the
same at some spots, the visits there are the same, whatever they hold elsewhere. -/
theorem entries_visits (tree : Body) :
    ∃ visits : List (Spot × Body), entries tree = visits.map Prod.snd
      ∧ Visits (Planned tree) visits
      ∧ (visits.map Prod.fst).Nodup
      ∧ ∀ (other : Body) (p : Spot → Bool),
        (∀ spot, p spot = true →
          (Node.map other).at? spot.path = (Node.map tree).at? spot.path) →
        ∃ added : List (Spot × Body), entries other = added.map Prod.snd
          ∧ Visits (Planned other) added
          ∧ (added.filter fun visit => p visit.1) = visits.filter fun visit => p visit.1 := by
  obtain ⟨visits, hvisits, hentries⟩ := found_entries tree
  refine ⟨visits, hentries, hvisits, ?_, fun other p hagree => ?_⟩
  · exact List.pairwise_map.mpr (hvisits.ordered.imp fun h => h.ne)
  · obtain ⟨added, hadded, hothers⟩ := found_entries other
    refine ⟨added, hothers, hadded, hvisits.filter_eq hadded fun spot body hp => ?_⟩
    rw [Planned, Planned, hagree spot hp]

def entryNamed (name : String) : Node := .map [("name", .scalar (.text name))]

/-- A plan whose second child module is given. Beside it stand elements that are no maps. -/
def planAround (module : Node) : Body :=
  [("planned_values", .map [("root_module", .map [
    ("child_modules", .list [.map [("resources", .list [entryNamed "queue"])], module,
      .map [("resources", .map []), ("child_modules", .list [.scalar .null,
        .map [("resources", .list [.list [], entryNamed "topic"])]])]]),
    ("resources", .list [entryNamed "web", .scalar (.int 5), entryNamed "db"])])])]

def keyModule : Node := .map [("resources", .list [entryNamed "key"])]

/-- The spots outside the second child module. -/
def outsideSecond : Spot → Bool
  | .child 1 _ => false
  | _ => true

theorem agree_outsideSecond (module other : Node) (spot : Spot) (h : outsideSecond spot = true) :
    (Node.map (planAround other)).at? spot.path = (Node.map (planAround module)).at? spot.path := by
  match spot with
  | .own _ => rfl
  | .child 0 _ => rfl
  | .child 1 _ => cases h
  | .child (index + 2) _ => rfl

theorem entries_visits_brokenModule :
    (∀ spot, outsideSecond spot = true → (Node.map (planAround (.scalar .null))).at? spot.path
        = (Node.map (planAround keyModule)).at? spot.path)
      ∧ ∃ visits added : List (Spot × Body),
        entries (planAround keyModule) = visits.map Prod.snd
        ∧ entries (planAround (.scalar .null)) = added.map Prod.snd
        ∧ (added.filter fun visit => outsideSecond visit.1)
          = visits.filter fun visit => outsideSecond visit.1 := by
  have hagree := agree_outsideSecond keyModule (.scalar .null)
  obtain ⟨visits, hentries, -, -, hothers⟩ := entries_visits (planAround keyModule)
  obtain ⟨added, hadded, -, hfilter⟩ := hothers _ outsideSecond hagree
  exact ⟨hagree, visits, added, hentries, hadded, hfilter⟩

example : (entries (planAround keyModule)).map (Body.textAt · "name" "")
      = ["web", "db", "queue", "key", "topic"]
    ∧ (entries (planAround (.scalar .null))).map (Body.textAt · "name" "")
      = ["web", "db", "queue", "topic"] := by
  decide

end TerraIndex.Plan
