import TerraIndex.Proofs.Document.Keys
import TerraIndex.Proofs.Entity.Rows
import TerraIndex.Proofs.Listing.Definitions
import TerraIndex.Proofs.Listing.Plan
import TerraIndex.Proofs.Listing.State
/-!
# What listed entities are built from

Every entity that is listed from a configuration is built from a body of its tree without the
reserved keys (`builtFrom_listed`). In every file an entity is listed from a site (`exists_site`),
which has the properties of the tree that it holds parts of (`holds_sites`), and it is given a place
there (`place_of_tries`).
-/

namespace TerraIndex

open Json

section Bodies

/-- The attempt on a block builds an entity from the body of the block. -/
theorem tries_builtFrom {file : SourceFile} {kind : ListKind} {block : ConfigBlock}
    {entity : Entity} (h : file.Tries kind (.block block) (.ok entity)) :
    ∃ body, (body = block.body ∨ body = block.body.sanitize)
      ∧ entity.BuiltFrom kind.blockType body := by
  generalize hattempt : Except.ok entity = attempt at h
  cases h with
  | resource hlabels =>
    obtain ⟨r, hr, rfl⟩ := map_ok hattempt.symm
    exact ⟨_, .inr rfl, builtFrom_resource hr⟩
  | dataSource hlabels =>
    obtain ⟨d, hd, rfl⟩ := map_ok hattempt.symm
    exact ⟨_, .inl rfl, builtFrom_dataSource hd⟩
  | module hlabels =>
    obtain ⟨m, hm, rfl⟩ := map_ok hattempt.symm
    exact ⟨_, .inl rfl, builtFrom_module hm⟩
  | provider hlabels =>
    obtain ⟨p, hp, rfl⟩ := map_ok hattempt.symm
    exact ⟨_, .inl rfl, builtFrom_provider hp⟩
  | output hlabels =>
    obtain ⟨o, ho, rfl⟩ := map_ok hattempt.symm
    exact ⟨_, .inl rfl, builtFrom_output ho⟩
  | _ =>
    obtain ⟨v, hv, rfl⟩ := map_ok hattempt.symm
    exact ⟨_, .inl rfl, builtFrom_variable hv⟩

namespace SourceFile

variable {file : SourceFile} {kind : ListKind} {entity : Entity}

/-- A local value is built from an entry of the body of its block. -/
theorem localSteps_builtFrom {block : ConfigBlock} (h : .ok (.ok entity) ∈ file.localSteps block) :
    entity.BuiltFrom "locals" block.body := by
  obtain ⟨⟨name, value⟩, hentry, h⟩ := List.mem_map.mp h
  obtain ⟨span, -, h⟩ := bind_ok h
  obtain ⟨l, hl, rfl⟩ := map_ok (Except.ok.inj h)
  exact builtFrom_localValue hentry hl

/-- Entities of a configuration are built from bodies of its tree, without the reserved keys. -/
theorem builtFrom_listed (hconfig : file.kind = .config)
    (h : entity ∈ (file.listing kind).entities) :
    ∃ depth, ∃ source ∈ labelledBodies file.tree kind.blockType depth,
      entity.BuiltFrom kind.blockType source.2.sanitize := by
  have hstep := mem_ofSteps h
  by_cases hkind : kind = .localValue
  · rw [hkind, steps] at hstep
    simp only [if_pos hconfig] at hstep
    obtain ⟨block, hblock, hstep⟩ := List.mem_flatMap.mp hstep
    obtain ⟨source, hsource, hbody⟩ := exists_source hblock
    refine ⟨0, source, ?_⟩
    rw [hkind, ← hbody]
    exact ⟨hsource, localSteps_builtFrom hstep⟩
  · obtain ⟨site, hsite, attempt, htries, hattempt⟩ :=
      forall₂_mem_right (configSteps_tries hconfig kind fun h => absurd h hkind) hstep
    obtain rfl := Attempt.of_step hattempt.symm
    rw [configSites_eq hkind] at hsite
    obtain ⟨block, hblock, rfl⟩ := List.mem_map.mp hsite
    obtain ⟨source, hsource, hbody⟩ := exists_source hblock
    obtain ⟨body, hbodies, hbuilt⟩ := tries_builtFrom htries
    have hsame : body = source.2.sanitize := by
      rcases hbodies with rfl | rfl
      · exact hbody
      · rw [hbody]
        exact sanitizeEntries_sanitizeEntries source.2
    exact ⟨_, source, hsource, hsame ▸ hbuilt⟩

end SourceFile

end Bodies

/-- All that a site holds has the property. -/
def Site.Holds (P : Scalar → Prop) : Site → Prop
  | .block b => (Node.map b.body).Holds P
  | .localEntry _ name value => (Node.map [(name, value)]).Holds P
  | .planned entry => (Node.map entry).Holds P
  | .stateInstance resource inst => (Node.map resource).Holds P ∧ (Node.map inst).Holds P
  | .noInstances _ => True
  | .exported _ body => (Node.map body).Holds P

section Sites

variable {P : Scalar → Prop}

theorem map_fst_sanitizeEntries (body : Body) :
    ((Node.sanitizeEntries body).map Prod.fst).Sublist (body.map Prod.fst) := by
  rw [← Body.sanitize, map_fst_sanitize]
  exact List.filter_sublist

mutual

theorem sanitize_holds : ∀ {node : Node}, node.Holds P → node.sanitize.Holds P
  | .scalar _, h => h
  | .stray _, h => h
  | .list items, h => sanitizeList_holds items h
  | .map entries, h =>
    ⟨h.1.sublist (map_fst_sanitizeEntries entries), sanitizeEntries_holds entries h.2⟩

theorem sanitizeList_holds : ∀ (nodes : List Node), itemsHold P nodes →
    itemsHold P (Node.sanitizeList nodes)
  | [], _ => trivial
  | _ :: nodes, h => ⟨sanitize_holds h.1, sanitizeList_holds nodes h.2⟩

theorem sanitizeEntries_holds : ∀ (body : Body), valuesHold P body →
    valuesHold P (Node.sanitizeEntries body)
  | [], _ => trivial
  | (key, node) :: body, h => by
    rw [Node.sanitizeEntries]
    split_ifs
    · exact sanitizeEntries_holds body h.2
    · exact ⟨sanitize_holds h.1, sanitizeEntries_holds body h.2⟩

end

/-- The parts of a tree have the properties of the tree. -/
theorem Node.HasPart.holds {tree node : Node} (h : tree.HasPart node) (htree : tree.Holds P) :
    node.Holds P := by
  induction h with
  | whole => exact htree
  | item _ hitem ih => exact (itemsHold_iff _).mp ih _ hitem
  | value _ hentry ih => exact (valuesHold_iff _).mp ih.2 _ hentry
  | sanitized _ ih => exact sanitize_holds ih

theorem child?_holds {body : Body} {key : String} {node : Node} (hbody : valuesHold P body)
    (h : body.child? key = some node) : node.Holds P :=
  (valuesHold_iff body).mp hbody _ (mem_of_entryAt? h)

theorem labelledBodies_holds {tree : Body} {kind : String} {depth : Nat}
    {source : List String × Body} (htree : (Node.map tree).Holds P)
    (h : source ∈ labelledBodies tree kind depth) : (Node.map source.2).Holds P :=
  (labelledBodies_part .whole h).holds htree

theorem Site.PartOf.holds {tree : Node} {site : Site} (h : site.PartOf tree)
    (htree : tree.Holds P) : site.Holds P := by
  cases site with
  | localEntry block name value =>
    have hvalue : tree.HasPart value := h
    exact ⟨List.nodup_singleton name, hvalue.holds htree, trivial⟩
  | stateInstance resource inst => exact ⟨h.1.holds htree, h.2.holds htree⟩
  | noInstances resource => trivial
  | block b => exact Node.HasPart.holds h htree
  | planned entry => exact Node.HasPart.holds h htree
  | exported name body => exact Node.HasPart.holds h htree

namespace SourceFile

variable {file : SourceFile} {kind : ListKind} {site : Site} {entity : Entity}

theorem holds_sites (h : (Node.map file.tree).Holds P) (kind : ListKind) :
    ∀ site ∈ file.sites kind, site.Holds P :=
  fun site hsite => (parts_sites kind site hsite).holds h

/-- Every step that is an attempt is the attempt on a site. -/
theorem exists_site {attempt : Attempt} (h : .ok attempt ∈ file.steps kind) :
    ∃ site ∈ file.sites kind, file.Tries kind site attempt := by
  by_cases hlocals : kind = .localValue ∧ file.kind = .config
  · -- the steps on local values are attempts only as long as no line is missing
    obtain ⟨rfl, hconfig⟩ := hlocals
    simp only [steps, if_pos hconfig] at h
    obtain ⟨block, hblock, h⟩ := List.mem_flatMap.mp h
    obtain ⟨⟨name, value⟩, hentry, h⟩ := List.mem_map.mp h
    obtain ⟨span, hspan, h⟩ := bind_ok h
    cases h
    refine ⟨.localEntry block name value, ?_, .localValue (mapError_ok hspan)⟩
    rw [sites, if_pos hconfig]
    exact List.mem_flatMap.mpr ⟨block, hblock, List.mem_map.mpr ⟨_, hentry, rfl⟩⟩
  · have htries : List.Forall₂ (file.TriesStep kind) (file.sites kind) (file.steps kind) := by
      unfold sites
      split_ifs with hconfig
      · exact configSteps_tries hconfig kind fun hkind => absurd ⟨hkind, hconfig⟩ hlocals
      · exact exportSteps_tries hconfig kind
    obtain ⟨site, hsite, other, hother, hstep⟩ := forall₂_mem_right htries h
    exact ⟨site, hsite, Attempt.of_step hstep.symm ▸ hother⟩

end SourceFile

section Entities

/-- An entity is made of what has the property. -/
def Entity.Holds (P : Scalar → Prop) (entity : Entity) : Prop :=
  ∃ plain nodes, entity.MadeOf plain nodes ∧ (Node.map plain).Holds P ∧ ∀ node ∈ nodes, node.Holds P

theorem Entity.BuiltFrom.holds {type : String} {body : Body} {entity : Entity}
    (h : entity.BuiltFrom type body) (hbody : (Node.map body).Holds P) : entity.Holds P := by
  refine ⟨_, _, h, ⟨?_, (valuesHold_iff _).mpr fun entry hentry => ?_⟩, ?_⟩
  · exact hbody.1.sublist (List.filter_sublist.map Prod.fst)
  · exact (valuesHold_iff body).mp hbody.2 entry (List.mem_filter.mp hentry).1
  · exact List.forall_mem_map.mpr ((valuesHold_iff body).mp hbody.2)

/-- Where no node is, there are no entries to be taken. -/
theorem Taken.holds {node : Option Node} {source : Body} (h : Taken node source)
    (hnode : ∀ n ∈ node, n.Holds P) : (Node.map source).Holds P := by
  cases h with
  | missing => exact ⟨.nil, trivial⟩
  | map entries => exact hnode _ rfl

namespace SourceFile

variable {file : SourceFile} {kind : ListKind} {site : Site} {entity : Entity}

theorem holds_of_tries (hsite : site.Holds P) (h : file.Tries kind site (.ok entity)) :
    entity.Holds P := by
  cases site with
  | block block =>
    obtain ⟨body, rfl | rfl, hbuilt⟩ := tries_builtFrom h
    · exact hbuilt.holds hsite
    · have hbody : (Node.map block.body).Holds P := hsite
      exact hbuilt.holds (sanitize_holds hbody)
  | localEntry block name value =>
    generalize hattempt : Except.ok entity = attempt at h
    cases h with
    | localValue hspan =>
      obtain ⟨l, hl, rfl⟩ := map_ok hattempt.symm
      exact (builtFrom_localValue (List.mem_singleton_self _) hl).holds hsite
  | planned entry =>
    generalize hattempt : Except.ok entity = attempt at h
    cases h with
    | planned =>
      obtain ⟨r, hr, rfl⟩ := map_ok hattempt.symm
      obtain ⟨source, -, htaken, -, -, -, hmade⟩ := madeOf_planned hr
      exact ⟨source, _, hmade, htaken.holds fun n hn => child?_holds hsite.2 (present?_some hn),
        List.forall_mem_map.mpr ((valuesHold_iff entry).mp hsite.2)⟩
  | stateInstance resource inst =>
    generalize hattempt : Except.ok entity = attempt at h
    cases h with
    | stateInstance =>
      obtain ⟨r, hr, rfl⟩ := map_ok hattempt.symm
      obtain ⟨source, -, htaken, -, -, -, hmade⟩ := madeOf_instance hr
      refine ⟨source, _, hmade, htaken.holds fun n hn => ?_, List.forall_mem_append.mpr
        ⟨List.forall_mem_map.mpr ((valuesHold_iff resource).mp hsite.1.2),
          List.forall_mem_map.mpr ((valuesHold_iff inst).mp hsite.2.2)⟩⟩
      rcases Option.or_eq_some_iff.mp hn with hn | ⟨-, hn⟩
      · exact child?_holds hsite.2.2 (present?_some hn)
      · exact child?_holds hsite.2.2 (present?_some hn)
  | noInstances resource => nomatch h
  | exported name body =>
    generalize hattempt : Except.ok entity = attempt at h
    cases h with
    | exportedOutput =>
      obtain ⟨o, ho, rfl⟩ := map_ok hattempt.symm
      exact (builtFrom_output ho).holds hsite
    | exportedVariable =>
      obtain ⟨v, hv, rfl⟩ := map_ok hattempt.symm
      exact (builtFrom_variable hv).holds hsite

/-- A place that a file gives to what is built from it. -/
inductive Gives (file : SourceFile) (place : Located) : Prop
  | block {type : String} {block : ConfigBlock} (hplace : place = file.blockPlace type block)
  | entry {n : Int} {name : String} {span : Span}
    (hspan : file.configText.locateAttribute (file.configText.locate "locals" [] n) name
      = .ok span) (hplace : place = ⟨file.path, span⟩)
  | exported {type : String} {labels : List String}
    (hplace : place = file.exportPlace type labels)

theorem place_of_tries (h : file.Tries kind site (.ok entity)) : file.Gives entity.place := by
  generalize hattempt : Except.ok entity = attempt at h
  cases h with
  | resource =>
    obtain ⟨r, hr, rfl⟩ := map_ok hattempt.symm
    obtain ⟨done, -, hr⟩ := bind_ok hr
    cases hr
    exact .block rfl
  | dataSource =>
    obtain ⟨d, hd, rfl⟩ := map_ok hattempt.symm
    obtain ⟨done, -, hd⟩ := bind_ok hd
    cases hd
    exact .block rfl
  | module =>
    obtain ⟨m, hm, rfl⟩ := map_ok hattempt.symm
    obtain ⟨done, -, hm⟩ := bind_ok hm
    cases hm
    exact .block rfl
  | provider =>
    obtain ⟨p, hp, rfl⟩ := map_ok hattempt.symm
    obtain ⟨done, -, hp⟩ := bind_ok hp
    cases hp
    exact .block rfl
  | output =>
    obtain ⟨o, ho, rfl⟩ := map_ok hattempt.symm
    obtain ⟨done, -, ho⟩ := bind_ok ho
    cases ho
    exact .block rfl
  | «variable» =>
    obtain ⟨v, hv, rfl⟩ := map_ok hattempt.symm
    obtain ⟨done, -, hv⟩ := bind_ok hv
    cases hv
    exact .block rfl
  | localValue hspan =>
    obtain ⟨l, hl, rfl⟩ := map_ok hattempt.symm
    obtain ⟨text, -, hl⟩ := bind_ok hl
    cases hl
    exact .entry hspan rfl
  | planned =>
    obtain ⟨r, hr, rfl⟩ := map_ok hattempt.symm
    exact .exported (Plan.place_ofPlan hr)
  | stateInstance =>
    obtain ⟨r, hr, rfl⟩ := map_ok hattempt.symm
    exact .exported (State.place_ofInstance hr)
  | exportedOutput =>
    obtain ⟨o, ho, rfl⟩ := map_ok hattempt.symm
    obtain ⟨done, -, ho⟩ := bind_ok ho
    cases ho
    exact @Gives.exported _ _ "output" [_] rfl
  | exportedVariable =>
    obtain ⟨v, hv, rfl⟩ := map_ok hattempt.symm
    obtain ⟨done, -, hv⟩ := bind_ok hv
    cases hv
    exact @Gives.exported _ _ "variable" [_] rfl
  | noInstances => cases hattempt

/-- What is listed is made of parts of the tree and lies at a place of the file. -/
theorem holds_listed (htree : (Node.map file.tree).Holds P)
    (h : entity ∈ (file.listing kind).entities) : entity.Holds P ∧ file.Gives entity.place := by
  obtain ⟨site, hsite, htries⟩ := exists_site (mem_ofSteps h)
  exact ⟨holds_of_tries (holds_sites htree kind site hsite) htries, place_of_tries htries⟩

end SourceFile

end Entities

end Sites

end TerraIndex
