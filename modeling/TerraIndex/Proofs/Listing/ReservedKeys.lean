import TerraIndex.Proofs.Listing.Origins
/-!
# Reserved keys in rows

The parser of configurations notes positions under reserved keys. No row of a configuration has such
a key, neither in one of its maps nor in the JSON that one of its texts holds. In an export such a
key is data: the attributes of a resource are listed with all their keys (`listing_keys`).
-/

namespace TerraIndex

open Json

section Keys

variable {P : String → Prop}

theorem asMap_keys {node : Node} {values : RawMap} (h : node.Keys P)
    (hvalues : node.asMap = .ok values) : entriesKeys P values := by
  have hempty : entriesKeys P [] := trivial
  cases node with
  | map entries => exact toRawEntries_keys entries h hvalues
  | list items =>
    refine foldlM_preserves hempty (fun item hitem merged next hmerged hnext => ?_) hvalues
    obtain ⟨added, hadded, hnext⟩ := bind_ok hnext
    cases hnext
    have hitem := (nodesKeys_iff items).mp h item hitem
    refine entriesKeys_merge hmerged (toRawEntries_keys _ ?_ hadded)
    cases item with
    | map entries => exact hitem
    | _ => trivial
  | scalar s =>
    cases hvalues
    exact hempty
  | stray value =>
    cases hvalues
    exact hempty

/-- All keys of the row have the property, and so have those of the JSON in its texts. -/
def Entity.RowKeys (P : String → Prop) (entity : Entity) : Prop :=
  ∀ cell ∈ entity.row, cell.2.Keys P
    ∧ (cell.1 ∈ sourceFields → ∀ s v, cell.2 = .text s → decode s.toList = .ok v → v.Keys P)

/-- What is built from a body has no other keys than the body. -/
theorem rowKeys_of_builtFrom {kind : String} {body : Body} {entity : Entity}
    (h : entity.BuiltFrom kind body) (hbody : bodyKeys P body) : entity.RowKeys P := by
  have hnodes : ∀ node ∈ body.map Prod.snd, node.Keys P := by
    intro node hnode
    obtain ⟨entry, hentry, rfl⟩ := List.mem_map.mp hnode
    exact ((bodyKeys_iff body).mp hbody entry hentry).2
  have hplain : bodyKeys P (plainEntries kind body) := (bodyKeys_iff _).mpr fun entry hentry =>
    (bodyKeys_iff body).mp hbody entry (List.mem_filter.mp hentry).1
  rintro ⟨field, value⟩ hmem
  have hcell : Cell entity field value := entity.cells _ hmem
  clear hmem
  dsimp only
  cases hcell with
  | source hs =>
    obtain ⟨node, hnode, hcanonical⟩ := h.sources _ hs
    refine ⟨trivial, fun _ s v htext hdecode => ?_⟩
    obtain rfl := Raw.text.inj htext
    exact decode_keys (hnodes node hnode) hcanonical hdecode
  | map hm =>
    refine ⟨?_, nofun⟩
    rcases h.maps _ hm with hm | ⟨node, hnode, hm⟩
    · exact toRawEntries_keys _ hplain hm
    · exact asMap_keys (hnodes node hnode) hm
  | index hfield =>
    rcases h.index with hnull | ⟨node, hnode, hraw⟩
    · rw [hnull]
      exact ⟨trivial, nofun⟩
    · refine ⟨toRaw_keys (hnodes node hnode) hraw, fun hsource => ?_⟩
      rw [hfield] at hsource
      exact absurd hsource (by decide)
  | text s hfield => exact ⟨trivial, fun hsource => absurd hsource hfield⟩
  | texts ts =>
    refine ⟨(itemsKeys_iff _).mpr fun item hitem => ?_, nofun⟩
    obtain ⟨s, -, rfl⟩ := List.mem_map.mp hitem
    trivial
  | null => exact ⟨trivial, nofun⟩
  | flag => exact ⟨trivial, nofun⟩
  | count => exact ⟨trivial, nofun⟩
  | line => exact ⟨trivial, nofun⟩

end Keys

section Attributes

/-- A field of the row and `attributes_std` hold the values of the entries that a node has, under
all their keys. -/
def Entity.Shows (entity : Entity) (field : String) (node : Option Node) : Prop :=
  ∃ source values, Taken node source ∧ Node.toRawEntries source = .ok values
    ∧ entryAt? entity.row field = some (.map values)
    ∧ entryAt? entity.row "attributes_std" = some (.map values)

/-- The attributes of a planned entry are its arguments, those of an instance its attributes.
Nothing is built from any other site of a resource in an export. -/
def Site.Shown : Site → Entity → Prop
  | .planned entry, entity => entity.Shows "arguments" (entry.present? "values")
  | .stateInstance _ inst, entity => entity.Shows "attributes" (attributesOf inst)
  | _, _ => False

namespace SourceFile

variable {file : SourceFile} {site : Site} {entity : Entity}

theorem shown_of_tries (hsite : site ∈ file.exportSites .resource)
    (h : file.Tries .resource site (.ok entity)) : site.Shown entity := by
  generalize hattempt : Except.ok entity = attempt at h
  cases h with
  | planned =>
    obtain ⟨r, hr, rfl⟩ := map_ok hattempt.symm
    obtain ⟨source, values, htaken, hvalues, harguments, hstandard, -⟩ := madeOf_planned hr
    refine ⟨source, values, htaken, hvalues, ?_, ?_⟩
    · exact congrArg some (congrArg Raw.ofMap? harguments)
    · exact congrArg some (congrArg Raw.ofMap? hstandard)
  | stateInstance =>
    obtain ⟨r, hr, rfl⟩ := map_ok hattempt.symm
    obtain ⟨source, values, htaken, hvalues, hattributes, hstandard, -⟩ := madeOf_instance hr
    refine ⟨source, values, htaken, hvalues, ?_, ?_⟩
    · exact congrArg some (congrArg Raw.ofMap? hattributes)
    · exact congrArg some (congrArg Raw.ofMap? hstandard)
  | noInstances => cases hattempt
  | resource hlabels =>
    -- no block is a site of an export
    simp only [exportSites] at hsite
    split at hsite
    · simp at hsite
    · obtain ⟨resource, -, hsite⟩ := List.mem_flatMap.mp hsite
      unfold State.sites at hsite
      split at hsite <;> simp at hsite

/-- An attempt of listing the resources of an export, with what is shown if it succeeds. -/
def Showing (file : SourceFile) (site : Site) (attempt : Attempt) : Prop :=
  file.Tries .resource site attempt ∧ ∀ entity, attempt = .ok entity → site.Shown entity

/-- No reserved key of a configuration gets into a row, and no key of the attributes of an export is
missing in one. An export is listed by the attempts on its sites, as far as the first index that
cannot be written; where there is none, as in every tree that can be written, all of them count. -/
theorem listing_keys (file : SourceFile) :
    (file.kind = .config → (Node.map file.tree).Holds Scalar.IsOwn → ∀ kind,
      ∀ entity ∈ (file.listing kind).entities, entity.RowKeys (isReserved · = false))
    ∧ (file.kind ≠ .config → ∃ attempts,
      List.Forall₂ file.Showing (file.sites .resource) attempts
      ∧ file.listing .resource
        = Listing.ofSteps .resource file.path none (attempts.map Attempt.step)
      ∧ ((∀ attempt ∈ attempts, IsNoted attempt) →
        file.listing .resource = Listing.ofAttempts .resource file.path attempts)
      ∧ ((Node.map file.tree).Writable → ∀ attempt ∈ attempts, IsNoted attempt)) := by
  refine ⟨fun hconfig htree kind entity hentity => ?_, fun hexport => ?_⟩
  · obtain ⟨depth, source, hsource, hbuilt⟩ := builtFrom_listed hconfig hentity
    have hbody := labelledBodies_holds htree hsource
    exact rowKeys_of_builtFrom hbuilt (sanitizeEntries_keys source.2 hbody.2)
  · obtain ⟨attempts, htries, hsteps⟩ := attempts_of_triesStep (exportSteps_tries hexport .resource)
    have hsites : file.sites .resource = file.exportSites .resource := if_neg hexport
    rw [← hsites] at htries
    refine ⟨attempts, ?_, by rw [listing, hsteps], fun hnoted => ?_,
      fun htree => isNoted_attempts (fun _ => htree) htries⟩
    · have htried := (List.forall₂_and_left (p := (· ∈ file.sites .resource)) _ _).mpr
        ⟨fun _ => id, htries⟩
      refine htried.imp fun site attempt h => ⟨h.2, fun entity hattempt => ?_⟩
      rw [hattempt, hsites] at h
      exact shown_of_tries h.1 h.2
    · rw [listing, hsteps, ofSteps_attempts _ _ _ _ hnoted, Option.none_or]
      rfl

end SourceFile

end Attributes

namespace ReservedKeys

def configText : List Char :=
  ("resource \"aws_instance\" \"web\" \x7b\n"
    ++ "  tags = \x7b __line__ = 1, env = \"dev\" \x7d\n\x7d\n").toList

/-- A resource with a reserved key among its tags. -/
def config : SourceFile := ⟨"main.tf", String.ofList configText, .config, [("resource",
  .list [.map [("aws_instance", .map [("web", .map [
    ("tags", .map [("__line__", .scalar (.int 1)), ("env", .scalar (.text "dev"))]),
    (Hcl.startKey, .scalar (.int 1)), (Hcl.endKey, .scalar (.int 3))])])]])]⟩

def values : Body := [("__line__", .scalar (.int 1)),
  ("tags", .list [.map [("__end__", .scalar .null)]])]

def planned : Body := [("type", .scalar (.text "aws_instance")), ("name", .scalar (.text "web")),
  ("values", .map values)]

/-- A plan with reserved keys among the values of a resource. -/
def plan : SourceFile := ⟨"plan.json", "", .plan, [("planned_values",
  .map [("root_module", .map [("resources", .list [.map planned])])])]⟩

/-- A state whose attributes are found under the second key. -/
def state : SourceFile := ⟨"old.tfstate", "", .state, [("resources", .list [.map [
  ("type", .scalar (.text "aws_instance")), ("name", .scalar (.text "web")),
  ("instances", .list [.map [("attributes", .scalar .null), ("attributes_flat", .map values)]])]])]⟩

/-- The values with all their keys. -/
def raws : RawMap := [("__line__", .int 1), ("tags", .list [.map [("__end__", .null)]])]

theorem writable_values : (Node.map values).Writable :=
  ⟨(Nat.le_of_ble_eq_true rfl : (Scalar.int 1).IsValue),
    ⟨⟨⟨trivial, trivial⟩, trivial⟩, trivial⟩⟩

theorem writable_plan : (Node.map plan.tree).Writable :=
  ⟨⟨⟨⟨⟨trivial, trivial, writable_values, trivial⟩, trivial⟩, trivial⟩, trivial⟩, trivial⟩

theorem writable_state : (Node.map state.tree).Writable :=
  ⟨⟨⟨trivial, trivial, ⟨⟨trivial, writable_values, trivial⟩, trivial⟩, trivial⟩, trivial⟩, trivial⟩

end ReservedKeys

open ReservedKeys in
theorem listing_keys_noted :
    (config.kind = .config ∧ (Node.map config.tree).Holds Scalar.IsOwn
        ∧ (config.listing .resource).entities.map (fun entity => entryAt? entity.row "arguments")
          = [some (.map [("tags", .map [("env", .text "dev")])])]
        ∧ ∀ kind, ∀ entity ∈ (config.listing kind).entities,
          entity.RowKeys (isReserved · = false))
      ∧ (plan.kind ≠ .config ∧ (Node.map plan.tree).Writable
        ∧ (plan.listing .resource).entities.map (fun entity => entryAt? entity.row "arguments")
          = [some (.map raws)]
        ∧ ∃ attempts, List.Forall₂ plan.Showing (plan.sites .resource) attempts
          ∧ plan.listing .resource = Listing.ofAttempts .resource plan.path attempts)
      ∧ (state.kind ≠ .config ∧ (Node.map state.tree).Writable
        ∧ (state.listing .resource).entities.map (fun entity => entryAt? entity.row "attributes")
          = [some (.map raws)]
        ∧ ∃ attempts, List.Forall₂ state.Showing (state.sites .resource) attempts
          ∧ state.listing .resource = Listing.ofAttempts .resource state.path attempts) := by
  have htree : (Node.map config.tree).Holds Scalar.IsOwn := by
    simp [config, Node.Holds, itemsHold, valuesHold, Scalar.IsOwn, Hcl.startKey, Hcl.endKey]
  obtain ⟨planned, hplanned, -, hplan, hnoted⟩ :=
    (SourceFile.listing_keys plan).2 (by decide)
  obtain ⟨instances, hinstances, -, hstate, hnoted'⟩ :=
    (SourceFile.listing_keys state).2 (by decide)
  exact ⟨⟨rfl, htree, by rfl, (SourceFile.listing_keys config).1 rfl htree⟩,
    ⟨by decide, writable_plan, by rfl, planned, hplanned, hplan (hnoted writable_plan)⟩,
    ⟨by decide, writable_state, by rfl, instances, hinstances, hstate (hnoted' writable_state)⟩⟩

end TerraIndex
