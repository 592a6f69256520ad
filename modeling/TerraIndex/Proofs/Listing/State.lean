import TerraIndex.Proofs.Listing.Exports
/-!
# Where the resources of a state come from

The test for the labels of a state resource accepts exactly the maps with the same labels
(`accepts_iff_labels`). Where the labels of the elements are pairwise different and no other
`resources` key lies outside their list, each resource that is listed has the lines of the very
element that it was built from, and no two elements share their lines (`listed_from_element`).
-/

namespace TerraIndex

open Json Json.Indent

namespace State

/-- The values under the keys that tell the resources of a state apart. -/
def labels (entries : List (String × Raw)) : List (Option Raw) :=
  ["module", "mode", "type", "name"].map (entryAt? entries)

/-- Type and name are strings, the mode is a string that is not empty, and so is the module where
there is one. -/
structure Labelled (entries : List (String × Raw)) : Prop where
  type : ∃ s, entryAt? entries "type" = some (.text s)
  name : ∃ s, entryAt? entries "name" = some (.text s)
  mode : ∃ s, s ≠ "" ∧ entryAt? entries "mode" = some (.text s)
  module : entryAt? entries "module" = none
    ∨ ∃ s, s ≠ "" ∧ entryAt? entries "module" = some (.text s)

/-- If both are maps, their labels differ. -/
def Apart (a b : Raw) : Prop :=
  ∀ entries others, a = .map entries → b = .map others → labels entries ≠ labels others

theorem Apart.symm {a b : Raw} (h : Apart a b) : Apart b a :=
  fun entries others ha hb => Ne.symm (h others entries hb ha)

/-- A map passes the test for the labels of an element exactly if it has the same labels. -/
theorem accepts_iff_labels {entries : List (String × Raw)} {body : Body}
    (h : (Raw.map entries).body? = some body) (hlabelled : Labelled entries) :
    ∃ test, Locator.testOf .state [body.textAt "type" "", body.textAt "name" "",
        body.textAt "mode" "", body.textAt "module" ""] = .ok test
      ∧ ∀ others, test.accepts (.map others) = true ↔ labels others = labels entries := by
  obtain ⟨type, htype⟩ := hlabelled.type
  obtain ⟨name, hname⟩ := hlabelled.name
  obtain ⟨mode, hmode, hmodeAt⟩ := hlabelled.mode
  rw [textAt_text h "" htype, textAt_text h "" hname, textAt_text h "" hmodeAt]
  rcases hlabelled.module with hmodule | ⟨module, hmodule, hmoduleAt⟩
  · have htest : ElementTest.ofState type name mode ""
        = ⟨[("type", type), ("name", name), ("mode", mode)], ["module"]⟩ := by
      simp [ElementTest.ofState, hmode]
    rw [textAt_none h "" hmodule]
    refine ⟨_, congrArg Except.ok htest, fun others => ?_⟩
    simp only [ElementTest.accepts_iff, ElementTest.Matches, Raw.map.injEq, exists_eq_left',
      List.forall_mem_cons, List.not_mem_nil, IsEmpty.forall_iff, implies_true, labels,
      List.map_cons, List.map_nil, List.cons.injEq, and_true, htype, hname, hmodeAt, hmodule]
    constructor
    · rintro ⟨hmodule, htype, hname, hmode⟩
      exact ⟨hmodule, hmode, htype, hname⟩
    · rintro ⟨hmodule, hmode, htype, hname⟩
      exact ⟨hmodule, htype, hname, hmode⟩
  · have htest : ElementTest.ofState type name mode module
        = ⟨[("type", type), ("name", name), ("mode", mode), ("module", module)], []⟩ := by
      simp [ElementTest.ofState, hmode, hmodule]
    rw [textAt_text h "" hmoduleAt]
    refine ⟨_, congrArg Except.ok htest, fun others => ?_⟩
    simp only [ElementTest.accepts_iff, ElementTest.Matches, Raw.map.injEq, exists_eq_left',
      List.forall_mem_cons, List.not_mem_nil, IsEmpty.forall_iff, implies_true, true_and, labels,
      List.map_cons, List.map_nil, List.cons.injEq, and_true, htype, hname, hmodeAt, hmoduleAt]
    constructor
    · rintro ⟨htype, hname, hmode, hmodule⟩
      exact ⟨hmodule, hmode, htype, hname⟩
    · rintro ⟨hmodule, hmode, htype, hname⟩
      exact ⟨htype, hname, hmode, hmodule⟩

section Elements

variable {root : List (String × Raw)} {items : List Raw} {resources : Placed}

/-- Of elements with pairwise different labels, the test for one of them finds that one. -/
theorem find?_element {test : ElementTest} {element : Placed} {entries : List (String × Raw)}
    (hitems : resources.value = .list items) (hapart : items.Pairwise Apart)
    (hmem : element ∈ resources.contents) (hvalue : element.value = .map entries)
    (htest : ∀ others, test.accepts (.map others) = true ↔ labels others = labels entries) :
    resources.contents.find? (fun p => test.accepts p.value) = some element := by
  have hpairs : resources.contents.Pairwise fun p q => Apart p.value q.value := by
    rw [← map_value_contents hitems] at hapart
    exact List.pairwise_map.mp hapart
  have hsymm : Std.Symm fun p q : Placed => Apart p.value q.value := ⟨fun _ _ h => h.symm⟩
  have haccepts : test.accepts element.value = true := by
    rw [hvalue]
    exact (htest entries).mpr rfl
  obtain ⟨found, hfound⟩ := Option.isSome_iff_exists.mp
    ((List.find?_isSome (p := fun p : Placed => test.accepts p.value)).mpr
      ⟨element, hmem, haccepts⟩)
  have hfoundAccepts := List.find?_some hfound
  obtain ⟨others, hothers, -⟩ := (test.accepts_iff _).mp hfoundAccepts
  rw [hothers] at hfoundAccepts
  have heq : found = element := by
    by_contra hne
    exact hpairs.forall (List.mem_of_find?_eq_some hfound) hmem hne others entries hothers hvalue
      ((htest others).mp hfoundAccepts)
  rw [hfound, heq]

/-- The elements are all that stands under a key `resources`. -/
theorem elementsUnder_resources (hdoc : (Raw.map root).IsDocument)
    (hresources : (⟨0, .map root⟩ : Placed).child? "resources" = some resources)
    (hother : ∀ entry ∈ root, entry.1 ≠ "resources" → entry.2.Without "resources") :
    elementsUnder (· == "resources") (.map root) = resources.contents := by
  rw [elementsUnder, occurrences_only 0 hdoc.1 hother, hresources]
  exact List.flatMap_singleton _ _

/-- The bodies in the list are read from its elements. -/
theorem mem_resources {tree resource : Body} (hdoc : (Raw.map root).IsDocument)
    (hbody : (Raw.map root).body? = some tree)
    (hresources : (⟨0, .map root⟩ : Placed).child? "resources" = some resources)
    (hitems : resources.value = .list items) (h : resource ∈ State.resources tree) :
    ∃ element ∈ resources.contents, ∃ entries, element.value = .map entries
      ∧ .map entries ∈ items ∧ (Raw.map entries).body? = some resource := by
  have hentry := child?_value hresources
  rw [hitems] at hentry
  have hlist : (Raw.list items).IsDocument :=
    hereditary_isDocument.map hdoc _ (mem_of_entryAt? hentry)
  obtain ⟨node, hnode, hread⟩ := child?_some hbody hentry
  rw [State.resources, hnode, maps_read hlist hread] at h
  obtain ⟨item, hitem, hresource⟩ := List.mem_filterMap.mp h
  obtain ⟨entries, rfl⟩ := map_of_body? hresource
  have hvalue := hitem
  rw [← map_value_contents hitems] at hvalue
  obtain ⟨element, helement, hentries⟩ := List.mem_map.mp hvalue
  exact ⟨element, helement, entries, hentries, hitem, hresource⟩

end Elements

theorem mem_instanceAttempts {place : Located} {resource : Body} {entity : Entity}
    (h : .ok entity ∈ SourceFile.instanceAttempts place resource) :
    ∃ instances, State.instances resource = .ok instances ∧ ∃ inst ∈ instances, ∃ r,
      Resource.ofInstance place resource inst = .ok r ∧ entity = .resource r := by
  unfold SourceFile.instanceAttempts at h
  split at h
  · simp at h
  · rename_i instances hinstances
    obtain ⟨inst, hinst, hattempt⟩ := List.mem_map.mp h
    obtain ⟨r, hr, hentity⟩ := map_ok hattempt
    exact ⟨instances, hinstances, inst, hinst, r, hr, hentity.symm⟩

theorem place_ofInstance {place : Located} {resource inst : Body} {r : Resource}
    (h : Resource.ofInstance place resource inst = .ok r) : r.place = place := by
  unfold Resource.ofInstance at h
  obtain ⟨_, -, h⟩ := bind_ok h
  obtain ⟨_, -, h⟩ := bind_ok h
  obtain ⟨_, -, h⟩ := bind_ok h
  obtain ⟨attributes, -, h⟩ := bind_ok h
  cases attributes with
  | some => rw [← Except.ok.inj h]
  | none =>
    obtain ⟨_, -, h⟩ := bind_ok h
    rw [← Except.ok.inj h]

/-- Each resource listed from a state is an instance of an element of the list and has the lines of
that element, and different elements have different lines. -/
theorem listed_from_element (width : Nat) {store : FileStore} {item : FileItem}
    {root : List (String × Raw)} {items : List Raw} {resources : Placed} {text : List Char}
    (htext : text = (Indent.ascii width).text (.map root)) (hdoc : (Raw.map root).IsDocument)
    (hresources : (⟨0, .map root⟩ : Placed).child? "resources" = some resources)
    (hitems : resources.value = .list items)
    (hother : ∀ entry ∈ root, entry.1 ≠ "resources" → entry.2.Without "resources")
    (hlabelled : ∀ entries, .map entries ∈ items → Labelled entries)
    (hapart : items.Pairwise Apart) (hreads : item.Reads store text)
    (hstate : item.isState = true) :
    (∀ entity ∈ (list .resource store item).entities, ∃ element ∈ resources.contents,
      entity.place = ⟨item.path, element.span text⟩
        ∧ ∃ body instances inst r, element.value.body? = some body
          ∧ State.instances body = .ok instances ∧ inst ∈ instances
          ∧ Resource.ofInstance ⟨item.path, element.span text⟩ body inst = .ok r
          ∧ entity = .resource r)
      ∧ (∀ element ∈ resources.contents, (Indent.ascii width).StandsIn text element)
      ∧ ∀ p ∈ resources.contents, ∀ q ∈ resources.contents, p.span text = q.span text → p = q := by
  subst htext
  have hlisted : ∀ entity ∈ (list .resource store item).entities,
      ∃ element ∈ resources.contents,
        entity.place = ⟨item.path, element.span ((Indent.ascii width).text (.map root))⟩
          ∧ ∃ body instances inst r, element.value.body? = some body
            ∧ State.instances body = .ok instances ∧ inst ∈ instances
            ∧ Resource.ofInstance ⟨item.path, element.span ((Indent.ascii width).text (.map root))⟩
                body inst = .ok r ∧ entity = .resource r := by
    intro entity hentity
    have hkind : item.classify ((Indent.ascii width).text (.map root)) = .state := by
      rw [FileItem.classify, hstate, if_pos rfl]
    obtain ⟨file, hpath, hcontent, hfile, hbody, hmem⟩ :=
      mem_resourceAttempts hdoc hreads (by rw [hkind]; decide) hentity
    rw [hkind] at hfile
    rw [SourceFile.resourceAttempts, hfile] at hmem
    obtain ⟨body, hresource, hattempt⟩ := List.mem_flatMap.mp hmem
    obtain ⟨element, helement, entries, hentries, hvalue, hread⟩ :=
      mem_resources hdoc hbody hresources hitems hresource
    obtain ⟨test, htest, haccepts⟩ := accepts_iff_labels hread (hlabelled entries hvalue)
    have hfound := find?_element hitems hapart helement hentries haccepts
    rw [← elementsUnder_resources hdoc hresources hother] at hfound
    have hroot : root ≠ [] := by
      rintro rfl
      simp [Placed.child?, placedEntries, entryAt?] at hresources
    rw [← hfile] at htest
    simp only [] at hattempt
    rw [exportPlace_resource hdoc hroot hcontent htest hfound, hpath] at hattempt
    obtain ⟨instances, hinstances, inst, hinst, r, hr, rfl⟩ := mem_instanceAttempts hattempt
    exact ⟨element, helement, place_ofInstance hr, body, instances, inst, r,
      by rw [hentries, hread], hinstances, hinst, hr, rfl⟩
  refine ⟨hlisted, fun element helement => ?_, fun p hp q hq hspan => ?_⟩
  · have hwithin := Placed.Within.inside .self (mem_contents_of_child? hresources)
    exact standsIn_within _ (hwithin.inside helement)
  · exact eq_of_above_eq (contents_sorted _) hp hq (Placed.above_of_span hspan)

def vpc (module attributes : List (String × Raw)) : List (String × Raw) :=
  module ++ [("mode", .text "managed"), ("type", .text "aws_vpc"), ("name", .text "main"),
    ("instances", .list [.map [("attributes", .map attributes)]])]

/-- Two modules with a resource of one name, one of which has the other's text among its
attributes. -/
def lookAlikes : List Raw :=
  [.map (vpc [("module", .text "module.net")] [("resources", .list [.map (vpc [] [])])]),
    .map (vpc [] [])]

def lookAlikeText : List Char := (Indent.ascii 1).text (.map [("resources", .list lookAlikes)])

def lookAlikeStore : FileStore := .ofText "net.tfstate" lookAlikeText

theorem isDocument_lookAlikes : (Raw.map [("resources", .list lookAlikes)]).IsDocument := by
  simp [lookAlikes, vpc, Raw.IsDocument, entriesAreDocuments, itemsAreDocuments]

theorem labelled_lookAlikes : ∀ entries, .map entries ∈ lookAlikes → Labelled entries := by
  intro entries h
  rcases List.mem_cons.mp h with h | h
  · rw [Raw.map.inj h]
    exact ⟨⟨_, rfl⟩, ⟨_, rfl⟩, ⟨_, by decide, rfl⟩, .inr ⟨_, by decide, rfl⟩⟩
  · rw [Raw.map.inj (List.mem_singleton.mp h)]
    exact ⟨⟨_, rfl⟩, ⟨_, rfl⟩, ⟨_, by decide, rfl⟩, .inl rfl⟩

theorem apart_lookAlikes : lookAlikes.Pairwise Apart := by
  refine List.pairwise_pair.mpr fun entries others hentries hothers => ?_
  rw [← Raw.map.inj hentries, ← Raw.map.inj hothers]
  simp [labels, vpc, entryAt?]

set_option maxRecDepth 20000 in
theorem reads_lookAlikes : (FileItem.ofPath "net.tfstate").Reads lookAlikeStore lookAlikeText :=
  ⟨_, by rfl, by rfl⟩

set_option maxRecDepth 20000 in
theorem holds_lookAlikes : (FileItem.ofPath "net.tfstate").Holds lookAlikeStore lookAlikeText :=
  FileItem.holds_text reads_lookAlikes rfl isDocument_lookAlikes nofun (by decide) (by decide)

theorem spans_lookAlikes :
    (list .resource lookAlikeStore (.ofPath "net.tfstate")).entities.map
      (fun entity => (entity.place.span.startLine, entity.place.span.endLine))
        = [(3, 26), (27, 36)] := by
  have hbody : (Raw.map [("resources", .list lookAlikes)]).body?
      = some ((Raw.map [("resources", .list lookAlikes)]).body?.getD []) := rfl
  have hkind : (FileItem.ofPath "net.tfstate").classify lookAlikeText = .state := rfl
  rw [list_export isDocument_lookAlikes holds_lookAlikes
    (by rw [← lookAlikeText, hkind]; decide) hbody, ← lookAlikeText, hkind]
  generalize hfile : (⟨(FileItem.ofPath "net.tfstate").path, String.ofList lookAlikeText, .state,
    (Raw.map [("resources", .list lookAlikes)]).body?.getD []⟩ : SourceFile) = file
  have hmodule : file.exportPlace "resource" ["aws_vpc", "main", "managed", "module.net"]
      = ⟨file.path, (⟨2, lookAlikes[0]⟩ : Placed).span lookAlikeText⟩ := by
    subst hfile
    exact exportPlace_resource isDocument_lookAlikes (by simp) String.toList_ofList rfl rfl
  have hroot : file.exportPlace "resource" ["aws_vpc", "main", "managed", ""]
      = ⟨file.path, (⟨26, lookAlikes[1]⟩ : Placed).span lookAlikeText⟩ := by
    subst hfile
    exact exportPlace_resource isDocument_lookAlikes (by simp) String.toList_ofList rfl rfl
  have hsteps : file.steps .resource =
      (SourceFile.instanceAttempts
          (file.exportPlace "resource" ["aws_vpc", "main", "managed", "module.net"])
          (lookAlikes[0].body?.getD [])
        ++ SourceFile.instanceAttempts
          (file.exportPlace "resource" ["aws_vpc", "main", "managed", ""])
          (lookAlikes[1].body?.getD [])).map Attempt.step := by
    subst hfile
    rfl
  rw [hsteps, hmodule, hroot]
  rfl

theorem listed_from_element_lookAlikes :
    (list .resource lookAlikeStore (.ofPath "net.tfstate")).entities.map
        (fun entity => (entity.place.span.startLine, entity.place.span.endLine))
          = [(3, 26), (27, 36)]
      ∧ (∀ entity ∈ (list .resource lookAlikeStore (.ofPath "net.tfstate")).entities,
        ∃ element ∈ (⟨1, .list lookAlikes⟩ : Placed).contents,
          entity.place = ⟨"net.tfstate", element.span lookAlikeText⟩
            ∧ ∃ body instances inst r, element.value.body? = some body
              ∧ State.instances body = .ok instances ∧ inst ∈ instances
              ∧ Resource.ofInstance ⟨"net.tfstate", element.span lookAlikeText⟩ body inst = .ok r
              ∧ entity = .resource r)
      ∧ (∀ element ∈ (⟨1, .list lookAlikes⟩ : Placed).contents,
        (Indent.ascii 1).StandsIn lookAlikeText element)
      ∧ ∀ p ∈ (⟨1, .list lookAlikes⟩ : Placed).contents,
        ∀ q ∈ (⟨1, .list lookAlikes⟩ : Placed).contents,
        p.span lookAlikeText = q.span lookAlikeText → p = q :=
  ⟨spans_lookAlikes, listed_from_element 1 rfl isDocument_lookAlikes rfl rfl
    (fun _ h hne => absurd (congrArg Prod.fst (List.mem_singleton.mp h)) hne)
    labelled_lookAlikes apart_lookAlikes reads_lookAlikes rfl⟩

end State

end TerraIndex
