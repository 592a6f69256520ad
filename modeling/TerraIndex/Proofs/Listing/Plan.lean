import TerraIndex.Proofs.Listing.Exports
/-!
# Where the resources of a plan come from

`Plan.parts` walks the planned modules of a document and keeps the place of each resource; the
entries of the body that is read from the document are read from these parts (`entries_read`). The
search takes the first element under any key `resources` that has the address and type of an entry,
so an entry is found in its own lines exactly when no such element of another list stands above it
(`listed_from_own_lines`).
-/

namespace TerraIndex

open Json Json.Indent

namespace Plan

/-- The elements of a part, if it is a list. -/
def listed (p : Option Placed) : List Placed :=
  match p with
  | some ⟨n, .list items⟩ => placedItems (n + 1) items
  | _ => []

mutual

/-- The resources of a module, its own first and then those of its child modules. -/
def moduleParts (n : Nat) : Raw → List Placed
  | .map entries =>
    listed (entryAt? (placedEntries (n + 1) entries) "resources") ++ childParts (n + 1) entries
  | _ => []

/-- The resources of the modules in the first list of child modules. -/
def childParts (n : Nat) : List (String × Raw) → List Placed
  | [] => []
  | (key, value) :: rest =>
    if key = "child_modules" then listParts n value else childParts (n + value.height) rest

def listParts (n : Nat) : Raw → List Placed
  | .list items => itemsParts (n + 1) items
  | _ => []

def itemsParts (n : Nat) : List Raw → List Placed
  | [] => []
  | item :: rest => moduleParts n item ++ itemsParts (n + item.height) rest

end

/-- The planned resources of a document. -/
def parts (root : List (String × Raw)) : List Placed :=
  match (⟨0, .map root⟩ : Placed).child? "planned_values" with
  | some planned =>
    match planned.child? "root_module" with
    | some module => moduleParts module.above module.value
    | none => []
  | none => []

section ReadingEntries

/-- The body that is read from a part, if it is a map. -/
def partBody (p : Placed) : Option Body := p.value.body?

theorem filterMap_listed {p : Placed} : (listed (some p)).filterMap partBody = p.value.bodies := by
  obtain ⟨n, v⟩ := p
  cases v with
  | list items =>
    have hvalues := map_value_placedItems (n + 1) items
    have hbodies := List.filterMap_map (f := Placed.value) (g := Raw.body?)
      (l := placedItems (n + 1) items)
    rw [hvalues] at hbodies
    exact hbodies.symm
  | _ => rfl

theorem maps_listed {entries : List (String × Raw)} {body : Body} (n : Nat) (key : String)
    (hdoc : (Raw.map entries).IsDocument) (h : (Raw.map entries).body? = some body) :
    maps (entryAt? body key)
      = (listed (entryAt? (placedEntries n entries) key)).filterMap partBody := by
  have hplaced := entryAt?_placedEntries n entries key
  rcases hpart : entryAt? (placedEntries n entries) key with _ | p
  · rw [hpart, Option.map_none] at hplaced
    have hchild : entryAt? body key = none := child?_none h hplaced.symm
    rw [hchild]
    rfl
  · rw [hpart, Option.map_some] at hplaced
    obtain ⟨node, hnode, hread⟩ := child?_some h hplaced.symm
    have hvalue := hereditary_isDocument.map hdoc _ (mem_of_entryAt? hplaced.symm)
    rw [show entryAt? body key = some node from hnode, maps_read hvalue hread, filterMap_listed]

theorem moduleEntries_leaf {v : Raw} {node : Node} (hdoc : v.IsDocument) (hv : v.isMap = false)
    (h : v.read = .ok node) : moduleEntries node = [] := by
  rcases read_cases hdoc h with ⟨_, _, _, rfl, _⟩ | ⟨_, _, rfl, _, _⟩ | ⟨_, _, rfl⟩
  · rw [moduleEntries]
    simp
  · simp [Raw.isMap] at hv
  · rw [moduleEntries]
    simp

theorem listEntries_leaf {v : Raw} {node : Node} (hdoc : v.IsDocument)
    (hv : ∀ items, v ≠ .list items) (h : v.read = .ok node) : listEntries node = [] := by
  rcases read_cases hdoc h with ⟨items, _, rfl, _, _⟩ | ⟨_, _, _, rfl, _⟩ | ⟨_, _, rfl⟩
  · exact absurd rfl (hv items)
  · rw [listEntries]
    simp
  · rw [listEntries]
    simp

mutual

theorem moduleEntries_read : ∀ (v : Raw) (n : Nat) {node : Node}, v.IsDocument →
    v.read = .ok node → moduleEntries node = (moduleParts n v).filterMap partBody
  | .map entries, n, node, hdoc, h => by
    obtain ⟨body, hbody, rfl⟩ := map_ok h
    rw [moduleEntries, moduleParts, List.filterMap_append,
      maps_listed (n + 1) "resources" hdoc (body?_map hbody),
      childEntries_read entries (n + 1) hdoc.2 hbody]
  | .list _, _, _, hdoc, h => moduleEntries_leaf hdoc rfl h
  | .tuple _, _, _, hdoc, h => moduleEntries_leaf hdoc rfl h
  | .null, _, _, hdoc, h => moduleEntries_leaf hdoc rfl h
  | .bool _, _, _, hdoc, h => moduleEntries_leaf hdoc rfl h
  | .int _, _, _, hdoc, h => moduleEntries_leaf hdoc rfl h
  | .float _, _, _, hdoc, h => moduleEntries_leaf hdoc rfl h
  | .text _, _, _, hdoc, h => moduleEntries_leaf hdoc rfl h
  | .other _, _, _, hdoc, h => moduleEntries_leaf hdoc rfl h

theorem childEntries_read : ∀ (entries : List (String × Raw)) (n : Nat) {body : Body},
    entriesAreDocuments entries → Node.ofRawEntries (readBackEntries entries) = .ok body →
    childEntries body = (childParts n entries).filterMap partBody
  | [], _, body, _, h => by
    have hnil : [] = body := Except.ok.inj h
    rw [← hnil]
    rfl
  | (key, value) :: entries, n, body, hdoc, h => by
    obtain ⟨node, hnode, h⟩ := bind_ok h
    obtain ⟨rest, hrest, h⟩ := bind_ok h
    have hbody : (key, node) :: rest = body := Except.ok.inj h
    rw [← hbody, childEntries, childParts]
    split_ifs
    · exact listEntries_read value n hdoc.1 hnode
    · exact childEntries_read entries _ hdoc.2 hrest

theorem listEntries_read : ∀ (v : Raw) (n : Nat) {node : Node}, v.IsDocument →
    v.read = .ok node → listEntries node = (listParts n v).filterMap partBody
  | .list items, n, node, hdoc, h => by
    obtain ⟨nodes, hnodes, rfl⟩ := map_ok h
    exact itemsEntries_read items (n + 1) hdoc hnodes
  | .map _, _, _, hdoc, h => listEntries_leaf hdoc (by simp) h
  | .tuple _, _, _, hdoc, h => listEntries_leaf hdoc (by simp) h
  | .null, _, _, hdoc, h => listEntries_leaf hdoc (by simp) h
  | .bool _, _, _, hdoc, h => listEntries_leaf hdoc (by simp) h
  | .int _, _, _, hdoc, h => listEntries_leaf hdoc (by simp) h
  | .float _, _, _, hdoc, h => listEntries_leaf hdoc (by simp) h
  | .text _, _, _, hdoc, h => listEntries_leaf hdoc (by simp) h
  | .other _, _, _, hdoc, h => listEntries_leaf hdoc (by simp) h

theorem itemsEntries_read : ∀ (items : List Raw) (n : Nat) {nodes : List Node},
    itemsAreDocuments items → Node.ofRawList (readBackItems items) = .ok nodes →
    itemsEntries nodes = (itemsParts n items).filterMap partBody
  | [], _, nodes, _, h => by
    have hnil : [] = nodes := Except.ok.inj h
    rw [← hnil]
    rfl
  | item :: items, n, nodes, hdoc, h => by
    obtain ⟨node, hnode, h⟩ := bind_ok h
    obtain ⟨rest, hrest, h⟩ := bind_ok h
    have hnodes : node :: rest = nodes := Except.ok.inj h
    rw [← hnodes, itemsEntries, itemsParts, List.filterMap_append, moduleEntries_read item n hdoc.1
      hnode, itemsEntries_read items _ hdoc.2 hrest]

end

/-- The entries of a plan are read from its parts. -/
theorem entries_read {root : List (String × Raw)} {tree : Body} (hdoc : (Raw.map root).IsDocument)
    (h : (Raw.map root).body? = some tree) : entries tree = (parts root).filterMap partBody := by
  unfold entries parts
  rcases child?_cases 0 "planned_values" hdoc h with ⟨hnode, hpart⟩ |
    ⟨node, ⟨n, v⟩, hnode, hpart, hread, hv⟩
  · rw [hnode, hpart]
    rfl
  · rw [hnode, hpart]
    rcases read_cases hv hread with ⟨_, _, rfl, rfl, _⟩ | ⟨planned, body, rfl, rfl, hbody⟩ |
      ⟨hleaf, _, rfl⟩
    · rfl
    · rcases child?_cases n "root_module" hv (body?_map hbody) with ⟨hnode, hpart⟩ |
        ⟨node, module, hnode, hpart, hread, hmodule⟩
      · have hentry : entryAt? body "root_module" = none := hnode
        simp only [hentry, hpart]
        rfl
      · have hentry : entryAt? body "root_module" = some node := hnode
        simp only [hentry, hpart]
        exact moduleEntries_read module.value module.above hmodule hread
    · have hnone : (⟨n, v⟩ : Placed).child? "root_module" = none := by
        cases v <;> first | rfl | simp [Raw.isNested] at hleaf
      simp only [hnone]
      rfl

end ReadingEntries

section Elements

variable {p : Placed}

theorem listed_contents {q : Placed} (h : p ∈ listed (some q)) : p ∈ q.contents := by
  obtain ⟨n, v⟩ := q
  cases v with
  | list items => exact h
  | _ => simp [listed] at h

mutual

theorem moduleParts_under : ∀ (v : Raw) (n : Nat) {p : Placed}, p ∈ moduleParts n v →
    ∃ list ∈ occurrences (· == "resources") n v, p ∈ list.contents
  | .map entries, n, p, h => by
    rw [moduleParts, List.mem_append] at h
    rcases h with h | h
    · rcases hlist : entryAt? (placedEntries (n + 1) entries) "resources" with _ | list
      · rw [hlist] at h
        simp [listed] at h
      · rw [hlist] at h
        exact ⟨list, occurrencesEntries_key (by rfl) (n + 1) hlist, listed_contents h⟩
    · exact childParts_under entries (n + 1) h
  | .list _, _, _, h => by simp [moduleParts] at h
  | .tuple _, _, _, h => by simp [moduleParts] at h
  | .null, _, _, h => by simp [moduleParts] at h
  | .bool _, _, _, h => by simp [moduleParts] at h
  | .int _, _, _, h => by simp [moduleParts] at h
  | .float _, _, _, h => by simp [moduleParts] at h
  | .text _, _, _, h => by simp [moduleParts] at h
  | .other _, _, _, h => by simp [moduleParts] at h

theorem childParts_under : ∀ (entries : List (String × Raw)) (n : Nat) {p : Placed},
    p ∈ childParts n entries →
    ∃ list ∈ occurrencesEntries (· == "resources") n entries, p ∈ list.contents
  | [], _, _, h => by simp [childParts] at h
  | (key, value) :: entries, n, p, h => by
    rw [childParts] at h
    split_ifs at h with hkey
    · obtain ⟨list, hlist, hp⟩ := listParts_under value n h
      refine ⟨list, ?_, hp⟩
      rw [occurrencesEntries, hkey, if_neg (by decide), List.mem_append]
      exact .inl hlist
    · obtain ⟨list, hlist, hp⟩ := childParts_under entries _ h
      exact ⟨list, List.mem_append_right _ hlist, hp⟩

theorem listParts_under : ∀ (v : Raw) (n : Nat) {p : Placed}, p ∈ listParts n v →
    ∃ list ∈ occurrences (· == "resources") n v, p ∈ list.contents
  | .list items, n, _, h => itemsParts_under items (n + 1) h
  | .map _, _, _, h => by simp [listParts] at h
  | .tuple _, _, _, h => by simp [listParts] at h
  | .null, _, _, h => by simp [listParts] at h
  | .bool _, _, _, h => by simp [listParts] at h
  | .int _, _, _, h => by simp [listParts] at h
  | .float _, _, _, h => by simp [listParts] at h
  | .text _, _, _, h => by simp [listParts] at h
  | .other _, _, _, h => by simp [listParts] at h

theorem itemsParts_under : ∀ (items : List Raw) (n : Nat) {p : Placed}, p ∈ itemsParts n items →
    ∃ list ∈ occurrencesItems (· == "resources") n items, p ∈ list.contents
  | [], _, _, h => by simp [itemsParts] at h
  | item :: items, n, p, h => by
    rw [itemsParts, List.mem_append] at h
    rcases h with h | h
    · obtain ⟨list, hlist, hp⟩ := moduleParts_under item n h
      exact ⟨list, List.mem_append_left _ hlist, hp⟩
    · obtain ⟨list, hlist, hp⟩ := itemsParts_under items _ h
      exact ⟨list, List.mem_append_right _ hlist, hp⟩

end

/-- Every planned resource is an element under a key `resources`. -/
theorem mem_elementsUnder {root : List (String × Raw)} (h : p ∈ parts root) :
    p ∈ elementsUnder (· == "resources") (.map root) := by
  unfold parts at h
  split at h
  · rename_i planned hplanned
    split at h
    · rename_i module hmodule
      obtain ⟨list, hlist, hp⟩ := moduleParts_under module.value module.above h
      have hlist := occurrences_child planned.above (by rfl) hmodule list hlist
      have hlist := occurrences_child 0 (by rfl) hplanned list hlist
      exact List.mem_flatMap.mpr ⟨list, hlist, hp⟩
    · simp at h
  · simp at h

end Elements

section Listing

/-- The part is no map, or a map with a type and an address that is not empty. -/
def Addressed (p : Placed) : Prop :=
  ∀ entries, p.value = .map entries → (∃ s, entryAt? entries "type" = some (.text s))
    ∧ ∃ s, s ≠ "" ∧ entryAt? entries "address" = some (.text s)

/-- If both parts are maps, their addresses differ. -/
def Apart (p q : Placed) : Prop :=
  ∀ entries others, p.value = .map entries → q.value = .map others →
    entryAt? entries "address" ≠ entryAt? others "address"

theorem Apart.symm {p q : Placed} (h : Apart p q) : Apart q p :=
  fun entries others hp hq => Ne.symm (h others entries hq hp)

theorem place_ofPlan {place : Located} {entry : Body} {r : Resource}
    (h : Resource.ofPlan place entry = .ok r) : r.place = place := by
  unfold Resource.ofPlan at h
  obtain ⟨_, -, h⟩ := bind_ok h
  obtain ⟨_, -, h⟩ := bind_ok h
  obtain ⟨_, -, h⟩ := bind_ok h
  rw [← Except.ok.inj h]

theorem accepts_own {p : Placed} {entries : List (String × Raw)} {address type : String}
    (hvalue : p.value = .map entries) (haddress : entryAt? entries "address" = some (.text address))
    (htype : entryAt? entries "type" = some (.text type)) :
    (ElementTest.ofPlan address type).accepts p.value = true := by
  rw [ElementTest.accepts_iff, hvalue]
  refine ⟨entries, rfl, by simp [ElementTest.ofPlan], ?_⟩
  simp [ElementTest.ofPlan, haddress, htype]

/-- No other planned resource has the address of a planned resource. -/
theorem planned_differs {root entries : List (String × Raw)} {p other : Placed}
    {address type : String} (hapart : (parts root).Pairwise Apart) (hp : p ∈ parts root)
    (hother : other ∈ parts root) (hne : other ≠ p) (hvalue : p.value = .map entries)
    (haddress : entryAt? entries "address" = some (.text address)) :
    ¬ (ElementTest.ofPlan address type).Matches other.value := by
  rintro ⟨others, hothers, -, hfields⟩
  have hsymm : Std.Symm Apart := ⟨fun _ _ h => h.symm⟩
  have hsame : entryAt? others "address" = some (.text address) :=
    hfields ("address", address) (by simp [ElementTest.ofPlan])
  exact hapart.forall hother hp hne others entries hothers hvalue (hsame.trans haddress.symm)

/-- The place of an entry is that of the first element with its address and type. -/
theorem exportPlace_entry {root entries : List (String × Raw)} {body : Body} {p : Placed}
    {file : SourceFile} {address type : String} (width : Nat) (hdoc : (Raw.map root).IsDocument)
    (hcontent : file.content.toList = (Indent.ascii width).text (.map root))
    (hkind : file.kind = .plan) (hp : p ∈ parts root) (hvalue : p.value = .map entries)
    (hbody : (Raw.map entries).body? = some body) (haddress : address ≠ "")
    (haddressAt : entryAt? entries "address" = some (.text address))
    (htypeAt : entryAt? entries "type" = some (.text type)) :
    ∃ found, (elementsUnder (· == "resources") (.map root)).find?
        (fun q => (ElementTest.ofPlan address type).accepts q.value) = some found
      ∧ file.exportPlace "resource" [Plan.address body, body.textAt "type" ""]
        = ⟨file.path, found.span ((Indent.ascii width).text (.map root))⟩ := by
  have haccepts := accepts_own hvalue haddressAt htypeAt
  obtain ⟨found, hfound⟩ := Option.isSome_iff_exists.mp (List.find?_isSome
    (p := fun q : Placed => (ElementTest.ofPlan address type).accepts q.value) |>.mpr
      ⟨p, mem_elementsUnder hp, haccepts⟩)
  have hroot : root ≠ [] := by
    rintro rfl
    simp [parts, Placed.child?, placedEntries, entryAt?] at hp
  have htest : Locator.testOf file.kind [Plan.address body, body.textAt "type" ""]
      = .ok (.ofPlan address type) := by
    rw [hkind, Plan.address, textAt_text hbody "" haddressAt, if_neg haddress,
      textAt_text hbody "" htypeAt]
    rfl
  exact ⟨found, hfound, exportPlace_resource hdoc hroot hcontent htest hfound⟩

/-- The first element with the address and the type of a planned part has the lines of that part
exactly when no element of another list stands above it with the same address and type. -/
theorem span_found_iff {root entries : List (String × Raw)} {p found : Placed}
    {address type : String} (text : List Char) (hapart : (parts root).Pairwise Apart)
    (hp : p ∈ parts root) (hvalue : p.value = .map entries)
    (haddress : entryAt? entries "address" = some (.text address))
    (htype : entryAt? entries "type" = some (.text type))
    (hfound : (elementsUnder (· == "resources") (.map root)).find?
      (fun q => (ElementTest.ofPlan address type).accepts q.value) = some found) :
    found.span text = p.span text ↔
      ∀ other ∈ elementsUnder (· == "resources") (.map root), other ∉ parts root →
        other.above < p.above → ¬ (ElementTest.ofPlan address type).Matches other.value := by
  have hsorted := elementsUnder_sorted (· == "resources") (.map root)
  have hown := mem_elementsUnder hp
  have hfirst := find?_above hsorted hown (accepts_own hvalue haddress htype) hfound
  constructor
  · intro hlines other hother _ habove hmatches
    have heq := eq_of_above_eq hsorted (List.mem_of_find?_eq_some hfound) hown
      (Placed.above_of_span hlines)
    have hrejected := hfirst.mp heq other hother habove
    rw [(ElementTest.accepts_iff _ _).mpr hmatches] at hrejected
    exact absurd hrejected.symm Bool.false_ne_true
  · intro hothers
    rw [hfirst.mpr fun other hother habove => ?_]
    rw [Bool.eq_false_iff]
    intro hother'
    have hmatches := (ElementTest.accepts_iff _ _).mp hother'
    by_cases hplanned : other ∈ parts root
    · exact planned_differs hapart hp hplanned (by rintro rfl; omega) hvalue haddress hmatches
    · exact hothers other hother hplanned habove hmatches

/-- Each resource listed from a plan has the lines of some element, and those of the planned part
that it was built from exactly when no element of another list stands above it with the same
address and type. -/
theorem listed_from_own_lines (width : Nat) {store : FileStore} {item : FileItem}
    {root : List (String × Raw)} {text : List Char}
    (htext : text = (Indent.ascii width).text (.map root)) (hdoc : (Raw.map root).IsDocument)
    (haddressed : ∀ p ∈ parts root, Addressed p) (hapart : (parts root).Pairwise Apart)
    (hreads : item.Reads store text) (hplan : item.classify text = .plan) :
    ∀ entity ∈ (list .resource store item).entities, ∃ p ∈ parts root,
      (Indent.ascii width).StandsIn text p ∧ ∃ body r address type, p.value.body? = some body
        ∧ body.textAt "address" "" = address ∧ body.textAt "type" "" = type
        ∧ Resource.ofPlan entity.place body = .ok r ∧ entity = .resource r
        ∧ entity.place.span.found = true
        ∧ (entity.place.span = p.span text ↔
          ∀ other ∈ elementsUnder (· == "resources") (.map root), other ∉ parts root →
            other.above < p.above → ¬ (ElementTest.ofPlan address type).Matches other.value) := by
  subst htext
  intro entity hentity
  obtain ⟨file, hpath, hcontent, hfile, hbody, hmem⟩ :=
    mem_resourceAttempts hdoc hreads (by rw [hplan]; decide) hentity
  rw [hplan] at hfile
  rw [SourceFile.resourceAttempts, hfile] at hmem
  obtain ⟨body, hentry, hattempt⟩ := List.mem_map.mp hmem
  rw [entries_read hdoc hbody] at hentry
  obtain ⟨p, hp, hpart⟩ := List.mem_filterMap.mp hentry
  have hvalue : p.value.body? = some body := hpart
  obtain ⟨entries, hentries⟩ := map_of_body? hvalue
  obtain ⟨⟨type, htype⟩, address, hne, haddress⟩ := haddressed p hp entries hentries
  rw [hentries] at hvalue
  obtain ⟨found, hfound, hplace⟩ :=
    exportPlace_entry width hdoc hcontent hfile hp hentries hvalue hne haddress htype
  simp only [] at hattempt
  rw [hplace, hpath] at hattempt
  obtain ⟨r, hr, rfl⟩ := map_ok hattempt
  have hrplace := place_ofPlan hr
  have hspan : (Entity.resource r).place.span
      = found.span ((Indent.ascii width).text (.map root)) := congrArg Located.span hrplace
  have hstands := standsIn_within (Indent.ascii width)
    (elementsUnder_within _ (mem_elementsUnder hp))
  refine ⟨p, hp, hstands, body, r, address, type, by rw [hentries, hvalue],
    textAt_text hvalue "" haddress, textAt_text hvalue "" htype, ?_, rfl, ?_, ?_⟩
  · rw [← hrplace] at hr
    exact hr
  · rw [hspan, Span.found, Placed.span, Span.ofLines, decide_eq_true_eq]
    simp only
    omega
  · rw [hspan]
    exact span_found_iff _ hapart hp hentries haddress htype hfound

end Listing

section Plan

def queue (detail : String × Raw) : Raw := .map [("address", .text "aws_sqs_queue.jobs"),
  ("type", .text "aws_sqs_queue"), ("name", .text "jobs"), detail]

/-- A module with one queue, as both a configuration and planned values hold it. -/
def queueModule (detail : String × Raw) : Raw :=
  .map [("root_module", .map [("resources", .list [queue detail])])]

def configurationFirst : List (String × Raw) := [("format_version", .text "1.2"),
  ("resource_changes", .list []),
  ("configuration", queueModule ("provider_config_key", .text "aws")),
  ("planned_values", queueModule ("values", .map []))]

def configurationFirstText : List Char := (Indent.ascii 1).text (.map configurationFirst)

def configurationFirstStore : FileStore := .ofText "plan.json" configurationFirstText

theorem isDocument_configurationFirst : (Raw.map configurationFirst).IsDocument := by
  simp [configurationFirst, queueModule, queue, Raw.IsDocument, entriesAreDocuments,
    itemsAreDocuments]

theorem parts_configurationFirst :
    parts configurationFirst = [⟨18, queue ("values", .map [])⟩] := rfl

set_option maxRecDepth 20000 in
theorem reads_configurationFirst :
    (FileItem.ofPath "plan.json").Reads configurationFirstStore configurationFirstText :=
  ⟨_, by rfl, by rfl⟩

theorem addressed_configurationFirst : ∀ p ∈ parts configurationFirst, Addressed p := by
  intro p hp entries hentries
  rw [parts_configurationFirst, List.mem_singleton] at hp
  rw [hp, queue] at hentries
  rw [← Raw.map.inj hentries]
  exact ⟨⟨_, rfl⟩, _, by decide, rfl⟩

theorem apart_configurationFirst : (parts configurationFirst).Pairwise Apart :=
  List.pairwise_singleton _ _

theorem classify_configurationFirst :
    (FileItem.ofPath "plan.json").classify configurationFirstText = .plan := by
  have hdecode := (Indent.ascii 1).decode_text isDocument_configurationFirst
  rw [← configurationFirstText] at hdecode
  simp only [FileItem.classify, FileItem.ofPath, isPlanText, hdecode]
  rfl

set_option maxRecDepth 20000 in
theorem holds_configurationFirst :
    (FileItem.ofPath "plan.json").Holds configurationFirstStore configurationFirstText := by
  refine FileItem.holds_text reads_configurationFirst rfl isDocument_configurationFirst ?_
    (by decide) (by decide)
  rw [← configurationFirstText, classify_configurationFirst]
  decide

/-- The configuration stands above the planned values and has an element with the address and type
of the planned queue, so the queue is placed there. -/
theorem spans_configurationFirst :
    (list .resource configurationFirstStore (.ofPath "plan.json")).entities.map
      (fun entity => (entity.place.span.startLine, entity.place.span.endLine)) = [(7, 12)] := by
  have hbody : (Raw.map configurationFirst).body?
      = some ((Raw.map configurationFirst).body?.getD []) := rfl
  rw [list_export isDocument_configurationFirst holds_configurationFirst
    (by rw [← configurationFirstText, classify_configurationFirst]; decide) hbody,
    ← configurationFirstText, classify_configurationFirst]
  generalize hfile : (⟨(FileItem.ofPath "plan.json").path, String.ofList configurationFirstText,
    .plan, (Raw.map configurationFirst).body?.getD []⟩ : SourceFile) = file
  have hplace : file.exportPlace "resource" ["aws_sqs_queue.jobs", "aws_sqs_queue"]
      = ⟨file.path, (⟨6, queue ("provider_config_key", .text "aws")⟩ : Placed).span
          configurationFirstText⟩ := by
    subst hfile
    exact exportPlace_resource isDocument_configurationFirst (by simp [configurationFirst])
      String.toList_ofList rfl rfl
  have hsteps : file.steps .resource = [Attempt.step (.resource <$> Resource.ofPlan
      (file.exportPlace "resource" ["aws_sqs_queue.jobs", "aws_sqs_queue"])
      [("address", .scalar (.text "aws_sqs_queue.jobs")),
        ("type", .scalar (.text "aws_sqs_queue")), ("name", .scalar (.text "jobs")),
        ("values", .map [])])] := by
    subst hfile
    rfl
  rw [hsteps, hplace]
  rfl

theorem listed_from_own_lines_configurationFirst :
    (list .resource configurationFirstStore (.ofPath "plan.json")).entities.map
        (fun entity => (entity.place.span.startLine, entity.place.span.endLine)) = [(7, 12)]
      ∧ ∀ entity ∈ (list .resource configurationFirstStore (.ofPath "plan.json")).entities,
        ∃ p ∈ parts configurationFirst, (Indent.ascii 1).StandsIn configurationFirstText p
          ∧ ∃ body r address type, p.value.body? = some body
          ∧ body.textAt "address" "" = address ∧ body.textAt "type" "" = type
          ∧ Resource.ofPlan entity.place body = .ok r ∧ entity = .resource r
          ∧ entity.place.span.found = true
          ∧ (entity.place.span = p.span configurationFirstText ↔
            ∀ other ∈ elementsUnder (· == "resources") (.map configurationFirst),
              other ∉ parts configurationFirst → other.above < p.above →
              ¬ (ElementTest.ofPlan address type).Matches other.value) :=
  ⟨spans_configurationFirst, listed_from_own_lines 1 rfl isDocument_configurationFirst
    addressed_configurationFirst apart_configurationFirst reads_configurationFirst
    classify_configurationFirst⟩

/-- The one planned queue is written on lines 19 to 24 and listed with lines 7 to 12. -/
theorem listed_from_configuration :
    (∀ p ∈ parts configurationFirst, Addressed p) ∧ (parts configurationFirst).Pairwise Apart
      ∧ (Raw.map configurationFirst).IsDocument
      ∧ (FileItem.ofPath "plan.json").Reads configurationFirstStore configurationFirstText
      ∧ (FileItem.ofPath "plan.json").classify configurationFirstText = .plan
      ∧ (parts configurationFirst).map Placed.lines = [(19, 24)]
      ∧ (list .resource configurationFirstStore (.ofPath "plan.json")).entities.map
          (fun entity => (entity.place.span.startLine, entity.place.span.endLine)) = [(7, 12)] :=
  ⟨addressed_configurationFirst, apart_configurationFirst, isDocument_configurationFirst,
    reads_configurationFirst, classify_configurationFirst, rfl, spans_configurationFirst⟩

end Plan

end Plan

end TerraIndex
