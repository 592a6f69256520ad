import TerraIndex.Proofs.Listing.Attempts
import TerraIndex.Proofs.Listing.Plan
import TerraIndex.Proofs.Source.Recovered
/-!
# Planned resources without an address

An entry of a plan that supplies no address gets one made of its type and name, and the search is
made for that. But the search compares it with the key `address` of the elements, which the entry
does not have: it is never found in its own lines, and only where some other element under a key
`resources` has the computed address does it get lines at all (`unaddressed_elsewhere`).
-/

namespace TerraIndex

open Json Json.Indent

/-- What stands directly in a value is read where the value is. -/
theorem read_contents {p q : Placed} {node : Node} (hdoc : p.value.IsDocument)
    (hread : p.value.read = .ok node) (h : q ∈ p.contents) : ∃ part, q.value.read = .ok part := by
  obtain ⟨n, v⟩ := p
  rcases read_cases hdoc hread with ⟨items, nodes, rfl, -, hitems⟩ |
    ⟨entries, body, rfl, -, hentries⟩ | ⟨hleaf, -⟩
  · have hmem := List.mem_map_of_mem (f := Placed.value) h
    rw [map_value_contents rfl] at hmem
    have hpart := List.mem_map_of_mem (f := Raw.read) hmem
    rw [hitems] at hpart
    obtain ⟨part, -, hpart⟩ := List.mem_map.mp hpart
    exact ⟨part, hpart.symm⟩
  · obtain ⟨⟨key, _⟩, hentry, rfl⟩ := List.mem_map.mp h
    have hkey := entryAt?_of_mem hdoc.1 (mem_of_placedEntries hentry)
    obtain ⟨part, -, hpart⟩ := child?_some (body?_map hentries) hkey
    exact ⟨part, hpart⟩
  · cases v with
    | list | tuple | map => simp [Raw.isNested] at hleaf
    | _ => simp [Placed.contents] at h

theorem read_within {p q : Placed} {node : Node} (h : p.Within q) (hdoc : p.value.IsDocument)
    (hread : p.value.read = .ok node) : ∃ part, q.value.read = .ok part := by
  induction h with
  | self => exact ⟨node, hread⟩
  | inside hwithin hr ih =>
    obtain ⟨part, hpart⟩ := ih
    exact read_contents (isDocument_within hwithin hdoc) hpart hr

theorem body?_within {p q : Placed} {tree : Body} {entries : List (String × Raw)} (h : p.Within q)
    (hdoc : p.value.IsDocument) (hbody : p.value.body? = some tree)
    (hvalue : q.value = .map entries) : ∃ body, q.value.body? = some body := by
  obtain ⟨part, hpart⟩ := read_within h hdoc (read_of_body? hbody)
  rcases read_cases (isDocument_within h hdoc) hpart with ⟨_, _, hlist, -⟩ |
    ⟨others, body, hmap, -, hentries⟩ | ⟨hleaf, -⟩
  · rw [hvalue] at hlist
    simp at hlist
  · rw [hmap]
    exact ⟨body, body?_map hentries⟩
  · rw [hvalue] at hleaf
    simp [Raw.isNested] at hleaf

namespace Plan

/-- The lines that the search finds for an entry: those of the first element under a key `resources`
with its type and its address, supplied or computed. -/
def foundSpan (root : List (String × Raw)) (text : List Char) (entry : Body) : Span :=
  match (elementsUnder (· == "resources") (.map root)).find?
      (fun q => (ElementTest.ofPlan (address entry) (entry.textAt "type" "")).accepts q.value) with
  | some found => found.span text
  | none => .empty

/-- The attempt on a planned part, if it is a map. -/
def partAttempt (path : String) (root : List (String × Raw)) (text : List Char) (p : Placed) :
    Option Attempt :=
  (partBody p).map fun entry =>
    .resource <$> Resource.ofPlan ⟨path, foundSpan root text entry⟩ entry

variable {root entries : List (String × Raw)} {text : List Char} {p : Placed}

theorem exportPlace_foundSpan {file : SourceFile} (width : Nat)
    (htext : text = (Indent.ascii width).text (.map root)) (hdoc : (Raw.map root).IsDocument)
    (hroot : root ≠ []) (hcontent : file.content.toList = text) (hkind : file.kind = .plan)
    (entry : Body) :
    file.exportPlace "resource" [address entry, entry.textAt "type" ""]
      = ⟨file.path, foundSpan root text entry⟩ := by
  subst htext
  generalize htest : ElementTest.ofPlan (address entry) (entry.textAt "type" "") = test
  have hlines : ¬ (Text.scanLines ((Indent.ascii width).text (.map root))).length ≤ 1 :=
    Nat.not_le_of_lt ((Indent.ascii width).length_scanLines_map hroot)
  have hselect : Locator.select ⟨"resource", [address entry, entry.textAt "type" ""]⟩ file.kind
      ((Indent.ascii width).text (.map root)) = .ok (.resourceList ⟨"resources", test⟩) := by
    rw [hkind, Locator.select, decide_eq_false hlines, ← htest]
    rfl
  have hlocate := (⟨"resources", test⟩ : ResourceList).locate_indented (Indent.ascii width) hdoc
  rw [writesKey_resources] at hlocate
  rw [SourceFile.exportPlace, hcontent, hselect, foundSpan, htest]
  exact congrArg _ hlocate

/-- The listing of a plan is made of the attempts on its parts. -/
theorem list_parts (width : Nat) {store : FileStore} {item : FileItem} {tree : Body}
    (htext : text = (Indent.ascii width).text (.map root)) (hdoc : (Raw.map root).IsDocument)
    (hholds : item.Holds store text) (hplan : item.classify text = .plan)
    (hread : (Raw.map root).body? = some tree) :
    list .resource store item
      = .ofAttempts .resource item.path
        ((parts root).filterMap (partAttempt item.path root text)) := by
  have hheld : item.Holds store ((Indent.ascii width).text (.map root)) := htext ▸ hholds
  have hlist : list .resource store item = _ :=
    list_export hdoc hheld (by rw [← htext, hplan]; decide) hread
  rw [← htext, hplan] at hlist
  have hattempts : SourceFile.planAttempts ⟨item.path, String.ofList text, .plan, tree⟩
      = (parts root).filterMap (partAttempt item.path root text) := by
    rw [SourceFile.planAttempts, entries_read hdoc hread, List.map_filterMap]
    refine List.filterMap_congr fun p hp =>
      congrArg (Option.map · (partBody p)) (funext fun body => ?_)
    have hroot : root ≠ [] := by
      rintro rfl
      simp [parts, Placed.child?, placedEntries, entryAt?] at hp
    rw [exportPlace_foundSpan width htext hdoc hroot String.toList_ofList rfl]
  have hnoted : ∀ attempt ∈ (parts root).filterMap (partAttempt item.path root text),
      IsNoted attempt := by
    intro attempt hattempt
    obtain ⟨p, -, hp⟩ := List.mem_filterMap.mp hattempt
    obtain ⟨entry, -, rfl⟩ := Option.map_eq_some_iff.mp hp
    exact (isNoted_planned _ _).map
  rw [hlist, SourceFile.steps, SourceFile.resourceAttempts, hattempts,
    ofSteps_attempts _ _ _ none hnoted, Option.none_or]
  rfl

section Entries

/-- Lines are found for an entry exactly when some element has its address and type. -/
theorem found_foundSpan (entry : Body) : (foundSpan root text entry).found = true ↔
    ∃ other ∈ elementsUnder (· == "resources") (.map root),
      (ElementTest.ofPlan (address entry) (entry.textAt "type" "")).Matches other.value := by
  unfold foundSpan
  split
  · rename_i found hfound
    have haccepts := List.find?_some hfound
    exact iff_of_true (Placed.found_span found text)
      ⟨found, List.mem_of_find?_eq_some hfound, (ElementTest.accepts_iff _ _).mp haccepts⟩
  · rename_i hnone
    refine iff_of_false (by decide) ?_
    rintro ⟨other, hother, hmatches⟩
    exact List.find?_eq_none.mp hnone other hother ((ElementTest.accepts_iff _ _).mpr hmatches)

/-- An element without a key `address` is not the one that is found. -/
theorem foundSpan_ne (entry : Body)
    (hp : p ∈ elementsUnder (· == "resources") (.map root)) (hvalue : p.value = .map entries)
    (haddress : entryAt? entries "address" = none) : foundSpan root text entry ≠ p.span text := by
  intro hspan
  unfold foundSpan at hspan
  split at hspan
  · rename_i found hfound
    have hown : found = p := eq_of_above_eq (elementsUnder_sorted _ _)
      (List.mem_of_find?_eq_some hfound) hp (Placed.above_of_span hspan)
    have haccepts := List.find?_some hfound
    obtain ⟨others, hothers, -, hfields⟩ := (ElementTest.accepts_iff _ _).mp haccepts
    rw [hown, hvalue] at hothers
    have hsupplied := hfields ("address", address entry) (by simp [ElementTest.ofPlan])
    rw [← Raw.map.inj hothers, haddress] at hsupplied
    simp at hsupplied
  · have hfound := p.found_span text
    rw [← hspan] at hfound
    exact absurd hfound (by decide)

theorem address_of_none {body : Body} {type name : String}
    (hbody : (Raw.map entries).body? = some body)
    (htype : entryAt? entries "type" = some (.text type))
    (hname : entryAt? entries "name" = some (.text name))
    (haddress : entryAt? entries "address" = none) :
    address body = resourceAddress type name (mode body) "" := by
  rw [address, textAt_none hbody "" haddress, if_pos rfl, textAt_text hbody "" htype,
    textAt_text hbody "" hname]

/-- The listing of a plan makes one attempt for each planned part that is a map. The attempt for one
without an address never gets the lines of that part, whatever the other entries are: it gets those
of the first other element with the computed address, or none. -/
theorem unaddressed_elsewhere (width : Nat) {store : FileStore} {item : FileItem} {tree : Body}
    (htext : text = (Indent.ascii width).text (.map root)) (hdoc : (Raw.map root).IsDocument)
    (hholds : item.Holds store text) (hplan : item.classify text = .plan)
    (hread : (Raw.map root).body? = some tree) :
    list .resource store item
        = .ofAttempts .resource item.path
          ((parts root).filterMap (partAttempt item.path root text))
      ∧ ∀ p ∈ parts root, ∀ entries type name, p.value = .map entries →
        entryAt? entries "type" = some (.text type) → entryAt? entries "name" = some (.text name) →
        entryAt? entries "address" = none →
        ∃ body, p.value.body? = some body
          ∧ partAttempt item.path root text p
            = some (.resource <$> Resource.ofPlan ⟨item.path, foundSpan root text body⟩ body)
          ∧ (Indent.ascii width).StandsIn text p
          ∧ foundSpan root text body ≠ p.span text
          ∧ ((foundSpan root text body).found = true ↔
            ∃ other ∈ elementsUnder (· == "resources") (.map root), other ≠ p
              ∧ (ElementTest.ofPlan (resourceAddress type name (mode body) "") type).Matches
                other.value) := by
  refine ⟨list_parts width htext hdoc hholds hplan hread, ?_⟩
  intro p hp entries type name hvalue htype hname haddress
  have hunder := mem_elementsUnder hp
  have hwithin := elementsUnder_within _ hunder
  obtain ⟨body, hbody⟩ := body?_within hwithin hdoc hread hvalue
  refine ⟨body, hbody, by rw [partAttempt, partBody, hbody]; rfl, ?_,
    foundSpan_ne body hunder hvalue haddress, ?_⟩
  · rw [htext]
    exact standsIn_within (Indent.ascii width) hwithin
  · rw [hvalue] at hbody
    rw [found_foundSpan, address_of_none hbody htype hname haddress, textAt_text hbody "" htype]
    refine ⟨?_, fun ⟨other, hother, _, hmatches⟩ => ⟨other, hother, hmatches⟩⟩
    rintro ⟨other, hother, hmatches⟩
    refine ⟨other, hother, ?_, hmatches⟩
    rintro rfl
    obtain ⟨others, hothers, -, hfields⟩ := hmatches
    rw [hvalue] at hothers
    have hsupplied := hfields ("address", _) (List.mem_cons_self ..)
    rw [← Raw.map.inj hothers, haddress] at hsupplied
    simp at hsupplied

end Entries

section Plan

def unaddressedQueue : Raw :=
  .map [("type", .text "aws_sqs_queue"), ("name", .text "mail"), ("values", .map [])]

/-- Two planned queues. Only the first has an address. -/
def oneAddress : List (String × Raw) := [("format_version", .text "1.2"),
  ("resource_changes", .list []),
  ("planned_values", .map [("root_module", .map [("resources",
    .list [queue ("values", .map []), unaddressedQueue])])])]

def oneAddressText : List Char := (Indent.ascii 1).text (.map oneAddress)

def oneAddressStore : FileStore := .ofText "plan.json" oneAddressText

theorem isDocument_oneAddress : (Raw.map oneAddress).IsDocument := by
  simp [oneAddress, unaddressedQueue, queue, Raw.IsDocument, entriesAreDocuments,
    itemsAreDocuments]

theorem parts_oneAddress :
    parts oneAddress = [⟨6, queue ("values", .map [])⟩, ⟨12, unaddressedQueue⟩] := rfl

set_option maxRecDepth 20000 in
theorem reads_oneAddress : (FileItem.ofPath "plan.json").Reads oneAddressStore oneAddressText :=
  ⟨_, by rfl, by rfl⟩

theorem classify_oneAddress : (FileItem.ofPath "plan.json").classify oneAddressText = .plan := by
  have hdecode := (Indent.ascii 1).decode_text isDocument_oneAddress
  rw [← oneAddressText] at hdecode
  simp only [FileItem.classify, FileItem.ofPath, isPlanText, hdecode]
  rfl

set_option maxRecDepth 20000 in
theorem holds_oneAddress : (FileItem.ofPath "plan.json").Holds oneAddressStore oneAddressText := by
  refine FileItem.holds_text reads_oneAddress rfl isDocument_oneAddress ?_ (by decide) (by decide)
  rw [← oneAddressText, classify_oneAddress]
  decide

def oneAddressTree : Body := (Raw.map oneAddress).body?.getD []

theorem body?_oneAddress : (Raw.map oneAddress).body? = some oneAddressTree := rfl

theorem unaddressed_elsewhere_oneAddress :
    (Raw.map oneAddress).body? = some oneAddressTree
      ∧ list .resource oneAddressStore (.ofPath "plan.json")
        = .ofAttempts .resource "plan.json"
          ((parts oneAddress).filterMap (partAttempt "plan.json" oneAddress oneAddressText))
      ∧ ∃ body, unaddressedQueue.body? = some body
        ∧ partAttempt "plan.json" oneAddress oneAddressText ⟨12, unaddressedQueue⟩
          = some (.resource <$> Resource.ofPlan
            ⟨"plan.json", foundSpan oneAddress oneAddressText body⟩ body)
        ∧ foundSpan oneAddress oneAddressText body
          ≠ (⟨12, unaddressedQueue⟩ : Placed).span oneAddressText := by
  obtain ⟨hlist, hparts⟩ := unaddressed_elsewhere 1 rfl isDocument_oneAddress holds_oneAddress
    classify_oneAddress body?_oneAddress
  obtain ⟨body, hbody, hattempt, -, hne, -⟩ := hparts ⟨12, unaddressedQueue⟩
    (by simp [parts_oneAddress]) _ _ _ rfl rfl rfl rfl
  exact ⟨body?_oneAddress, hlist, body, hbody, hattempt, hne⟩

/-- Of two planned queues with distinct addresses, the one that supplies its address is listed with
its lines, 7 to 12, and the other, on lines 13 to 17, with none. -/
theorem listed_without_lines :
    (Raw.map oneAddress).IsDocument
      ∧ (FileItem.ofPath "plan.json").Holds oneAddressStore oneAddressText
      ∧ (FileItem.ofPath "plan.json").classify oneAddressText = .plan
      ∧ (parts oneAddress).map Placed.lines = [(7, 12), (13, 17)]
      ∧ (Plan.entries oneAddressTree).map address = ["aws_sqs_queue.jobs", "aws_sqs_queue.mail"]
      ∧ (list .resource oneAddressStore (.ofPath "plan.json")).entities.map
          (fun entity => (entity.place.span.startLine, entity.place.span.endLine,
            entity.place.span.found)) = [(7, 12, true), (0, 0, false)] := by
  refine ⟨isDocument_oneAddress, holds_oneAddress, classify_oneAddress, rfl, by decide, ?_⟩
  rw [list_parts 1 rfl isDocument_oneAddress holds_oneAddress classify_oneAddress body?_oneAddress]
  rfl

end Plan

end Plan

end TerraIndex
