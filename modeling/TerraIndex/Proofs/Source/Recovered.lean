import TerraIndex.Source.Locator
import TerraIndex.Proofs.Source.SingleLine
import TerraIndex.Proofs.Source.NamedChild
import TerraIndex.Proofs.Source.IndentedList
/-!
# What the locators recover

A locator finds a block in the text of a document, and the block can be decoded again from the
source of its span (`Locator.recovered`). Written on one line and written with indentation, a
document gives the same value up to the order of keys (`recovered_agree`), as long as the target
stands in no container that only the search of a single line looks into.

That search takes a key that ends like the container's name behind a quote for the container
itself, and the search line by line does not (`recovered_differ`).
-/

namespace TerraIndex

open Json

/-- What a reference to a block asks for: a target and the key of the containers it is in. -/
def BlockRef.sought (ref : BlockRef) (fileKind : FileKind) :
    Except SelectError (String × Target) :=
  if ref.kind = "output" ∨ ref.kind = "variable" then
    match ref.labels with
    | [name] => .ok (if ref.kind = "output" then "outputs" else "variables", .child name)
    | _ => .error .labelCount
  else if ref.kind = "resource" then
    (Locator.testOf fileKind ref.labels).map fun test => (Locator.resourceContainer, .element test)
  else .error (.unknownKind ref.kind)

namespace Locator

/-- The locator of a target for a text with one line or with more. -/
def ofTarget (isSingleLine : Bool) (container : String) : Target → Locator
  | .child name => ofChild isSingleLine container name
  | .element test => ofTest isSingleLine test

theorem select_eq (ref : BlockRef) (fileKind : FileKind) (text : List Char) :
    select ref fileKind text = (ref.sought fileKind).map fun (container, target) =>
      ofTarget (decide ((Text.scanLines text).length ≤ 1)) container target := by
  obtain ⟨kind, labels⟩ := ref
  unfold select BlockRef.sought
  simp only
  split_ifs
  · rcases labels with _ | ⟨name, _ | ⟨other, rest⟩⟩ <;> rfl
  · rcases labels with _ | ⟨name, _ | ⟨other, rest⟩⟩ <;> rfl
  · cases testOf fileKind labels <;> rfl
  · rfl

/-- The value that a text begins with. -/
def firstValue? (text : List Char) : Option Raw :=
  match decodeFirst text with
  | .ok (value, _) => some value
  | .error _ => none

/-- The value that the source of the located span holds: the whole source of a single line, and
otherwise an element or, behind its key, a child. -/
def recovered (locator : Locator) (text : List Char) : Option Raw :=
  let span := locator.locate text
  match locator with
  | .singleLine _ =>
    if span.source = "" then none else (decode span.source.toList).toOption
  | .resourceList _ =>
    if span.found then firstValue? (Text.trimStart span.source.toList) else none
  | .namedChild child =>
    if span.found then (behindKey? child.name (Text.trimStart span.source.toList)).bind firstValue?
    else none

end Locator

section Documents

/-- What is selected of a document is one. -/
theorem isDocument_select? {target : Target} {v w : Raw} (hdoc : v.IsDocument)
    (h : target.select? v = some w) : w.IsDocument := by
  cases target with
  | child name =>
    cases v with
    | map entries => exact (entriesAreDocuments_iff entries).mp hdoc.2 _ (mem_of_entryAt? h)
    | _ => simp [Target.select?] at h
  | element test =>
    cases v with
    | list items => exact (itemsAreDocuments_iff items).mp hdoc _ (List.mem_of_find?_eq_some h)
    | _ => simp [Target.select?] at h

theorem select?_readBack (target : Target) (v : Raw) :
    target.select? v.readBack = (target.select? v).map Raw.readBack := by
  cases target with
  | child name =>
    cases v with
    | map entries => exact entryAt?_readBackEntries entries name
    | float x =>
      obtain ⟨y, hy, -⟩ := floatText_readFloat x
      simp [Raw.readBack, hy, Target.select?]
    | _ => rfl
  | element test =>
    cases v with
    | list items =>
      rw [Raw.readBack, readBackItems_eq]
      simp only [Target.select?, List.find?_map]
      congr 2
      funext item
      exact test.accepts_readBack item
    | float x =>
      obtain ⟨y, hy, -⟩ := floatText_readFloat x
      simp [Raw.readBack, hy, Target.select?]
    | _ => rfl

theorem isDocument_within {p q : Placed} (h : p.Within q) (hdoc : p.value.IsDocument) :
    q.value.IsDocument := by
  induction h with
  | self => exact hdoc
  | @inside q r _ hr ih =>
    obtain ⟨n, v⟩ := q
    cases v with
    | list items =>
      have hmem := List.mem_map_of_mem (f := Placed.value) hr
      rw [map_value_contents rfl] at hmem
      exact hereditary_isDocument.list ih _ hmem
    | map entries =>
      obtain ⟨⟨key, _⟩, hentry, rfl⟩ := List.mem_map.mp hr
      exact hereditary_isDocument.map ih _ (mem_of_placedEntries hentry)
    | tuple => exact ih.elim
    | _ => simp [Placed.contents] at hr

end Documents

namespace SingleLine

variable {line : SingleLine}

/-- From one line, the target is recovered from the first value that holds it, with its keys
sorted. -/
theorem recovered_line (hname : IsName line.container) {v : Raw} (hdoc : v.IsDocument) :
    (Locator.singleLine line).recovered (Style.line.encode v)
      = ((valuesUnder (endsLike line.container) v).findSome? line.holding).map fun w =>
          w.readBack.sorted := by
  have hlocate := line.search_line hname hdoc
  rw [Locator.recovered]
  simp only [Locator.locate, locate, hlocate]
  cases hfound : (valuesUnder (endsLike line.container) v).findSome? line.holding with
  | none => rfl
  | some w =>
    obtain ⟨u, hu, hw⟩ := List.exists_of_findSome?_eq_some hfound
    have hdocu := isDocument_valuesUnder _ v hdoc hu
    have hdocw : w.IsDocument := isDocument_select? (isDocument_readBack u hdocu) hw
    have hread := Style.decode_encode Style.isJson_minified hdocw
    have hne : String.ofList (Style.minified.encode w) ≠ "" := by
      obtain ⟨c, cs, hcs, -⟩ := written_head (Style.written_encode Style.isJson_minified w hdocw)
      rw [hcs, Ne, String.ofList_eq_empty_iff]
      exact List.cons_ne_nil c cs
    rw [if_neg hne, String.toList_ofList, hread]
    rfl

end SingleLine

section Indented

variable (width : Nat)

theorem firstValue?_text {v : Raw} {back : List Char} (level : Nat) (hdoc : v.IsDocument)
    (hback : Indent.Trails back) :
    Locator.firstValue? ((Indent.minimal width).valueText level v ++ (back ++ ['\n']))
      = some v.readBack := by
  have hends : Ends (back ++ ['\n']) := by
    rcases hback with rfl | rfl <;> simp [Ends]
  have hwritten := (Indent.minimal width).written_valueText v level hdoc
  have hvalue : decodeFirst ((Indent.minimal width).valueText level v ++ (back ++ ['\n']))
      = .ok (v.readBack, back ++ ['\n']) :=
    scanValue_written _ _ hwritten (by rw [List.length_append]; omega) hends
  rw [Locator.firstValue?, hvalue]

/-- The text of a value begins with a character that is no blank. -/
theorem valueText_head (v : Raw) (level : Nat) :
    ∃ c cs, (Indent.minimal width).valueText level v = c :: cs ∧ Text.isBlank c = false := by
  cases hnested : v.isNested with
  | true =>
    obtain ⟨b, t, ht, hb⟩ := (Indent.minimal width).valueText_nested level hnested
    exact ⟨b, t, ht, ResourceList.isBlank_of_bracket (by rw [hb, Bool.true_or])⟩
  | false =>
    have hleaf : (Indent.minimal width).valueText level v = (Indent.minimal width).leafText v := by
      cases v <;> first | rfl | simp [Raw.isNested] at hnested
    obtain ⟨c, cs, hcs, hblank, -⟩ := (Indent.minimal width).leafText_head v
    exact ⟨c, cs, hleaf.trans hcs, hblank⟩

theorem trimStart_text (v : Raw) (level : Nat) (rest : List Char) :
    Text.trimStart ((Indent.minimal width).valueText level v ++ rest)
      = (Indent.minimal width).valueText level v ++ rest := by
  obtain ⟨c, cs, hcs, hblank⟩ := valueText_head width v level
  rw [hcs]
  exact Text.trimStart_cons _ hblank

/-- Behind its key, a member is recovered from its text. -/
theorem recovered_member (key : String) {v : Raw} {back : List Char} (level : Nat)
    (hdoc : v.IsDocument) (hback : Indent.Trails back) :
    (behindKey? key (Text.trimStart ((Indent.minimal width).margin level
      ++ (Indent.minimal width).keyText key ++ ((Indent.minimal width).valueText level v
        ++ (back ++ ['\n']))))).bind Locator.firstValue? = some v.readBack := by
  have hblank : ∀ c ∈ [' '], Text.isBlank c = true := by decide
  have hkey := behindKey?_key (w := []) key
    ((Indent.minimal width).valueText level v ++ (back ++ ['\n'])) (by decide) hblank
  rw [trimStart_text width v level] at hkey
  have htrim : Text.trimStart ((Indent.minimal width).margin level
      ++ (Indent.minimal width).keyText key ++ ((Indent.minimal width).valueText level v
        ++ (back ++ ['\n'])))
      = Text.quoteMinimal key.toList ++ ([] ++ ':' :: ([' ']
        ++ ((Indent.minimal width).valueText level v ++ (back ++ ['\n'])))) := by
    rw [List.append_assoc,
      Text.trimStart_append _ ((Indent.minimal width).margin_blank level).blank]
    simp only [Indent.keyText, Indent.minimal, Text.quoteMinimal, List.cons_append,
      List.append_assoc, List.nil_append]
    exact Text.trimStart_cons _ (by decide)
  rw [htrim, hkey]
  exact firstValue?_text width level hdoc hback

/-- From an indented text, a child is recovered from the first map under its name in a container. -/
theorem NamedChild.recovered_indented (child : NamedChild) {v : Raw} (hdoc : v.IsDocument) :
    (Locator.namedChild child).recovered ((Indent.minimal width).text v)
      = ((childrenUnder (· == child.container) (· == child.name) v).head?).map fun p =>
          p.value.readBack := by
  have hlocate := child.locate_indented (Indent.minimal width) v
  rw [Indent.writesKey_eq _ rfl, Indent.writesKey_eq _ rfl] at hlocate
  rw [Locator.recovered]
  simp only [Locator.locate, hlocate]
  cases hhead : (childrenUnder (· == child.container) (· == child.name) v).head? with
  | none => rfl
  | some p =>
    have hp := List.mem_of_head? hhead
    have hwithin := childrenUnder_within _ _ hp
    obtain ⟨⟨n, w⟩, hc, hmem⟩ := List.mem_flatMap.mp hp
    cases w with
    | map entries =>
      obtain ⟨-, key, hkey, hentry⟩ := key_of_mapsUnder hmem
      obtain ⟨level, front, back, hfront, hback, hsource⟩ :=
        (Indent.minimal width).source_of_contents
          ((Indent.minimal width).standsIn_within (occurrences_within _ v 0 hc))
          (mapsUnder_contents hmem)
      cases hfront with
      | item hlist => exact absurd hlist (by simp [Raw.isMap])
      | @member _ other hvalue hother =>
        obtain rfl := Raw.map.inj hvalue
        obtain rfl := placedEntries_key hentry hother
        obtain rfl := beq_iff_eq.mp hkey
        have hmember := recovered_member width child.name level (isDocument_within hwithin hdoc)
          hback
        rw [p.found_span, if_pos rfl, hsource, String.toList_ofList]
        exact hmember
    | _ => simp [Placed.mapsUnder] at hmem

/-- From an indented text, an element is recovered from the first one that is accepted, if it
stands in a list. -/
theorem ResourceList.recovered_indented (list : ResourceList) {v : Raw} (hdoc : v.IsDocument)
    (hmaps : ∀ c ∈ occurrences (· == list.container) 0 v, c.value.isMap = true →
      ∀ p ∈ c.contents, list.test.accepts p.value = false) :
    (Locator.resourceList list).recovered ((Indent.minimal width).text v)
      = ((elementsUnder (· == list.container) v).find?
          fun p => list.test.accepts p.value).map fun p => p.value.readBack := by
  have hlocate := list.locate_indented (Indent.minimal width) hdoc
  rw [Indent.writesKey_eq _ rfl] at hlocate
  rw [Locator.recovered]
  simp only [Locator.locate, hlocate]
  cases hfind : (elementsUnder (· == list.container) v).find?
      fun p => list.test.accepts p.value with
  | none => rfl
  | some p =>
    have haccepts := List.find?_some hfind
    have hp := List.mem_of_find?_eq_some hfind
    have hwithin := elementsUnder_within _ hp
    obtain ⟨c, hc, hmem⟩ := List.mem_flatMap.mp hp
    obtain ⟨level, front, back, hfront, hback, hsource⟩ :=
      (Indent.minimal width).source_of_contents
        ((Indent.minimal width).standsIn_within (occurrences_within _ v 0 hc)) hmem
    cases hfront with
    | item =>
      have hvalue := firstValue?_text width level (isDocument_within hwithin hdoc) hback
      rw [p.found_span, if_pos rfl, hsource, String.toList_ofList,
        Text.trimStart_append _ ((Indent.minimal width).margin_blank level).blank,
        trimStart_text]
      exact hvalue
    | member hvalue =>
      have hnone := hmaps c hc (by rw [hvalue]; rfl) p hmem
      rw [hnone] at haccepts
      exact absurd haccepts Bool.false_ne_true

end Indented

section BothLayouts

mutual

/-- The values that a search of a single line looks into besides the containers that are in no
other container: those under other keys that end like the container's, and those in containers. -/
def strays (container : String) : Raw → List Raw
  | .list items => straysOfItems container items
  | .tuple items => straysOfItems container items
  | .map entries => straysOfEntries container entries
  | _ => []

def straysOfItems (container : String) : List Raw → List Raw
  | [] => []
  | item :: rest => strays container item ++ straysOfItems container rest

def straysOfEntries (container : String) : List (String × Raw) → List Raw
  | [] => []
  | (key, value) :: rest =>
    (if key == container then valuesUnder (endsLike container) value
      else (if endsLike container key then [value] else []) ++ strays container value)
    ++ straysOfEntries container rest

end

/-- What the search line by line takes of a container is what the search of a single line takes:
a child is a map, and elements stand in lists. -/
def Target.Fits : Target → Raw → Prop
  | .child name, .map entries => ∀ value, entryAt? entries name = some value → value.isMap = true
  | .element test, .map entries => ∀ entry ∈ entries, test.accepts entry.2 = false
  | _, _ => True

/-- The target stands in containers of the value only, and in a form that fits. -/
structure Unambiguous (container : String) (target : Target) (v : Raw) : Prop where
  strays : ∀ w ∈ strays container v, target.select? w = none
  fits : ∀ c ∈ occurrences (· == container) 0 v, target.Fits c.value

theorem endsLike_self (container : String) : endsLike container container = true :=
  List.isSuffixOf_iff_suffix.mpr (List.suffix_refl _)

section Search

variable {α : Type} {container : String} {f : Raw → Option α}

theorem findSome?_eq_none {values : List Raw} (h : ∀ w ∈ values, f w = none) :
    values.findSome? f = none := List.findSome?_eq_none_iff.mpr h

mutual

/-- Where the other values give nothing, only the containers count. -/
theorem findSome?_strays : ∀ (v : Raw) (n : Nat), (∀ w ∈ strays container v, f w = none) →
    (valuesUnder (endsLike container) v).findSome? f
      = (occurrences (· == container) n v).findSome? fun p => f p.value
  | .list items, n, h => findSome?_straysOfItems items (n + 1) h
  | .tuple items, n, h => findSome?_straysOfItems items (n + 1) h
  | .map entries, n, h => findSome?_straysOfEntries entries (n + 1) h
  | .null, _, _ => rfl
  | .bool _, _, _ => rfl
  | .int _, _, _ => rfl
  | .float _, _, _ => rfl
  | .text _, _, _ => rfl
  | .other _, _, _ => rfl

theorem findSome?_straysOfItems : ∀ (items : List Raw) (n : Nat),
    (∀ w ∈ straysOfItems container items, f w = none) →
    (valuesUnderItems (endsLike container) items).findSome? f
      = (occurrencesItems (· == container) n items).findSome? fun p => f p.value
  | [], _, _ => rfl
  | item :: items, n, h => by
    obtain ⟨hitem, hitems⟩ := List.forall_mem_append.mp h
    rw [valuesUnderItems, occurrencesItems, List.findSome?_append, List.findSome?_append,
      findSome?_strays item n hitem, findSome?_straysOfItems items (n + item.height) hitems]

theorem findSome?_straysOfEntries : ∀ (entries : List (String × Raw)) (n : Nat),
    (∀ w ∈ straysOfEntries container entries, f w = none) →
    (valuesUnderEntries (endsLike container) entries).findSome? f
      = (occurrencesEntries (· == container) n entries).findSome? fun p => f p.value
  | [], _, _ => rfl
  | (key, value) :: entries, n, h => by
    obtain ⟨hvalue, hentries⟩ := List.forall_mem_append.mp h
    have hrest := findSome?_straysOfEntries entries (n + value.height) hentries
    rw [valuesUnderEntries, occurrencesEntries, List.findSome?_append, List.findSome?_append,
      List.findSome?_append, hrest]
    congr 1
    cases hkey : key == container with
    | true =>
      rw [hkey, if_pos rfl] at hvalue
      obtain rfl := beq_iff_eq.mp hkey
      rw [endsLike_self, if_pos rfl, if_pos rfl, findSome?_eq_none hvalue, Option.or_none,
        List.findSome?_singleton, List.findSome?_singleton]
    | false =>
      rw [hkey, if_neg Bool.false_ne_true] at hvalue
      obtain ⟨hother, hinside⟩ := List.forall_mem_append.mp hvalue
      rw [findSome?_eq_none hother, Option.none_or, findSome?_strays value n hinside,
        if_neg Bool.false_ne_true]

end

end Search

end BothLayouts

section Target

/-- Where a child is a map, the first map under its name is the child. -/
theorem head?_mapsUnder {name : String} : ∀ {entries : List (String × Raw)} (n : Nat),
    (∀ value, entryAt? entries name = some value → value.isMap = true) →
    ((mapsUnder (· == name) n entries).head?).map Placed.value = entryAt? entries name
  | [], _, _ => rfl
  | (key, value) :: entries, n, h => by
    rw [mapsUnder, entryAt?]
    rw [entryAt?] at h
    by_cases hkey : key = name
    · rw [if_pos hkey] at h ⊢
      rw [h value rfl, beq_iff_eq.mpr hkey]
      rfl
    · rw [if_neg hkey] at h ⊢
      rw [beq_false_of_ne hkey, Bool.false_and, if_neg Bool.false_ne_true, List.nil_append]
      exact head?_mapsUnder _ h

theorem select?_child {name : String} {c : Placed} (hfits : (Target.child name).Fits c.value) :
    ((c.mapsUnder (· == name)).head?).map Placed.value = (Target.child name).select? c.value := by
  obtain ⟨n, v⟩ := c
  cases v with
  | map entries => exact head?_mapsUnder (n + 1) hfits
  | _ => rfl

theorem fits_contents {test : ElementTest} {c : Placed} (hfits : (Target.element test).Fits c.value)
    (hmap : c.value.isMap = true) : ∀ p ∈ c.contents, test.accepts p.value = false := by
  intro p hp
  obtain ⟨n, v⟩ := c
  cases v with
  | map entries =>
    obtain ⟨⟨key, _⟩, hentry, rfl⟩ := List.mem_map.mp hp
    exact hfits _ (mem_of_placedEntries hentry)
  | _ => simp [Raw.isMap] at hmap

theorem select?_element {test : ElementTest} {c : Placed} (hdoc : c.value.IsDocument)
    (hfits : (Target.element test).Fits c.value) :
    (c.contents.find? fun p => test.accepts p.value).map Placed.value
      = (Target.element test).select? c.value := by
  cases hmap : c.value.isMap with
  | true =>
    have hnone := fits_contents hfits hmap
    have hselect : (Target.element test).select? c.value = none := by
      generalize c.value = v at hmap
      cases v <;> first | rfl | simp [Raw.isMap] at hmap
    rw [hselect, List.find?_eq_none.mpr fun p hp => by rw [hnone p hp]; exact Bool.false_ne_true]
    rfl
  | false =>
    obtain ⟨n, v⟩ := c
    cases v with
    | list items =>
      have hvalues := congrArg (List.find? test.accepts) (map_value_placedItems (n + 1) items)
      rw [List.find?_map] at hvalues
      exact hvalues
    | map => simp [Raw.isMap] at hmap
    | tuple => exact hdoc.elim
    | _ => rfl

end Target

section Agreement

theorem isName_outputs : IsName "outputs" := ⟨by decide, by decide, by decide⟩

theorem isName_variables : IsName "variables" := ⟨by decide, by decide, by decide⟩

theorem isName_resources : IsName "resources" := ⟨by decide, by decide, by decide⟩

/-- What a reference asks for: a child in one of two containers, or a resource. -/
theorem sought_cases {ref : BlockRef} {fileKind : FileKind} {container : String} {target : Target}
    (h : ref.sought fileKind = .ok (container, target)) :
    IsName container ∧ ∀ test, target = .element test → container = Locator.resourceContainer := by
  unfold BlockRef.sought at h
  split_ifs at h
  · split at h
    · obtain ⟨rfl, rfl⟩ := Prod.mk.inj (Except.ok.inj h)
      exact ⟨isName_outputs, nofun⟩
    · cases h
  · split at h
    · obtain ⟨rfl, rfl⟩ := Prod.mk.inj (Except.ok.inj h)
      exact ⟨isName_variables, nofun⟩
    · cases h
  · cases htest : Locator.testOf fileKind ref.labels with
    | ok test =>
      rw [htest] at h
      obtain ⟨rfl, rfl⟩ := Prod.mk.inj (Except.ok.inj h)
      exact ⟨isName_resources, fun _ _ => rfl⟩
    | error e =>
      rw [htest] at h
      cases h

section Layouts

variable {container : String} {target : Target} {v : Raw} (hdoc : v.IsDocument)
  (h : Unambiguous container target v)
include hdoc h

/-- From an indented text, the target is recovered from the first container that holds it. -/
theorem recovered_indented (width : Nat)
    (hcontainer : ∀ test, target = .element test → container = Locator.resourceContainer) :
    (Locator.ofTarget false container target).recovered ((Indent.minimal width).text v)
      = ((occurrences (· == container) 0 v).findSome? fun c => target.select? c.value).map
          Raw.readBack := by
  cases target with
  | child name =>
    have hselect : (childrenUnder (· == container) (· == name) v).head?.map Placed.value
        = (occurrences (· == container) 0 v).findSome? fun c =>
          (Target.child name).select? c.value := by
      rw [childrenUnder, List.head?_flatMap, List.map_findSome?]
      exact findSome?_congr fun c hc => select?_child (h.fits c hc)
    have hrecovered := NamedChild.recovered_indented width ⟨container, name⟩ hdoc
    rw [← hselect, Option.map_map]
    exact hrecovered
  | element test =>
    obtain rfl := hcontainer test rfl
    have hselect : ((elementsUnder (· == Locator.resourceContainer) v).find?
          fun p => test.accepts p.value).map Placed.value
        = (occurrences (· == Locator.resourceContainer) 0 v).findSome? fun c =>
          (Target.element test).select? c.value := by
      rw [elementsUnder, List.find?_flatMap, List.map_findSome?]
      exact findSome?_congr fun c hc =>
        select?_element (isDocument_within (occurrences_within _ v 0 hc) hdoc) (h.fits c hc)
    have hrecovered := ResourceList.recovered_indented width ⟨Locator.resourceContainer, test⟩ hdoc
      fun c hc => fits_contents (h.fits c hc)
    rw [← hselect, Option.map_map]
    exact hrecovered

/-- From one line, the target is recovered from the first container that holds it. -/
theorem recovered_line (hname : IsName container)
    (hcontainer : ∀ test, target = .element test → container = Locator.resourceContainer) :
    (Locator.ofTarget true container target).recovered (Style.line.encode v)
      = ((occurrences (· == container) 0 v).findSome? fun c => target.select? c.value).map
          fun w => w.readBack.readBack.sorted := by
  have hlocator : Locator.ofTarget true container target = .singleLine ⟨container, target⟩ := by
    cases target with
    | child name => rfl
    | element test => rw [hcontainer test rfl]; rfl
  have hholding : ∀ w, (⟨container, target⟩ : SingleLine).holding w
      = (target.select? w).map Raw.readBack := select?_readBack target
  have hstrays : ∀ w ∈ strays container v, (⟨container, target⟩ : SingleLine).holding w = none := by
    intro w hw
    rw [hholding, h.strays w hw]
    rfl
  have hfound : (occurrences (· == container) 0 v).findSome?
        (fun c => (⟨container, target⟩ : SingleLine).holding c.value)
      = ((occurrences (· == container) 0 v).findSome? fun c => target.select? c.value).map
          Raw.readBack := by
    rw [List.map_findSome?]
    exact findSome?_congr fun c _ => hholding c.value
  have hline : (Locator.singleLine ⟨container, target⟩).recovered (Style.line.encode v) = _ :=
    SingleLine.recovered_line hname hdoc
  rw [hlocator, hline, findSome?_strays v 0 hstrays, hfound, Option.map_map]
  rfl

end Layouts

/-- A document written on one line and written with indentation: the locators chosen for the two
texts recover the same value, up to the order of keys, or none. -/
theorem recovered_agree {ref : BlockRef} {fileKind : FileKind} {container : String}
    {target : Target} {entries : List (String × Raw)} (width : Nat)
    (hsought : ref.sought fileKind = .ok (container, target))
    (hdoc : (Raw.map entries).IsDocument) (hentries : entries ≠ [])
    (h : Unambiguous container target (.map entries)) :
    ∃ one indented, Locator.select ref fileKind (Style.line.encode (.map entries)) = .ok one
      ∧ Locator.select ref fileKind ((Indent.minimal width).text (.map entries)) = .ok indented
      ∧ Option.Rel (fun v w => v.readBack.Same w)
        (indented.recovered ((Indent.minimal width).text (.map entries)))
        (one.recovered (Style.line.encode (.map entries))) := by
  obtain ⟨hname, hcontainer⟩ := sought_cases hsought
  have hline := Style.length_scanLines_line (.map entries)
  have htext := (Indent.minimal width).length_scanLines_map hentries
  refine ⟨.ofTarget true container target, .ofTarget false container target, ?_, ?_, ?_⟩
  · rw [Locator.select_eq, hsought, decide_eq_true hline]
    rfl
  · rw [Locator.select_eq, hsought, decide_eq_false (Nat.not_le_of_lt htext)]
    rfl
  · rw [recovered_indented hdoc h width hcontainer, recovered_line hdoc h hname hcontainer]
    cases hfound : (occurrences (· == container) 0 (.map entries)).findSome?
        fun c => target.select? c.value with
    | none => exact .none
    | some w =>
      obtain ⟨c, hc, hw⟩ := List.exists_of_findSome?_eq_some hfound
      have hdocw : w.IsDocument :=
        isDocument_select? (isDocument_within (occurrences_within _ _ 0 hc) hdoc) hw
      exact .some (same_sorted w.readBack.readBack
        (isDocument_readBack w.readBack (isDocument_readBack w hdocw)))

/-! ### Two documents -/

/-- A state with two outputs, one of them with a fraction and keys out of order. -/
def twoOutputs : List (String × Raw) :=
  [("version", .int 4),
    ("outputs", .map
      [("url", .map [("value", .text "https://example.org"), ("type", .text "string")]),
        ("ratio", .map [("value", .float ⟨0x3FB999999999999A⟩), ("type", .text "number")])]),
    ("resources", .list [])]

theorem isDocument_twoOutputs : (Raw.map twoOutputs).IsDocument := by
  simp [twoOutputs, Raw.IsDocument, entriesAreDocuments, itemsAreDocuments]
  decide

theorem unambiguous_twoOutputs : Unambiguous "outputs" (.child "ratio") (.map twoOutputs) where
  strays := by
    have hstrays : strays "outputs" (.map twoOutputs) = [] := rfl
    rw [hstrays]
    exact fun w hw => absurd hw List.not_mem_nil
  fits c hc := by
    have hoccurrences : occurrences (· == "outputs") 0 (.map twoOutputs)
        = [⟨2, (twoOutputs[1]).2⟩] := rfl
    rw [hoccurrences] at hc
    rw [List.mem_singleton.mp hc]
    intro value hvalue
    obtain rfl := Option.some.inj hvalue
    rfl

theorem recovered_agree_twoOutputs :
    (occurrences (· == "outputs") 0 (.map twoOutputs)).findSome?
        (fun c => (Target.child "ratio").select? c.value)
          = some (.map [("value", .float ⟨0x3FB999999999999A⟩), ("type", .text "number")])
      ∧ ∃ one indented,
        Locator.select ⟨"output", ["ratio"]⟩ .state (Style.line.encode (.map twoOutputs)) = .ok one
        ∧ Locator.select ⟨"output", ["ratio"]⟩ .state ((Indent.minimal 2).text (.map twoOutputs))
          = .ok indented
        ∧ Option.Rel (fun v w => v.readBack.Same w)
          (indented.recovered ((Indent.minimal 2).text (.map twoOutputs)))
          (one.recovered (Style.line.encode (.map twoOutputs))) :=
  ⟨rfl, recovered_agree 2 rfl isDocument_twoOutputs (by simp [twoOutputs]) unambiguous_twoOutputs⟩

/-- A state in which a map stands under a key that ends like the key of the outputs. -/
def likeOutputs : List (String × Raw) :=
  [("my\"outputs", .map [("url", .map [("value", .text "wrong")])]),
    ("outputs", .map [("url", .map [("value", .text "right")])])]

theorem isDocument_likeOutputs : (Raw.map likeOutputs).IsDocument := by
  simp [likeOutputs, Raw.IsDocument, entriesAreDocuments]

theorem recovered_differ :
    ∃ one indented,
      Locator.select ⟨"output", ["url"]⟩ .state (Style.line.encode (.map likeOutputs)) = .ok one
      ∧ Locator.select ⟨"output", ["url"]⟩ .state ((Indent.minimal 2).text (.map likeOutputs))
        = .ok indented
      ∧ one.recovered (Style.line.encode (.map likeOutputs))
        = some (.map [("value", .text "wrong")])
      ∧ indented.recovered ((Indent.minimal 2).text (.map likeOutputs))
        = some (.map [("value", .text "right")]) :=
  ⟨.singleLine ⟨"outputs", .child "url"⟩, .namedChild ⟨"outputs", "url"⟩, rfl, rfl,
    SingleLine.recovered_line isName_outputs isDocument_likeOutputs,
    NamedChild.recovered_indented 2 _ isDocument_likeOutputs⟩

end Agreement

end TerraIndex
