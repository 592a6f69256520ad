import TerraIndex.Proofs.Json.KeyOrder
import TerraIndex.Proofs.Source.Recovered
/-!
# Finding an element in a text of one line

In a text of one line with any white space between its tokens, `SingleLine.locate` finds an element
whenever a list under the key of the resources holds one that matches, and its source is read back
to an element that matches (`locate_line`). The source is the same whatever order the keys of the
element stand in.

This holds for lists that the decoder reads. Where an integer in a list has more digits than it
reads, the elements of that list are not found (`locate_long`).
-/

namespace TerraIndex

open Json

namespace ElementTest

variable {test : ElementTest}

theorem matches_same {v w : Raw} (hv : v.IsJson) (h : v.Same w) (hmatches : test.Matches v) :
    test.Matches w := by
  obtain ⟨entries, rfl, habsent, hfields⟩ := hmatches
  obtain ⟨others, rfl, -, hentries⟩ := same_map h
  refine ⟨others, rfl, fun key hkey => ?_, fun field hfield => ?_⟩
  · have hlacks : key ∉ others.map Prod.fst := fun hmem => by
      have hentry := mem_keys_iff.mp ((same_keys hv.1 h).mem_iff.mpr hmem)
      rw [hasEntry, habsent key hkey] at hentry
      cases hentry
    simpa [mem_keys_iff, hasEntry] using hlacks
  · obtain ⟨other, hother, hsame⟩ := hentries _ (mem_of_entryAt? (hfields field hfield))
    rw [hother, ← same_leaf rfl hsame]

theorem accepts_same {v w : Raw} (hv : v.IsJson) (hw : w.IsJson) (h : v.Same w) :
    test.accepts v = test.accepts w := by
  rw [Bool.eq_iff_iff, accepts_iff, accepts_iff]
  exact ⟨matches_same hv h, matches_same hw (same_symm hv hw h)⟩

theorem find?_same {items others : List Raw} (h : List.Forall₂ Raw.Same items others)
    (hitems : itemsAreJson items) (hothers : itemsAreJson others) :
    (items.find? test.accepts).map Style.minified.encode
      = (others.find? test.accepts).map Style.minified.encode := by
  induction h with
  | nil => rfl
  | @cons item other items others hsame _ ih =>
    rw [List.find?_cons, List.find?_cons, accepts_same hitems.1 hothers.1 hsame]
    cases test.accepts other with
    | true => exact congrArg some (Style.encode_same rfl hitems.1 hsame)
    | false => exact ih hitems.2 hothers.2

variable (test) in
/-- The text of the element that is chosen in a value. -/
def chosen? (v : Raw) : Option (List Char) :=
  ((⟨Locator.resourceContainer, .element test⟩ : SingleLine).inValue? v).map Style.minified.encode

variable (test) in
theorem chosen?_same {v w : Raw} (hv : v.IsJson) (hw : w.IsJson) (h : v.Same w) :
    test.chosen? v = test.chosen? w := by
  unfold chosen? SingleLine.inValue?
  by_cases hdoc : v.IsDocument
  · rw [if_pos hdoc, if_pos (isDocument_same hdoc hw h)]
    cases v with
    | list items =>
      obtain ⟨others, rfl, hitems⟩ := same_list h
      exact find?_same hitems hv hw
    | map entries =>
      obtain ⟨others, rfl, -⟩ := same_map h
      rfl
    | tuple => exact hv.elim
    | _ => rw [← same_leaf rfl h]
  · rw [if_neg hdoc, if_neg fun hdoc' => hdoc (isDocument_same hdoc' hv (same_symm hv hw h))]

/-- In a list that is read, an element is chosen if one matches. -/
theorem chosen?_list {items : List Raw} (hdoc : (Raw.list items).IsDocument)
    (h : ∃ element ∈ items, test.Matches element) :
    ∃ text, test.chosen? (.list items) = some text := by
  obtain ⟨element, helement, hmatches⟩ := h
  have hfound : (items.find? test.accepts).isSome = true :=
    List.find?_isSome.mpr ⟨element, helement, (test.accepts_iff element).mpr hmatches⟩
  obtain ⟨found, hfound⟩ := Option.isSome_iff_exists.mp hfound
  refine ⟨Style.minified.encode found, ?_⟩
  rw [chosen?, SingleLine.inValue?, if_pos hdoc]
  exact congrArg (Option.map Style.minified.encode) hfound

/-- The chosen text is not empty, and an element of the value that matches is read in it. -/
theorem read_chosen? {v : Raw} {t : List Char} (h : test.chosen? v = some t) :
    t ≠ [] ∧ ∃ items, v = .list items ∧ ∃ element ∈ items, ∃ found, decode t = .ok found
      ∧ element.readBack.Same found ∧ test.Matches found := by
  obtain ⟨element, hselect, rfl⟩ := Option.map_eq_some_iff.mp h
  obtain ⟨hdoc, hselect⟩ := Option.ite_none_right_eq_some.mp hselect
  have helement := isDocument_select? hdoc hselect
  have hread := isDocument_readBack element helement
  obtain ⟨c, cs, htext, -⟩ :=
    written_head (Style.written_encode Style.isJson_minified element helement)
  refine ⟨by rw [htext]; exact List.cons_ne_nil c cs, ?_⟩
  cases v with
  | list items =>
    have hmatches : test.Matches element.readBack := by
      rw [← accepts_iff, accepts_readBack]
      exact List.find?_some (p := test.accepts) hselect
    have hsame := same_sorted _ hread
    exact ⟨items, rfl, element, List.mem_of_find?_eq_some hselect, _,
      Style.decode_encode Style.isJson_minified helement, hsame,
      matches_same hread.isJson hsame hmatches⟩
  | _ => cases hselect

end ElementTest

section ReorderedElements

/-- The values are the same but for the order of the keys in one element, which matches and stands
in a list that is read under a key that ends like the key of the resources. -/
inductive Reordered (test : ElementTest) : Raw → Raw → Prop
  | element {front back : List (String × Raw)} {key : String} {before after : List Raw}
      {element other : Raw} : endsLike Locator.resourceContainer key = true →
      (Raw.list (before ++ element :: after)).IsDocument → test.Matches element →
      element.Same other →
      Reordered test (.map (front ++ (key, .list (before ++ element :: after)) :: back))
        (.map (front ++ (key, .list (before ++ other :: after)) :: back))
  | item {before after : List Raw} {v w : Raw} : Reordered test v w →
      Reordered test (.list (before ++ v :: after)) (.list (before ++ w :: after))
  | entry {front back : List (String × Raw)} {key : String} {v w : Raw} : Reordered test v w →
      Reordered test (.map (front ++ (key, v) :: back)) (.map (front ++ (key, w) :: back))

theorem isJson_item {before after : List Raw} {v : Raw}
    (h : (Raw.list (before ++ v :: after)).IsJson) : v.IsJson :=
  (itemsAreJson_iff _).mp h v (by simp)

theorem isJson_entry {front back : List (String × Raw)} {key : String} {v : Raw}
    (h : (Raw.map (front ++ (key, v) :: back)).IsJson) : v.IsJson :=
  (entriesAreJson_iff _).mp h.2 (key, v) (by simp)

theorem valuesUnderItems_append (p : String → Bool) (items others : List Raw) :
    valuesUnderItems p (items ++ others)
      = valuesUnderItems p items ++ valuesUnderItems p others := by
  induction items with
  | nil => rfl
  | cons item items ih => rw [List.cons_append, valuesUnderItems, valuesUnderItems, ih,
      List.append_assoc]

theorem valuesUnderEntries_append (p : String → Bool) (entries others : List (String × Raw)) :
    valuesUnderEntries p (entries ++ others)
      = valuesUnderEntries p entries ++ valuesUnderEntries p others := by
  induction entries with
  | nil => rfl
  | cons entry entries ih => rw [List.cons_append, valuesUnderEntries, valuesUnderEntries, ih,
      List.append_assoc, List.append_assoc, List.append_assoc]

namespace Reordered

variable {test : ElementTest} {v w : Raw}

theorem same (h : Reordered test v w) (hv : v.IsJson) : v.Same w := by
  induction h with
  | element _ _ _ hsame => exact same_entry hv (same_item (isJson_entry hv) hsame)
  | item _ ih => exact same_item hv (ih (isJson_item hv))
  | entry _ ih => exact same_entry hv (ih (isJson_entry hv))

/-- The first element that is chosen has one text in both values. The list that holds the reordered
element comes before whatever is inside it. -/
theorem findSome?_chosen? (h : Reordered test v w) (hv : v.IsJson) (hw : w.IsJson) :
    (valuesUnder (endsLike Locator.resourceContainer) v).findSome? test.chosen?
      = (valuesUnder (endsLike Locator.resourceContainer) w).findSome? test.chosen? := by
  induction h with
  | @element _ _ _ _ _ element _ hkey hdoc hmatches hsame =>
    obtain ⟨t, ht⟩ := ElementTest.chosen?_list hdoc ⟨element, by simp, hmatches⟩
    have hother := test.chosen?_same (isJson_entry hv) (isJson_entry hw)
      (same_item (isJson_entry hv) hsame)
    simp only [valuesUnder, valuesUnderEntries_append, valuesUnderEntries, hkey, if_true,
      List.findSome?_append, List.findSome?_singleton, ← hother, ht, Option.some_or]
  | item _ ih =>
    have hvalues := ih (isJson_item hv) (isJson_item hw)
    simp only [valuesUnder, valuesUnderItems_append, valuesUnderItems, List.findSome?_append,
      hvalues]
  | @entry _ _ key _ _ h ih =>
    have hvalues := ih (isJson_entry hv) (isJson_entry hw)
    have hchosen := test.chosen?_same (isJson_entry hv) (isJson_entry hw)
      (h.same (isJson_entry hv))
    simp only [valuesUnder, valuesUnderEntries_append, valuesUnderEntries, List.findSome?_append,
      hvalues]
    split_ifs
    · rw [List.findSome?_singleton, List.findSome?_singleton, hchosen]
    · rfl

end Reordered

end ReorderedElements

section Element

mutual

theorem valuesUnder_sublist {p q : String → Bool} (h : ∀ key, p key = true → q key = true) :
    ∀ v : Raw, (valuesUnder p v).Sublist (valuesUnder q v)
  | .list items => valuesUnderItems_sublist h items
  | .tuple items => valuesUnderItems_sublist h items
  | .map entries => valuesUnderEntries_sublist h entries
  | .null => .slnil
  | .bool _ => .slnil
  | .int _ => .slnil
  | .float _ => .slnil
  | .text _ => .slnil
  | .other _ => .slnil

theorem valuesUnderItems_sublist {p q : String → Bool} (h : ∀ key, p key = true → q key = true) :
    ∀ items : List Raw, (valuesUnderItems p items).Sublist (valuesUnderItems q items)
  | [] => .slnil
  | item :: items => (valuesUnder_sublist h item).append (valuesUnderItems_sublist h items)

theorem valuesUnderEntries_sublist {p q : String → Bool} (h : ∀ key, p key = true → q key = true) :
    ∀ entries : List (String × Raw),
    (valuesUnderEntries p entries).Sublist (valuesUnderEntries q entries)
  | [] => .slnil
  | (key, value) :: entries => by
    have hself : (if p key then [value] else []).Sublist (if q key then [value] else []) := by
      split_ifs with hp hq
      · exact .refl _
      · exact absurd (h key hp) hq
      · exact List.nil_sublist _
      · exact .refl _
    exact (hself.append (valuesUnder_sublist h value)).append
      (valuesUnderEntries_sublist h entries)

end

section Located

variable {test : ElementTest} {v : Raw} {t : List Char} (hjson : v.IsJson)
  (h : Spaced v.tokens t)
include hjson h

theorem length_scanLines_spaced : (Text.scanLines t).length = 1 := by
  have hline := newline_notMem_spaced h (newline_notMem_tokens v)
  rw [← List.append_nil v.tokens] at h
  obtain ⟨w, s, rest, rfl, -, ⟨c, cs, rfl, -⟩, -⟩ :=
    decodeFirst_spaced hjson (show Follows [] from nofun) h
  rw [Text.scanLines, Text.splitNewlines_of_not_mem hline, List.length_map, Text.dropFinalEmpty]
  split
  · simp_all
  · rfl

theorem locate_spaced : SingleLine.locate ⟨Locator.resourceContainer, .element test⟩ t
    = ⟨1, 1, String.ofList (((valuesUnder (endsLike Locator.resourceContainer) v).findSome?
        test.chosen?).getD [])⟩ := by
  have hsearch : (⟨Locator.resourceContainer, .element test⟩ : SingleLine).search t.length t = _ :=
    SingleLine.search_spaced isName_resources hjson h
  have hchosen : (valuesUnder (endsLike Locator.resourceContainer) v).findSome? test.chosen?
      = ((valuesUnder (endsLike Locator.resourceContainer) v).findSome?
        (⟨Locator.resourceContainer, .element test⟩ : SingleLine).inValue?).map
          Style.minified.encode := List.map_findSome?.symm
  rw [SingleLine.locate, hsearch, length_scanLines_spaced hjson h, hchosen]
  cases (valuesUnder (endsLike Locator.resourceContainer) v).findSome?
    (⟨Locator.resourceContainer, .element test⟩ : SingleLine).inValue? <;> rfl

end Located

/-- In a text of one line, whatever white space stands between its tokens, an element that matches
is found if there is one in a list under the key of the resources, at any depth, that the decoder
reads. What is found is read back to an element of such a list, or of one under a key that ends like
it, and that matches. It is the same whatever order the keys of the element stand in. -/
theorem locate_line {v : Raw} {t : List Char} (test : ElementTest) (hjson : v.IsJson)
    (h : Spaced v.tokens t) :
    ∃ source, SingleLine.locate ⟨Locator.resourceContainer, .element test⟩ t = ⟨1, 1, source⟩
      ∧ ((∃ items, .list items ∈ valuesUnder (· == Locator.resourceContainer) v
        ∧ (Raw.list items).IsDocument ∧ ∃ element ∈ items, test.Matches element) → source ≠ "")
      ∧ (source ≠ "" → ∃ items, .list items ∈ valuesUnder (endsLike Locator.resourceContainer) v
        ∧ ∃ element ∈ items, ∃ found, decode source.toList = .ok found
          ∧ element.readBack.Same found ∧ test.Matches found)
      ∧ ∀ {w : Raw} {u : List Char}, w.IsJson → Spaced w.tokens u → Reordered test v w →
        SingleLine.locate ⟨Locator.resourceContainer, .element test⟩ u = ⟨1, 1, source⟩ := by
  refine ⟨_, locate_spaced hjson h, ?_, ?_, fun hw hu hreordered => ?_⟩
  · rintro ⟨items, hitems, hdoc, hmatches⟩
    have hkey : ∀ key, (key == Locator.resourceContainer) = true →
        endsLike Locator.resourceContainer key = true := fun key hkey => by
      rw [beq_iff_eq.mp hkey]
      exact endsLike_self _
    have hmem := (valuesUnder_sublist hkey v).subset hitems
    obtain ⟨text, htext⟩ := ElementTest.chosen?_list hdoc hmatches
    obtain ⟨found, hfound⟩ := Option.isSome_iff_exists.mp
      (List.findSome?_isSome_iff (f := test.chosen?).mpr ⟨_, hmem, by rw [htext]; rfl⟩)
    obtain ⟨value, -, hvalue⟩ := List.exists_of_findSome?_eq_some hfound
    rw [hfound, Option.getD_some, Ne, String.ofList_eq_empty_iff]
    exact (ElementTest.read_chosen? hvalue).1
  · intro hsource
    cases hfound : (valuesUnder (endsLike Locator.resourceContainer) v).findSome? test.chosen? with
    | none =>
      rw [hfound] at hsource
      exact absurd rfl hsource
    | some text =>
      obtain ⟨value, hmem, hvalue⟩ := List.exists_of_findSome?_eq_some hfound
      obtain ⟨-, items, rfl, hread⟩ := ElementTest.read_chosen? hvalue
      rw [Option.getD_some, String.toList_ofList]
      exact ⟨items, hmem, hread⟩
  · rw [hreordered.findSome?_chosen? hjson hw]
    exact locate_spaced hw hu

/-- Resources with a number among them. -/
def numbered : Raw :=
  .map [("resources", .list [.int 1, .map [("type", .text "a"), ("name", .text "b")]])]

/-- A line with blanks around colons and commas. -/
def numberedLine : List Char :=
  ['\x7b'] ++ (Text.quoteMinimal "resources".toList ++ ([' '] ++ ([':'] ++ (['\t'] ++ (['[']
    ++ (intText 1 ++ ([','] ++ ([' '] ++ (['\x7b'] ++ (Text.quoteMinimal "type".toList ++ ([':']
    ++ (Text.quoteMinimal "a".toList ++ ([','] ++ (Text.quoteMinimal "name".toList ++ ([' ']
    ++ ([':'] ++ (Text.quoteMinimal "b".toList ++ (['\x7d'] ++ ([' '] ++ ([']']
    ++ (['\x7d'] ++ [])))))))))))))))))))))

theorem spaced_numbered : Spaced numbered.tokens numberedLine := by
  have hspace : Spaces [' '] := by decide
  have htab : Spaces ['\t'] := by decide
  have hone : (Token.leaf (.int 1)).Spelled (intText 1) := .numeral (numeral_intText (by decide))
  exact .token (.mark '\x7b') (.token (.minimal "resources") (.cons hspace (.mark ':')
    (.cons htab (.mark '[') (.token hone (.token (.mark ',') (.cons hspace (.mark '\x7b')
    (.token (.minimal "type") (.token (.mark ':') (.token (.minimal "a") (.token (.mark ',')
    (.token (.minimal "name") (.cons hspace (.mark ':') (.token (.minimal "b")
    (.token (.mark '\x7d') (.cons hspace (.mark ']') (.token (.mark '\x7d')
    (.nil (by decide))))))))))))))))))

theorem isDocument_numbered : numbered.IsDocument := by decide

theorem locate_line_numbered :
    numbered.IsJson ∧ Spaced numbered.tokens numberedLine
      ∧ ∃ source, SingleLine.locate ⟨Locator.resourceContainer, .element ⟨[("type", "a")], ["x"]⟩⟩
          numberedLine = ⟨1, 1, source⟩ ∧ source ≠ ""
        ∧ ∃ found, decode source.toList = .ok found
          ∧ ElementTest.Matches ⟨[("type", "a")], ["x"]⟩ found := by
  have hjson := isDocument_numbered.isJson
  obtain ⟨source, hlocate, hfound, hread, -⟩ :=
    locate_line ⟨[("type", "a")], ["x"]⟩ hjson spaced_numbered
  have hne : source ≠ "" := hfound ⟨_, List.mem_cons_self, by decide, _,
    List.mem_cons_of_mem _ List.mem_cons_self, ⟨_, rfl, by decide, by simp [entryAt?]⟩⟩
  obtain ⟨_, -, _, -, found, hdecode, -, hmatches⟩ := hread hne
  exact ⟨hjson, spaced_numbered, source, hlocate, hne, found, hdecode, hmatches⟩

example : numberedLine
    = "\x7b\"resources\" :\t[1, \x7b\"type\":\"a\",\"name\" :\"b\"\x7d ]\x7d".toList := by
  rfl

end Element

/-- Resources with a number of 4301 digits among them. -/
def longNumbered : Raw :=
  .map [("resources", .list [.int (tenTo 4300), .map [("type", .text "a")]])]

/-- The element that matches is not found. -/
theorem locate_long :
    longNumbered.IsJson ∧ Spaced longNumbered.tokens (Style.line.encode longNumbered)
      ∧ (∃ items, .list items ∈ valuesUnder (· == Locator.resourceContainer) longNumbered
        ∧ ∃ element ∈ items, ElementTest.Matches ⟨[("type", "a")], []⟩ element)
      ∧ SingleLine.locate ⟨Locator.resourceContainer, .element ⟨[("type", "a")], []⟩⟩
        (Style.line.encode longNumbered) = ⟨1, 1, ""⟩ := by
  have hjson : longNumbered.IsJson :=
    ⟨by decide, ⟨trivial, ⟨by decide, trivial, trivial⟩, trivial⟩, trivial⟩
  have hspaced : Spaced longNumbered.tokens (Style.line.encode longNumbered) := by
    have hline := Style.spaced_line longNumbered hjson (.nil (by decide : Spaces []))
    rwa [List.append_nil, List.append_nil] at hline
  have hvalues : valuesUnder (endsLike Locator.resourceContainer) longNumbered
      = [.list [.int (tenTo 4300), .map [("type", .text "a")]]] := rfl
  have hread : ¬ (Raw.list [.int (tenTo 4300), .map [("type", .text "a")]]).IsDocument :=
    fun hdoc => Nat.not_le_of_lt (length_repr_tenTo 4300) hdoc.1
  refine ⟨hjson, hspaced, ⟨_, List.mem_cons_self, _, List.mem_cons_of_mem _ List.mem_cons_self,
    ⟨_, rfl, nofun, by simp [entryAt?]⟩⟩, ?_⟩
  rw [locate_spaced hjson hspaced, hvalues, List.findSome?_singleton, ElementTest.chosen?,
    SingleLine.inValue?, if_neg hread]
  rfl

end TerraIndex
