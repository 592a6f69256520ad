import TerraIndex.Proofs.Json.Occurrences
import TerraIndex.Proofs.Json.ReadBack
import TerraIndex.Proofs.Source.ResourceList
import TerraIndex.Proofs.Source.Search
/-!
# Resource lists of an indented text

In the indented text of a document `ResourceList.locate` finds the first element that passes the
test among all values directly in a list or map stored under the container's key, in document order
(`locate_indented`). Which keys lead to that list or map makes no difference.
-/

namespace TerraIndex

open Json Json.Indent
open Text (lastLine scanLines splitNewlines)

theorem hereditary_isDocument : Raw.Hereditary Raw.IsDocument where
  list h := (itemsAreDocuments_iff _).mp h
  tuple h := h.elim
  map h := (entriesAreDocuments_iff _).mp h.2

/-- A test does not tell a document from what is read back of it. -/
theorem ElementTest.accepts_readBack (test : ElementTest) (v : Raw) :
    test.accepts v.readBack = test.accepts v := by
  have hentry : ∀ (entries : List (String × Raw)) (key s : String),
      isText (entryAt? (readBackEntries entries) key) s = isText (entryAt? entries key) s := by
    intro entries key s
    rw [Bool.eq_iff_iff, isText_iff, isText_iff, entryAt?_readBackEntries]
    cases entryAt? entries key <;> simp [readBack_eq_text]
  have hhas : ∀ (entries : List (String × Raw)) (key : String),
      hasEntry (readBackEntries entries) key = hasEntry entries key := by
    intro entries key
    rw [hasEntry, hasEntry, entryAt?_readBackEntries, Option.isSome_map]
  cases v with
  | map entries => simp only [Raw.readBack, accepts, hentry, hhas]
  | float x =>
    obtain ⟨y, h, -⟩ := floatText_readFloat x
    rw [Raw.readBack, h]
    rfl
  | _ => rfl

namespace ResourceList

variable (list : ResourceList) (style : Indent) (lines : List (List Char))

/-- The value at a place if it passes the test. -/
def accepted (p : Placed) : Option (Nat × Nat) :=
  if list.test.accepts p.value then some p.lines else none

theorem findSome?_accepted_cons (p : Placed) (ps : List Placed) :
    (p :: ps).findSome? list.accepted = (list.accepted p).or (ps.findSome? list.accepted) := by
  rw [List.findSome?_cons]
  cases list.accepted p <;> rfl

theorem findSome?_accepted (ps : List Placed) :
    ps.findSome? list.accepted
      = (ps.find? fun p => list.test.accepts p.value).map Placed.lines := by
  induction ps with
  | nil => rfl
  | cons p ps ih =>
    rw [findSome?_accepted_cons, accepted, List.find?_cons, ih]
    cases list.test.accepts p.value <;> rfl

section Elements

/-- Of the lines of one value in a list, the value is read and the rest is passed over. -/
theorem readOn_lines {t back : List Char} {v : Raw} (front rest : List Char) (level : Nat)
    (hv : v.IsDocument) (ht : Inline t) (hback : Inline back)
    (hlines : lines
      = scanLines (front ++ (t ++ (style.valueText level v ++ (back ++ '\n' :: rest))))) :
    list.readOn lines 1 none front (t ++ (style.valueText level v ++ (back ++ '\n' :: rest)))
      = (list.accepted ⟨front.count '\n', v⟩).or (list.readOn lines 1 none
          (front ++ (t ++ (style.valueText level v ++ (back ++ ['\n'])))) rest) := by
  have hread := readOn_value list lines (front ++ t) (back ++ '\n' :: rest)
    (style.written_valueText v level hv) (by rw [hlines, List.append_assoc])
  have hfirst : (Place.after (front ++ t)).line = front.count '\n' + 1 := by
    simp [Place.after, count_newline ht.1]
  have hlast : (Place.after (front ++ t ++ style.valueText level v)).line
      = front.count '\n' + v.height := by
    simp [Place.after, count_newline ht.1, ← style.count_valueText v level, Nat.add_assoc]
  rw [ElementTest.accepts_readBack, hfirst, hlast] at hread
  rw [readOn_quiet _ _ _ _ _ _ ht.2, hread, accepted]
  split_ifs
  · rfl
  · rw [readOn_quiet _ _ _ _ _ _ hback.2, readOn_newline, Option.none_or]
    simp

theorem readOn_items : ∀ (items : List Raw) (level : Nat) (front rest : List Char),
    itemsAreDocuments items → lines = scanLines (front ++ (style.itemsText level items ++ rest)) →
    list.readOn lines 1 none front (style.itemsText level items ++ rest)
      = ((placedItems (front.count '\n') items).findSome? list.accepted).or
          (list.readOn lines 1 none (front ++ style.itemsText level items) rest)
  | [], _, _, _, _, _ => by simp [itemsText, placedItems]
  | item :: items, level, front, rest, hdoc, hlines => by
    have hmargin := style.inline_margin level
    have hcomma := inline_comma items
    simp only [itemsText, List.append_assoc, List.cons_append] at hlines
    have hitem := list.readOn_lines style lines front (style.itemsText level items ++ rest) level
      hdoc.1 hmargin hcomma hlines
    have hitems := readOn_items items level (front ++ (style.margin level
      ++ (style.valueText level item ++ (comma items ++ ['\n'])))) rest hdoc.2
      (by simpa using hlines)
    rw [List.count_append, style.count_lines item level hmargin hcomma] at hitems
    rw [hitems, ← Option.or_assoc, ← findSome?_accepted_cons] at hitem
    simp only [itemsText, placedItems, List.append_assoc, List.cons_append, List.nil_append]
      at hitem ⊢
    exact hitem

theorem readOn_members : ∀ (entries : List (String × Raw)) (level : Nat) (front rest : List Char),
    entriesAreDocuments entries →
    lines = scanLines (front ++ (style.membersText level entries ++ rest)) →
    list.readOn lines 1 none front (style.membersText level entries ++ rest)
      = (((placedEntries (front.count '\n') entries).map Prod.snd).findSome? list.accepted).or
          (list.readOn lines 1 none (front ++ style.membersText level entries) rest)
  | [], _, _, _, _, _ => by simp [membersText, placedEntries]
  | (key, value) :: entries, level, front, rest, hdoc, hlines => by
    have hfront := (style.inline_margin level).append (style.inline_keyText key)
    have hcomma := inline_comma entries
    have hcount := style.count_lines value level hfront hcomma
    simp only [membersText, List.append_assoc, List.cons_append] at hlines hcount
    have hvalue := list.readOn_lines style lines front (style.membersText level entries ++ rest)
      level hdoc.1 hfront hcomma (by rw [hlines, List.append_assoc])
    have hmembers := readOn_members entries level (front ++ (style.margin level
      ++ (style.keyText key ++ (style.valueText level value ++ (comma entries ++ ['\n']))))) rest
      hdoc.2 (by simpa using hlines)
    rw [List.count_append, hcount] at hmembers
    rw [List.append_assoc, List.append_assoc, hmembers, ← Option.or_assoc,
      ← findSome?_accepted_cons] at hvalue
    simp only [membersText, placedEntries, List.map_cons, List.append_assoc, List.cons_append,
      List.nil_append] at hvalue ⊢
    exact hvalue

end Elements

section Search

/-- Behind a closing bracket the search goes on in the next line. -/
theorem readOn_end {o c : Char} {back : List Char} (front rest : List Char) (level : Nat)
    (hd : Delimiters o c) (hback : Inline back) :
    list.readOn lines 1 none front (style.margin level ++ c :: (back ++ '\n' :: rest))
      = list.scan lines .searching (front.count '\n' + 2) (scanLines rest) := by
  have hmargin := style.inline_margin level
  have hbelow : Text.linesBelow (back ++ '\n' :: rest) = splitNewlines rest := by
    rw [Text.linesBelow_append _ hback.2.1, Text.linesBelow_newline]
  rw [readOn_quiet _ _ _ _ _ _ hmargin.2, readOn_closing_list _ _ _ _ hd.isClosing_right, hbelow,
    scan_scanLines]
  simp [Place.after, count_newline hmargin.1]

theorem readOn_box {o c : Char} {back inner : List Char} {height : Nat}
    (result : Nat → Option (Nat × Nat)) (front rest : List Char) (level : Nat) (isEmpty : Bool)
    (hd : Delimiters o c) (hback : Inline back) (hinner : inner.count '\n' = height)
    (hempty : isEmpty = true → ∀ n, result n = none)
    (hread : ∀ front rest, lines = scanLines (front ++ (inner ++ rest)) →
      list.readOn lines 1 none front (inner ++ rest)
        = (result (front.count '\n')).or (list.readOn lines 1 none (front ++ inner) rest))
    (hlines : lines = scanLines (front
      ++ (style.bracketed level o c isEmpty inner ++ (back ++ '\n' :: rest)))) :
    list.readOn lines 0 none front
        (style.bracketed level o c isEmpty inner ++ (back ++ '\n' :: rest))
      = (result (front.count '\n' + 1)).or (list.scan lines .searching
          (front.count '\n' + boxHeight isEmpty height + 1) (scanLines rest)) := by
  have hcount : ∀ t, (front ++ o :: t).count '\n' = front.count '\n' + t.count '\n' := fun t => by
    rw [← List.singleton_append, List.count_append, List.count_append,
      count_newline hd.noControls_left, Nat.zero_add]
  unfold bracketed boxHeight at *
  cases isEmpty with
  | true =>
    have hend := list.readOn_end style lines (front ++ [o]) rest 0 hd hback
    rw [margin, Nat.zero_mul, List.replicate_zero, List.nil_append, hcount, List.count_nil] at hend
    simp only [if_true, List.cons_append, List.nil_append]
    rw [readOn_opening _ _ _ _ _ _ hd.isOpening_left, if_neg (by decide), hend, hempty rfl,
      Option.none_or]
  | false =>
    have hend := list.readOn_end style lines (front ++ o :: '\n' :: inner) rest level hd hback
    have hread := hread (front ++ [o, '\n'])
      (style.margin level ++ c :: (back ++ '\n' :: rest)) (by simpa using hlines)
    simp only [hcount, List.count_cons_self, List.count_nil, hinner, List.append_assoc,
      List.cons_append, List.nil_append] at hend hread
    simp only [Bool.false_eq_true, if_false, List.cons_append, List.append_assoc,
      List.nil_append]
    rw [readOn_opening _ _ _ _ _ _ hd.isOpening_left, if_neg (by decide), readOn_newline,
      List.append_assoc, List.singleton_append, hread, hend]
    congr 2

/-- A container is left behind with its last line unless an element in it is accepted. -/
theorem readOn_container {v : Raw} {back : List Char} (front rest : List Char) (level : Nat)
    (hdoc : v.IsDocument) (hv : v.isNested = true) (hback : Inline back)
    (hlines : lines = scanLines (front ++ (style.valueText level v ++ (back ++ '\n' :: rest)))) :
    list.readOn lines 0 none front (style.valueText level v ++ (back ++ '\n' :: rest))
      = ((Placed.contents ⟨front.count '\n', v⟩).findSome? list.accepted).or
          (list.scan lines .searching (front.count '\n' + v.height + 1) (scanLines rest)) := by
  cases v with
  | list items =>
    exact list.readOn_box style lines
      (fun n => (placedItems n items).findSome? list.accepted) front rest level items.isEmpty
      .list hback (style.count_itemsText items (level + 1))
      (fun h _ => by rw [List.isEmpty_iff.mp h]; rfl)
      (fun front rest => list.readOn_items style lines items (level + 1) front rest hdoc) hlines
  | map entries =>
    exact list.readOn_box style lines
      (fun n => ((placedEntries n entries).map Prod.snd).findSome? list.accepted) front rest level
      entries.isEmpty .map hback (style.count_membersText entries (level + 1))
      (fun h _ => by rw [List.isEmpty_iff.mp h]; rfl)
      (fun front rest => list.readOn_members style lines entries (level + 1) front rest hdoc.2)
      hlines
  | tuple items => exact hdoc.elim
  | _ => simp [Raw.isNested] at hv

theorem scan_container {key : String} {v : Raw} {back above text : List Char} (rest : List Char)
    (level : Nat) (hkey : style.writesKey list.container key = true) (hv : v.isNested = true)
    (hdoc : v.IsDocument) (hback : Inline back) (habove : lastLine above = [])
    (htext : text = above ++ (style.margin level ++ (style.keyText key
      ++ (style.valueText level v ++ (back ++ '\n' :: rest))))) :
    list.scan (scanLines text) .searching (above.count '\n' + 1)
        (scanLines (style.margin level ++ (style.keyText key
          ++ (style.valueText level v ++ (back ++ '\n' :: rest)))))
      = ((Placed.contents ⟨above.count '\n', v⟩).findSome? list.accepted).or
          (list.scan (scanLines text) .searching (above.count '\n' + v.height + 1)
            (scanLines rest)) := by
  have hkeyText : style.keyText key
      = Text.quoteMinimal list.container.toList ++ ([] ++ ':' :: [' ']) := by
    rw [keyText, beq_iff_eq.mp hkey]
    rfl
  have hheading : Heading list.container (style.margin level ++ style.keyText key) := by
    rw [hkeyText]
    exact .key (style.margin_blank level) (by decide) (by decide)
  have hfront := (style.inline_margin level).append (style.inline_keyText key)
  have hread := list.readOn_container style (scanLines text)
    (above ++ (style.margin level ++ style.keyText key)) rest level hdoc hv hback
    (by rw [htext]; simp)
  obtain ⟨b, t, ht, hb⟩ := style.valueText_nested level hv
  have hscan := list.scan_heading (scanLines text) hb hheading above (t ++ (back ++ '\n' :: rest))
    habove
  rw [ht, List.cons_append, ← hscan, List.count_append, count_newline hfront.1, Nat.add_zero]
    at hread
  rw [scan_scanLines, ht, ← List.append_assoc]
  exact hread

theorem lineSearch : LineSearch style list.container Raw.IsDocument
    (fun above rest => list.scan (scanLines (above ++ rest)) .searching (above.count '\n' + 1)
      (scanLines rest))
    (fun p => p.contents.findSome? list.accepted) where
  hereditary := hereditary_isDocument
  done above := rfl
  skip {line} above rest hline hopens := by
    have hall : above ++ (line ++ '\n' :: rest) = above ++ (line ++ ['\n']) ++ rest := by simp
    rw [hall, scanLines_line rest hline, scan, scanLine, hopens, LineSearch.count_line above hline]
    rfl
  leaf {p} h := by
    obtain ⟨above, v⟩ := p
    cases v <;> first | rfl | simp [Raw.isNested] at h
  enter := by
    intro key v back above rest level hkey hv hdoc hback habove
    have hfront := (style.inline_margin level).append (style.inline_keyText key)
    have hcount := style.count_lines v level hfront hback
    rw [List.append_assoc] at hcount
    rw [list.scan_container style rest level hkey hv hdoc hback habove rfl, List.count_append,
      hcount]
    simp

/-- Over the indented text of a document, a search finds the first accepted element of all those
directly in a list or map under the container's key. -/
theorem locate_indented {v : Raw} (hdoc : v.IsDocument) :
    list.locate (style.text v)
      = match (elementsUnder (style.writesKey list.container) v).find?
          (fun p => list.test.accepts p.value) with
        | some found => found.span (style.text v)
        | none => .empty := by
  have hsearch := (list.lineSearch style).search_text hdoc
  have hfound : (occurrences (style.writesKey list.container) 0 v).findSome?
        (fun p => p.contents.findSome? list.accepted)
      = ((elementsUnder (style.writesKey list.container) v).find?
          fun p => list.test.accepts p.value).map Placed.lines := by
    simp only [elementsUnder, findSome?_accepted, List.find?_flatMap, List.map_findSome?]
    rfl
  simp only [List.nil_append, ← style.scanLines_text, List.count_nil, Nat.zero_add] at hsearch
  simp only [locate, hsearch, hfound]
  cases (elementsUnder (style.writesKey list.container) v).find?
    fun p => list.test.accepts p.value <;> rfl

end Search

end ResourceList

end TerraIndex
