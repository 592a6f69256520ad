import TerraIndex.Proofs.Json.Indented
/-!
# Reading an indented document back

The decoder reads the text that an `Indent` writes for a document (`decode_text`). All comes back
as it was but for the floating-point numbers, for which the decoder puts what it reads in their
text (`Raw.readBack`).
-/

namespace TerraIndex

open Json (Written MoreItems Member MoreMembers Blanks Indent Style decode decode_written)

mutual

/-- The value can be written as JSON and read again: it has no tuple and no value of a foreign type,
its maps have distinct keys, and its integers have no more digits than the decoder reads. -/
def Raw.IsDocument : Raw → Prop
  | .int n => n.natAbs.repr.toList.length ≤ maxIntegerDigits
  | .list items => itemsAreDocuments items
  | .map entries => (entries.map Prod.fst).Nodup ∧ entriesAreDocuments entries
  | .tuple _ => False
  | .other _ => False
  | _ => True

def itemsAreDocuments : List Raw → Prop
  | [] => True
  | item :: rest => item.IsDocument ∧ itemsAreDocuments rest

def entriesAreDocuments : List (String × Raw) → Prop
  | [] => True
  | (_, value) :: rest => value.IsDocument ∧ entriesAreDocuments rest

end

/-- What the decoder reads in the text of a number. -/
def readFloat (x : Binary64) : Raw :=
  match decode (Style.floatText x) with
  | .ok v => v
  | .error _ => .float x

mutual

/-- The value that the decoder reads in the text of a document. -/
def Raw.readBack : Raw → Raw
  | .float x => readFloat x
  | .list items => .list (readBackItems items)
  | .map entries => .map (readBackEntries entries)
  | v => v

def readBackItems : List Raw → List Raw
  | [] => []
  | item :: rest => item.readBack :: readBackItems rest

def readBackEntries : List (String × Raw) → List (String × Raw)
  | [] => []
  | (key, value) :: rest => (key, value.readBack) :: readBackEntries rest

end

section Documents

theorem itemsAreDocuments_iff (items : List Raw) :
    itemsAreDocuments items ↔ ∀ item ∈ items, item.IsDocument := by
  induction items with
  | nil => simp [itemsAreDocuments]
  | cons item items ih => simp [itemsAreDocuments, ih]

theorem entriesAreDocuments_iff (entries : List (String × Raw)) :
    entriesAreDocuments entries ↔ ∀ entry ∈ entries, entry.2.IsDocument := by
  induction entries with
  | nil => simp [entriesAreDocuments]
  | cons entry entries ih => simp [entriesAreDocuments, ih]

mutual

def Raw.decideDocument : ∀ v : Raw, Decidable v.IsDocument
  | .int n => inferInstanceAs (Decidable (n.natAbs.repr.toList.length ≤ maxIntegerDigits))
  | .list items => decideItems items
  | .map entries =>
    have := decideEntries entries
    inferInstanceAs (Decidable ((entries.map Prod.fst).Nodup ∧ entriesAreDocuments entries))
  | .tuple _ => .isFalse id
  | .other _ => .isFalse id
  | .null => .isTrue trivial
  | .bool _ => .isTrue trivial
  | .float _ => .isTrue trivial
  | .text _ => .isTrue trivial

def decideItems : ∀ items : List Raw, Decidable (itemsAreDocuments items)
  | [] => .isTrue trivial
  | item :: items =>
    have := item.decideDocument
    have := decideItems items
    inferInstanceAs (Decidable (item.IsDocument ∧ itemsAreDocuments items))

def decideEntries : ∀ entries : List (String × Raw), Decidable (entriesAreDocuments entries)
  | [] => .isTrue trivial
  | (_, value) :: entries =>
    have := value.decideDocument
    have := decideEntries entries
    inferInstanceAs (Decidable (value.IsDocument ∧ entriesAreDocuments entries))

end

instance : DecidablePred Raw.IsDocument := Raw.decideDocument

end Documents

section ValuesReadBack

theorem readBackItems_eq (items : List Raw) : readBackItems items = items.map Raw.readBack := by
  induction items with
  | nil => rfl
  | cons item items ih => rw [readBackItems, ih, List.map_cons]

theorem map_fst_readBackEntries (entries : List (String × Raw)) :
    (readBackEntries entries).map Prod.fst = entries.map Prod.fst := by
  induction entries with
  | nil => rfl
  | cons entry entries ih => rw [readBackEntries, List.map_cons, ih, List.map_cons]

theorem entryAt?_readBackEntries (entries : List (String × Raw)) (key : String) :
    entryAt? (readBackEntries entries) key = (entryAt? entries key).map Raw.readBack := by
  induction entries with
  | nil => rfl
  | cons entry entries ih =>
    simp only [readBackEntries, entryAt?, ih]
    split_ifs <;> rfl

theorem floatText_readFloat (x : Binary64) :
    ∃ y, readFloat x = .float y ∧ Written (.float y) (Style.floatText x) := by
  obtain ⟨y, h⟩ := Json.token_floatText x
  have hwritten : Written (.float y) (Style.floatText x) := h.elim .numeral .word
  exact ⟨y, by rw [readFloat, decode_written hwritten], hwritten⟩

/-- A finite number is read back as it was. -/
theorem readFloat_of_isFinite {x : Binary64} (hx : x.isFinite = true) : readFloat x = .float x := by
  rw [readFloat, Style.floatText, if_pos hx, decode_written (.numeral (Json.numeral_text hx))]

theorem readBack_eq_text (v : Raw) (s : String) : v.readBack = .text s ↔ v = .text s := by
  cases v with
  | float x =>
    obtain ⟨y, h, -⟩ := floatText_readFloat x
    simp [Raw.readBack, h]
  | _ => simp [Raw.readBack]

mutual

theorem isDocument_readBack : ∀ v : Raw, v.IsDocument → v.readBack.IsDocument
  | .float x, _ => by
    obtain ⟨y, hy, -⟩ := floatText_readFloat x
    rw [Raw.readBack, hy]
    trivial
  | .list items, h => isDocument_readBackItems items h
  | .map entries, h => by
    refine ⟨?_, isDocument_readBackEntries entries h.2⟩
    rw [map_fst_readBackEntries]
    exact h.1
  | .null, h => h
  | .bool _, h => h
  | .int _, h => h
  | .text _, h => h
  | .tuple _, h => h
  | .other _, h => h

theorem isDocument_readBackItems : ∀ items : List Raw, itemsAreDocuments items →
    itemsAreDocuments (readBackItems items)
  | [], _ => trivial
  | item :: items, h => ⟨isDocument_readBack item h.1, isDocument_readBackItems items h.2⟩

theorem isDocument_readBackEntries : ∀ entries : List (String × Raw),
    entriesAreDocuments entries → entriesAreDocuments (readBackEntries entries)
  | [], _ => trivial
  | (_, value) :: entries, h =>
    ⟨isDocument_readBack value h.1, isDocument_readBackEntries entries h.2⟩

end

end ValuesReadBack

theorem entryAt?_of_mem {α : Type} {key : String} {value : α} :
    ∀ {entries : List (String × α)},
    (entries.map Prod.fst).Nodup → (key, value) ∈ entries → entryAt? entries key = some value
  | (other, _) :: entries, hkeys, h => by
    rw [List.map_cons, List.nodup_cons] at hkeys
    rw [entryAt?]
    rcases List.mem_cons.mp h with h | h
    · obtain ⟨rfl, rfl⟩ := Prod.mk.inj h
      rw [if_pos rfl]
    · have hmem : key ∈ entries.map Prod.fst := List.mem_map.mpr ⟨_, h, rfl⟩
      have hne : other ≠ key := fun heq => hkeys.1 (heq ▸ hmem)
      rw [if_neg hne]
      exact entryAt?_of_mem hkeys.2 h

theorem insertEntry_new {entries : List (String × Raw)} {key : String} (value : Raw)
    (h : key ∉ entries.map Prod.fst) :
    insertEntry entries key value = entries ++ [(key, value)] := by
  induction entries with
  | nil => rfl
  | cons entry entries ih =>
    simp only [List.map_cons, List.mem_cons, not_or] at h
    rw [insertEntry, if_neg (Ne.symm h.1), ih h.2, List.cons_append]

theorem mergeEntries_distinct {entries added : List (String × Raw)}
    (h : ((entries ++ added).map Prod.fst).Nodup) :
    mergeEntries entries added = entries ++ added := by
  induction added generalizing entries with
  | nil => rw [List.append_nil]; rfl
  | cons entry added ih =>
    have hnew : entry.1 ∉ entries.map Prod.fst := by
      rw [List.map_append, List.map_cons] at h
      exact fun hmem => (List.nodup_append.mp h).2.2 _ hmem _ (List.mem_cons_self ..) rfl
    have hnext : mergeEntries (entries ++ [entry]) added = entries ++ [entry] ++ added :=
      ih (by rwa [List.append_assoc])
    calc mergeEntries entries (entry :: added)
        = mergeEntries (insertEntry entries entry.1 entry.2) added := rfl
      _ = entries ++ entry :: added := by
        rw [insertEntry_new entry.2 hnew, hnext, List.append_assoc, List.singleton_append]

namespace Json.Indent

variable (style : Indent)

section WrittenText

theorem blanks_margin (level : Nat) : Blanks (style.margin level) := fun c hc => by
  rw [List.eq_of_mem_replicate hc]
  decide

/-- A line break and an indentation. -/
theorem blanks_newline {w : List Char} (hw : Blanks w) : Blanks ('\n' :: w) :=
  List.forall_mem_cons.mpr ⟨by decide, hw⟩

theorem member_keyText (key : String) {v : Raw} {t : List Char} (ht : Written v t) :
    Member (key, v) (style.keyText key ++ t) := by
  obtain ⟨k, hk, hquote⟩ := style.quoted key.toList
  have hspace : Blanks [' '] := by decide
  have h := Member.mk hk blanks_nil hspace ht
  rw [String.ofList_toList] at h
  simpa [keyText, hquote] using h

theorem written_quote (s : String) : Written (.text s) (style.quote s.toList) := by
  obtain ⟨k, hk, hquote⟩ := style.quoted s.toList
  have h := Written.text hk
  rwa [String.ofList_toList, ← hquote] at h

theorem written_list {item : Raw} {items : List Raw} {t u : List Char} (level : Nat)
    (ht : Written item t)
    (hu : MoreItems items (comma items ++ '\n' :: (u ++ (style.margin level ++ [']'])))) :
    Written (.list (item :: items)) (style.bracketed level '[' ']' false
      (style.margin (level + 1) ++ (t ++ (comma items ++ '\n' :: u)))) := by
  have h := Written.list (blanks_newline (style.blanks_margin (level + 1))) ht hu
  simpa [bracketed] using h

theorem written_map {m : String × Raw} {ms : List (String × Raw)} {t u : List Char} (level : Nat)
    (hnodup : ((m :: ms).map Prod.fst).Nodup) (ht : Member m t)
    (hu : MoreMembers ms (comma ms ++ '\n' :: (u ++ (style.margin level ++ ['\x7d'])))) :
    Written (.map (m :: ms)) (style.bracketed level '\x7b' '\x7d' false
      (style.margin (level + 1) ++ (t ++ (comma ms ++ '\n' :: u)))) := by
  have h := Written.map (blanks_newline (style.blanks_margin (level + 1))) ht hu
  rw [mergeEntries_distinct (by simpa using hnodup)] at h
  simpa [bracketed] using h

theorem comma_readBackItems (items : List Raw) : comma (readBackItems items) = comma items := by
  cases items <;> rfl

theorem comma_readBackEntries (entries : List (String × Raw)) :
    comma (readBackEntries entries) = comma entries := by
  cases entries <;> rfl

mutual

theorem written_valueText : ∀ (v : Raw) (level : Nat), v.IsDocument →
    Written v.readBack (style.valueText level v)
  | .null, _, _ => .word .null
  | .bool true, _, _ => .word .true
  | .bool false, _, _ => .word .false
  | .int _, _, h => .numeral (numeral_intText h)
  | .float x, _, _ => by
    obtain ⟨y, hread, hwritten⟩ := floatText_readFloat x
    rw [Raw.readBack, hread]
    exact hwritten
  | .text s, _, _ => style.written_quote s
  | .list [], _, _ => .emptyList blanks_nil
  | .list (item :: items), level, h => by
    have hitems := moreItems_itemsText items (level + 1) (style.blanks_margin level) h.2
    rw [← comma_readBackItems] at hitems
    have hlist := style.written_list level (written_valueText item (level + 1) h.1) hitems
    rwa [comma_readBackItems] at hlist
  | .map [], _, _ => .emptyMap blanks_nil
  | .map ((key, value) :: entries), level, h => by
    have hentries := moreMembers_membersText entries (level + 1) (style.blanks_margin level) h.2.2
    rw [← comma_readBackEntries] at hentries
    have hnodup : ((readBackEntries ((key, value) :: entries)).map Prod.fst).Nodup := by
      rw [map_fst_readBackEntries]
      exact h.1
    have hmember := style.member_keyText key (written_valueText value (level + 1) h.2.1)
    have hmap := style.written_map level hnodup hmember hentries
    rw [comma_readBackEntries, List.append_assoc] at hmap
    exact hmap
  | .tuple _, _, h => h.elim
  | .other _, _, h => h.elim

/-- What follows an item up to the closing bracket. -/
theorem moreItems_itemsText : ∀ (items : List Raw) (level : Nat) {w : List Char}, Blanks w →
    itemsAreDocuments items →
    MoreItems (readBackItems items)
      (comma items ++ '\n' :: (style.itemsText level items ++ (w ++ [']'])))
  | [], _, _, hw, _ => .last (blanks_newline hw)
  | item :: items, level, _, hw, h => by
    have hitems := MoreItems.next blanks_nil (blanks_newline (style.blanks_margin level))
      (written_valueText item level h.1) (moreItems_itemsText items level hw h.2)
    simpa [comma, itemsText, readBackItems] using hitems

theorem moreMembers_membersText : ∀ (entries : List (String × Raw)) (level : Nat) {w : List Char},
    Blanks w → entriesAreDocuments entries →
    MoreMembers (readBackEntries entries)
      (comma entries ++ '\n' :: (style.membersText level entries ++ (w ++ ['\x7d'])))
  | [], _, _, hw, _ => .last (blanks_newline hw)
  | (key, value) :: entries, level, _, hw, h => by
    have hmember := style.member_keyText key (written_valueText value level h.1)
    have hentries := MoreMembers.next blanks_nil (blanks_newline (style.blanks_margin level))
      hmember (moreMembers_membersText entries level hw h.2)
    simpa [comma, membersText, readBackEntries] using hentries

end

/-- The decoder reads a document back from its indented text. -/
theorem decode_text {v : Raw} (h : v.IsDocument) : decode (style.text v) = .ok v.readBack :=
  decode_written (style.written_valueText v 0 h)

end WrittenText

end Json.Indent

end TerraIndex
