import TerraIndex.Json.Encode
import TerraIndex.Proofs.Document.Canonical
/-!
# JSON on one line

The decoder reads what a `Style` writes, as long as its separators are a comma and a colon with
blanks behind them (`written_encode`). A style that sorts keys sorts those of the value that is
read, which stays the same up to the order of its entries (`same_sorted`).
-/

namespace TerraIndex

open Json

namespace Json

section PrintableASCII

/-- A character of printable ASCII. -/
def IsAscii (c : Char) : Prop := 0x20 ≤ c.toNat ∧ c.toNat < 0x7f

instance (c : Char) : Decidable (IsAscii c) := inferInstanceAs (Decidable (_ ∧ _))

theorem isAscii_of_isDigit {c : Char} (h : c.isDigit = true) : IsAscii c := by
  simp only [Char.isDigit, Bool.and_eq_true, decide_eq_true_eq] at h
  have hlow : 48 ≤ c.toNat := h.1
  have hhigh : c.toNat ≤ 57 := h.2
  exact ⟨by omega, by omega⟩

theorem word_ascii {v : Raw} {t : List Char} (h : Word v t) : ∀ c ∈ t, IsAscii c := by
  cases h <;> decide

theorem numeral_ascii {v : Raw} {t : List Char} (h : Numeral v t) : ∀ c ∈ t, IsAscii c := by
  intro c hc
  rcases numeral_chars h c hc with hdigit | hmark
  · exact isAscii_of_isDigit hdigit
  · exact (by decide : ∀ c ∈ ['-', '+', '.', 'e', 'E'], IsAscii c) c hmark

theorem intText_ascii (n : Int) : ∀ c ∈ intText n, IsAscii c := by
  obtain ⟨negative, htext, -⟩ := intText_eq n
  rw [htext]
  refine List.forall_mem_append.mpr ⟨?_, fun c hc => isAscii_of_isDigit (digits_repr _ c hc)⟩
  cases negative <;> decide

theorem hexDigits_ascii : ∀ (width n : Nat), ∀ c ∈ Text.hexDigits width n, IsAscii c
  | 0, _ => nofun
  | width + 1, n => by
    refine List.forall_mem_append.mpr ⟨hexDigits_ascii width (n / 16), ?_⟩
    exact List.forall_mem_singleton.mpr
      ((by decide : ∀ d < 16, IsAscii (Nat.digitChar d)) _ (Nat.mod_lt n (by decide)))

theorem unicodeEscape_ascii (n : Nat) : ∀ c ∈ Text.unicodeEscape n, IsAscii c :=
  List.forall_mem_cons.mpr ⟨by decide, List.forall_mem_cons.mpr ⟨by decide, hexDigits_ascii 4 n⟩⟩

theorem escapeAscii_ascii (c : Char) : ∀ d ∈ Text.escapeAscii c, IsAscii d := by
  unfold Text.escapeAscii
  split
  · rename_i e he
    unfold Text.shortEscape? at he
    split at he
    all_goals cases he
    all_goals decide
  · dsimp only
    split_ifs with hascii
    · exact List.forall_mem_singleton.mpr hascii
    · exact unicodeEscape_ascii _
    · exact List.forall_mem_append.mpr ⟨unicodeEscape_ascii _, unicodeEscape_ascii _⟩

theorem quoteAscii_ascii (s : List Char) : ∀ c ∈ Text.quoteAscii s, IsAscii c := by
  refine List.forall_mem_append.mpr ⟨List.forall_mem_cons.mpr ⟨by decide, fun d hd => ?_⟩,
    by decide⟩
  obtain ⟨c, -, hd⟩ := List.mem_flatMap.mp hd
  exact escapeAscii_ascii c d hd

end PrintableASCII

end Json

namespace Json.Style

/-- Blanks behind separators and only the escapes that JSON requires, keys in their own order. -/
def line : Style := ⟨[',', ' '], [':', ' '], Text.quoteMinimal, false⟩

/-- The style writes JSON. -/
structure IsJson (style : Style) : Prop where
  items : ∃ w, Blanks w ∧ style.itemSeparator = ',' :: w
  keys : ∃ w, Blanks w ∧ style.keySeparator = ':' :: w
  quoted : ∀ s, Quoted s (style.quote s)

theorem isJson_row : row.IsJson where
  items := ⟨[' '], by decide, rfl⟩
  keys := ⟨[' '], by decide, rfl⟩
  quoted := quoted_ascii

theorem isJson_minified : minified.IsJson where
  items := ⟨[], by decide, rfl⟩
  keys := ⟨[], by decide, rfl⟩
  quoted := quoted_minimal

variable (style : Style)

/-- The entries in the order in which the style writes them. -/
def order {α : Type} (entries : List (String × α)) : List (String × α) :=
  if style.sortKeys then sortEntries entries else entries

/-- The value with the entries of every map in the order of the style. -/
def arranged (v : Raw) : Raw := if style.sortKeys then v.sorted else v

theorem order_perm {α : Type} (entries : List (String × α)) :
    (style.order entries).Perm entries := by
  unfold order
  split_ifs
  · exact sortEntries_perm entries
  · exact .refl entries

theorem order_map {α β : Type} (f : α → β) (entries : List (String × α)) :
    style.order (entries.map (Prod.map id f)) = (style.order entries).map (Prod.map id f) := by
  unfold order
  split_ifs
  · exact sortEntries_map f entries
  · rfl

theorem arranged_list (items : List Raw) :
    style.arranged (.list items) = .list (items.map style.arranged) := by
  unfold arranged
  split_ifs
  · rw [Raw.sorted, sortedItems_eq]
  · rw [List.map_id']

theorem arranged_map (entries : List (String × Raw)) :
    style.arranged (.map entries)
      = .map (style.order (entries.map (Prod.map id style.arranged))) := by
  unfold arranged order
  split_ifs
  · rw [Raw.sorted, sortedValues_eq]
  · exact congrArg Raw.map (List.map_id entries).symm

theorem encodeList_eq (items : List Raw) : style.encodeList items = items.map style.encode := by
  induction items with
  | nil => rfl
  | cons item items ih => rw [encodeList, ih, List.map_cons]

theorem encodeEntries_eq (entries : List (String × Raw)) :
    style.encodeEntries entries = entries.map (Prod.map id style.encode) := by
  induction entries with
  | nil => rfl
  | cons entry entries ih => rw [encodeEntries, ih, List.map_cons]; rfl

/-- A key and the text of its value. -/
def memberText (entry : String × Raw) : List Char :=
  style.quote entry.1.toList ++ style.keySeparator ++ style.encode entry.2

theorem encode_map (entries : List (String × Raw)) :
    style.encode (.map entries)
      = '\x7b' :: sepBy style.itemSeparator ((style.order entries).map style.memberText)
        ++ ['\x7d'] := by
  have hparts := style.order_map style.encode entries
  rw [← encodeEntries_eq] at hparts
  rw [encode, objectText]
  show '\x7b' :: sepBy style.itemSeparator ((style.order (style.encodeEntries entries)).map _) ++ _
    = _
  rw [hparts, List.map_map]
  rfl

variable {style}

theorem IsJson.member (hstyle : style.IsJson) {value : Raw} {entry : String × Raw}
    (h : Written value (style.encode entry.2)) :
    Member (entry.1, value) (style.memberText entry) := by
  obtain ⟨w, hw, hkey⟩ := hstyle.keys
  obtain ⟨t, ht, hquote⟩ := hstyle.quoted entry.1.toList
  have hmember := Member.mk ht blanks_nil hw h
  rw [String.ofList_toList] at hmember
  simpa [memberText, hkey, hquote] using hmember

theorem readBackEntries_eq (entries : List (String × Raw)) :
    readBackEntries entries = entries.map (Prod.map id Raw.readBack) := by
  induction entries with
  | nil => rfl
  | cons entry entries ih => rw [readBackEntries, ih, List.map_cons]; rfl

theorem arranged_leaf {v : Raw} (h : v.isNested = false) : style.arranged v = v := by
  have hsorted : v.sorted = v := by cases v <;> first | rfl | simp [Raw.isNested] at h
  rw [arranged, hsorted, ite_self]

theorem IsJson.text (hstyle : style.IsJson) (s : String) :
    Written (.text s) (style.quote s.toList) := by
  obtain ⟨t, ht, hquote⟩ := hstyle.quoted s.toList
  have htext := Written.text ht
  rwa [String.ofList_toList, ← hquote] at htext

theorem written_encode_leaf (hstyle : style.IsJson) {v : Raw} (hleaf : v.isNested = false)
    (hdoc : v.IsDocument) : Written (style.arranged v.readBack) (style.encode v) := by
  have hread : v.readBack.isNested = false := by
    cases v with
    | float x =>
      obtain ⟨y, hy, -⟩ := floatText_readFloat x
      rw [Raw.readBack, hy]
      rfl
    | list | tuple | map => simp [Raw.isNested] at hleaf
    | _ => rfl
  rw [arranged_leaf hread]
  cases v with
  | null => exact .word .null
  | bool b =>
    cases b with
    | true => exact .word .true
    | false => exact .word .false
  | int n => exact .numeral (numeral_intText hdoc)
  | float x =>
    obtain ⟨y, hy, hwritten⟩ := floatText_readFloat x
    rw [Raw.readBack, hy]
    exact hwritten
  | text s => exact hstyle.text s
  | other => exact hdoc.elim
  | list | tuple | map => simp [Raw.isNested] at hleaf

theorem written_encode_map (hstyle : style.IsJson) {entries : List (String × Raw)}
    (hkeys : (entries.map Prod.fst).Nodup)
    (h : ∀ entry ∈ entries, Written (style.arranged entry.2.readBack) (style.encode entry.2)) :
    Written (style.arranged (Raw.map entries).readBack) (style.encode (.map entries)) := by
  obtain ⟨w, hw, hitem⟩ := hstyle.items
  rw [Raw.readBack, readBackEntries_eq, arranged_map, List.map_map, Prod.map_comp_map,
    Function.id_comp, order_map, encode_map, hitem]
  refine written_sepBy_map hw ?_ (forall₂_map_map fun entry hentry => ?_)
  · rw [List.map_map]
    exact ((style.order_perm entries).map Prod.fst).nodup_iff.mpr hkeys
  · exact hstyle.member (h entry ((style.order_perm entries).mem_iff.mp hentry))

mutual

theorem written_encode (hstyle : style.IsJson) : ∀ v : Raw, v.IsDocument →
    Written (style.arranged v.readBack) (style.encode v)
  | .null, h => written_encode_leaf hstyle rfl h
  | .bool _, h => written_encode_leaf hstyle rfl h
  | .int _, h => written_encode_leaf hstyle rfl h
  | .float _, h => written_encode_leaf hstyle rfl h
  | .text _, h => written_encode_leaf hstyle rfl h
  | .list items, h => by
    obtain ⟨w, hw, hitem⟩ := hstyle.items
    have hitems := written_encodeList hstyle items h
    rw [Raw.readBack, readBackItems_eq, arranged_list, List.map_map, encode, arrayText, hitem,
      encodeList_eq]
    exact written_sepBy_list hw (forall₂_map_map hitems)
  | .map entries, h => written_encode_map hstyle h.1 (written_encodeEntries hstyle entries h.2)
  | .tuple _, h => h.elim
  | .other _, h => h.elim

theorem written_encodeList (hstyle : style.IsJson) : ∀ items : List Raw,
    itemsAreDocuments items →
    ∀ item ∈ items, Written (style.arranged item.readBack) (style.encode item)
  | [], _ => nofun
  | item :: items, h => List.forall_mem_cons.mpr
    ⟨written_encode hstyle item h.1, written_encodeList hstyle items h.2⟩

theorem written_encodeEntries (hstyle : style.IsJson) : ∀ entries : List (String × Raw),
    entriesAreDocuments entries →
    ∀ entry ∈ entries, Written (style.arranged entry.2.readBack) (style.encode entry.2)
  | [], _ => nofun
  | (_, value) :: entries, h => List.forall_mem_cons.mpr
    ⟨written_encode hstyle value h.1, written_encodeEntries hstyle entries h.2⟩

end

theorem decode_encode (hstyle : style.IsJson) {v : Raw} (h : v.IsDocument) :
    decode (style.encode v) = .ok (style.arranged v.readBack) :=
  decode_written (written_encode hstyle v h)

section Line

theorem mem_sepBy {separator : List Char} {c : Char} : ∀ {parts : List (List Char)},
    c ∈ sepBy separator parts → c ∈ separator ∨ ∃ part ∈ parts, c ∈ part
  | [], h => absurd h List.not_mem_nil
  | part :: parts, h => by
    rw [sepBy_cons, List.mem_append] at h
    rcases h with h | h
    · exact .inr ⟨part, List.mem_cons_self .., h⟩
    · obtain ⟨next, hnext, hc⟩ := List.mem_flatMap.mp h
      rcases List.mem_append.mp hc with hc | hc
      · exact .inl hc
      · exact .inr ⟨next, List.mem_cons_of_mem _ hnext, hc⟩

/-- What stands between values, what is left in strings and printable ASCII have a property. -/
structure Confines (style : Style) (Q : Char → Prop) : Prop where
  ascii : ∀ c, IsAscii c → Q c
  items : ∀ c ∈ style.itemSeparator, Q c
  keys : ∀ c ∈ style.keySeparator, Q c
  quoted : ∀ s, ∀ c ∈ style.quote s, Q c

namespace Confines

variable {Q : Char → Prop}

/-- Parts between brackets. -/
theorem box (h : style.Confines Q) {o c : Char} {parts : List (List Char)} (ho : IsAscii o)
    (hc : IsAscii c) (hparts : ∀ part ∈ parts, ∀ d ∈ part, Q d) :
    ∀ d ∈ o :: sepBy style.itemSeparator parts ++ [c], Q d := by
  refine List.forall_mem_append.mpr ⟨List.forall_mem_cons.mpr ⟨h.ascii o ho, fun d hd => ?_⟩,
    List.forall_mem_singleton.mpr (h.ascii c hc)⟩
  rcases mem_sepBy hd with hd | ⟨part, hpart, hd⟩
  · exact h.items d hd
  · exact hparts part hpart d hd

theorem memberText (h : style.Confines Q) {entry : String × Raw}
    (hvalue : ∀ c ∈ style.encode entry.2, Q c) : ∀ c ∈ style.memberText entry, Q c :=
  List.forall_mem_append.mpr ⟨List.forall_mem_append.mpr ⟨h.quoted _, h.keys⟩, hvalue⟩

mutual

/-- All characters in the text of a value have the property. -/
theorem encode (h : style.Confines Q) : ∀ (v : Raw), ∀ c ∈ style.encode v, Q c
  | .list items => by
    rw [Style.encode, arrayText, encodeList_eq]
    exact h.box (by decide) (by decide) (List.forall_mem_map.mpr (encodeItems h items))
  | .tuple items => by
    rw [Style.encode, arrayText, encodeList_eq]
    exact h.box (by decide) (by decide) (List.forall_mem_map.mpr (encodeItems h items))
  | .map entries => by
    rw [encode_map]
    refine h.box (by decide) (by decide) (List.forall_mem_map.mpr fun entry hentry => ?_)
    exact h.memberText (encodeValues h entries entry ((style.order_perm entries).mem_iff.mp hentry))
  | .null => fun c hc => h.ascii c (word_ascii .null c hc)
  | .bool false => fun c hc => h.ascii c (word_ascii .false c hc)
  | .bool true => fun c hc => h.ascii c (word_ascii .true c hc)
  | .int n => fun c hc => h.ascii c (intText_ascii n c hc)
  | .float x => fun c hc => by
    obtain ⟨y, hy | hy⟩ := token_floatText x
    · exact h.ascii c (numeral_ascii hy c hc)
    · exact h.ascii c (word_ascii hy c hc)
  | .text s => h.quoted s.toList
  | .other typeName => h.quoted typeName.toList

theorem encodeItems (h : style.Confines Q) : ∀ (items : List Raw),
    ∀ item ∈ items, ∀ c ∈ style.encode item, Q c
  | [] => nofun
  | item :: items => List.forall_mem_cons.mpr ⟨encode h item, encodeItems h items⟩

theorem encodeValues (h : style.Confines Q) : ∀ (entries : List (String × Raw)),
    ∀ entry ∈ entries, ∀ c ∈ style.encode entry.2, Q c
  | [] => nofun
  | (_, value) :: entries => List.forall_mem_cons.mpr ⟨encode h value, encodeValues h entries⟩

end

end Confines

theorem confines_line : line.Confines (0x20 ≤ ·.toNat) where
  ascii _ hc := hc.1
  items := by decide
  keys := by decide
  quoted s := by
    obtain ⟨t, ht, hquote⟩ := quoted_minimal s
    intro c hc
    exact quoted_noControls ht c (hquote ▸ hc)

/-- A row is a line of printable ASCII. -/
theorem confines_row : row.Confines IsAscii where
  ascii _ hc := hc
  items := by decide
  keys := by decide
  quoted := quoteAscii_ascii

theorem length_scanLines_line (v : Raw) : (Text.scanLines (line.encode v)).length ≤ 1 := by
  have hline : '\n' ∉ line.encode v := NoControls.not_mem (confines_line.encode v) (by decide)
  rw [Text.scanLines, Text.splitNewlines_of_not_mem hline, List.length_map]
  unfold Text.dropFinalEmpty
  split <;> simp

end Line

end Json.Style

mutual

theorem same_sorted : ∀ v : Raw, v.IsDocument → v.Same v.sorted
  | .list items, h => sameItems_sorted (same_sortedItems items h)
  | .map entries, h => same_sorted_map h.1 (same_sortedEntries entries h.2)
  | .null, _ => rfl
  | .bool _, _ => rfl
  | .int _, _ => rfl
  | .float _, _ => rfl
  | .text _, _ => rfl
  | .tuple _, h => h.elim
  | .other _, h => h.elim

theorem same_sortedItems : ∀ items : List Raw, itemsAreDocuments items →
    ∀ item ∈ items, item.Same item.sorted
  | [], _ => nofun
  | item :: items, h =>
    List.forall_mem_cons.mpr ⟨same_sorted item h.1, same_sortedItems items h.2⟩

theorem same_sortedEntries : ∀ entries : List (String × Raw), entriesAreDocuments entries →
    ∀ entry ∈ entries, entry.2.Same entry.2.sorted
  | [], _ => nofun
  | (_, value) :: entries, h =>
    List.forall_mem_cons.mpr ⟨same_sorted value h.1, same_sortedEntries entries h.2⟩

end

end TerraIndex
