import TerraIndex.Proofs.Json.OneLine
/-!
# Tokens on one line

A value is a row of tokens (`Raw.tokens`), and a text of one line writes it with any white space
around them (`Spaced`). Strings are quoted in one of the two ways there are, numbers are written in
any way. Such a text is JSON for a document (`spaced_value`), and the text that `Style.line` writes
is one (`spaced_line`).

Values with integers of any size have such texts (`Raw.IsJson`), but a document has none with more
digits than the decoder reads.
-/

namespace TerraIndex

open Json

mutual

/-- The value can be written as JSON: it has no tuple and no value of a foreign type, and its maps
have distinct keys. Its integers may have any number of digits. -/
def Raw.IsJson : Raw → Prop
  | .list items => itemsAreJson items
  | .map entries => (entries.map Prod.fst).Nodup ∧ entriesAreJson entries
  | .tuple _ => False
  | .other _ => False
  | _ => True

def itemsAreJson : List Raw → Prop
  | [] => True
  | item :: rest => item.IsJson ∧ itemsAreJson rest

def entriesAreJson : List (String × Raw) → Prop
  | [] => True
  | (_, value) :: rest => value.IsJson ∧ entriesAreJson rest

end

/-- A mark, a number or word, or a string. -/
inductive Token
  | mark (c : Char)
  | leaf (v : Raw)
  | text (s : String)

inductive Token.Spelled : Token → List Char → Prop
  | mark (c : Char) : Spelled (.mark c) [c]
  | word {v : Raw} {t : List Char} : Word v t → Spelled (.leaf v) t
  | numeral {v : Raw} {t : List Char} : Numeral v t → Spelled (.leaf v) t
  /-- An integer with more digits than the decoder reads. -/
  | long {n : Int} : maxIntegerDigits < n.natAbs.repr.toList.length →
      Spelled (.leaf (.int n)) (intText n)
  | ascii (s : String) : Spelled (.text s) (Text.quoteAscii s.toList)
  | minimal (s : String) : Spelled (.text s) (Text.quoteMinimal s.toList)

/-- White space within a line. -/
def Spaces (w : List Char) : Prop := ∀ c ∈ w, isBlank c = true ∧ c ≠ '\n'

instance (w : List Char) : Decidable (Spaces w) := decidableForallMem _ w

/-- The tokens in a line, with any white space around them. -/
inductive Spaced : List Token → List Char → Prop
  | nil {w : List Char} : Spaces w → Spaced [] w
  | cons {k : Token} {ks : List Token} {w s t : List Char} : Spaces w → k.Spelled s →
      Spaced ks t → Spaced (k :: ks) (w ++ (s ++ t))

mutual

/-- The tokens of a value. -/
def Raw.tokens : Raw → List Token
  | .text s => [.text s]
  | .list [] => [.mark '[', .mark ']']
  | .list (item :: items) => .mark '[' :: (item.tokens ++ itemTokens items)
  | .map [] => [.mark '\x7b', .mark '\x7d']
  | .map ((key, value) :: entries) =>
    .mark '\x7b' :: .text key :: .mark ':' :: (value.tokens ++ entryTokens entries)
  | v => [.leaf v]

/-- The tokens behind an item, up to and with the closing bracket. -/
def itemTokens : List Raw → List Token
  | [] => [.mark ']']
  | item :: items => .mark ',' :: (item.tokens ++ itemTokens items)

/-- The tokens behind a member, up to and with the closing brace. -/
def entryTokens : List (String × Raw) → List Token
  | [] => [.mark '\x7d']
  | (key, value) :: entries =>
    .mark ',' :: .text key :: .mark ':' :: (value.tokens ++ entryTokens entries)

end

section Values

theorem itemsAreJson_iff (items : List Raw) :
    itemsAreJson items ↔ ∀ item ∈ items, item.IsJson := by
  induction items with
  | nil => simp [itemsAreJson]
  | cons item items ih => simp [itemsAreJson, ih]

theorem entriesAreJson_iff (entries : List (String × Raw)) :
    entriesAreJson entries ↔ ∀ entry ∈ entries, entry.2.IsJson := by
  induction entries with
  | nil => simp [entriesAreJson]
  | cons entry entries ih => simp [entriesAreJson, ih]

/-- Induction over the values in lists and maps. -/
@[elab_as_elim]
theorem Raw.nested {P : Raw → Prop} (leaf : ∀ v, v.isNested = false → P v)
    (list : ∀ items, (∀ item ∈ items, P item) → P (.list items))
    (tuple : ∀ items, (∀ item ∈ items, P item) → P (.tuple items))
    (map : ∀ entries, (∀ entry ∈ entries, P entry.2) → P (.map entries)) : ∀ v, P v
  | .list items => list items fun item hitem =>
    have := List.sizeOf_lt_of_mem hitem
    Raw.nested leaf list tuple map item
  | .tuple items => tuple items fun item hitem =>
    have := List.sizeOf_lt_of_mem hitem
    Raw.nested leaf list tuple map item
  | .map entries => map entries fun (key, value) hentry =>
    have := List.sizeOf_lt_of_mem hentry
    have := Prod.mk.sizeOf_spec key value
    Raw.nested leaf list tuple map value
  | .null => leaf _ rfl
  | .bool _ => leaf _ rfl
  | .int _ => leaf _ rfl
  | .float _ => leaf _ rfl
  | .text _ => leaf _ rfl
  | .other _ => leaf _ rfl
termination_by v => sizeOf v
decreasing_by
  all_goals simp only [Raw.list.sizeOf_spec, Raw.tuple.sizeOf_spec, Raw.map.sizeOf_spec]; omega

theorem Raw.IsDocument.isJson {v : Raw} (h : v.IsDocument) : v.IsJson := by
  induction v using Raw.nested with
  | leaf v hleaf =>
    cases v with
    | list | tuple | map => simp [Raw.isNested] at hleaf
    | other => exact h.elim
    | _ => trivial
  | list items ih =>
    exact (itemsAreJson_iff items).mpr fun item hitem =>
      ih item hitem ((itemsAreDocuments_iff items).mp h item hitem)
  | tuple => exact h.elim
  | map entries ih =>
    exact ⟨h.1, (entriesAreJson_iff entries).mpr fun entry hentry =>
      ih entry hentry ((entriesAreDocuments_iff entries).mp h.2 entry hentry)⟩

end Values

section WhiteSpace

theorem Spaces.append {w w' : List Char} (hw : Spaces w) (hw' : Spaces w') : Spaces (w ++ w') :=
  List.forall_mem_append.mpr ⟨hw, hw'⟩

theorem Spaces.blanks {w : List Char} (hw : Spaces w) : Blanks w := fun c hc => (hw c hc).1

theorem Spaced.spaces {ks : List Token} {w t : List Char} (hw : Spaces w) (h : Spaced ks t) :
    Spaced ks (w ++ t) := by
  cases h with
  | nil hw' => exact .nil (hw.append hw')
  | cons hw' hk ht =>
    rw [← List.append_assoc]
    exact .cons (hw.append hw') hk ht

/-- A token with nothing in front of it. -/
theorem Spaced.token {k : Token} {ks : List Token} {s t : List Char} (hk : k.Spelled s)
    (ht : Spaced ks t) : Spaced (k :: ks) (s ++ t) := .cons (w := []) (by decide) hk ht

theorem Spaced.of_mark {c : Char} {ks : List Token} {t : List Char}
    (h : Spaced (.mark c :: ks) t) :
    ∃ w rest, t = w ++ c :: rest ∧ Spaces w ∧ Spaced ks rest := by
  cases h with
  | cons hw hk ht =>
    cases hk
    exact ⟨_, _, rfl, hw, ht⟩

theorem Token.Spelled.text_cases {s : String} {q : List Char} (h : (Token.text s).Spelled q) :
    q = Text.quoteAscii s.toList ∨ q = Text.quoteMinimal s.toList := by
  cases h
  · exact .inl rfl
  · exact .inr rfl

theorem Token.Spelled.body {s : String} {q : List Char} (h : (Token.text s).Spelled q) :
    ∃ t, StringBody s.toList t ∧ q = '"' :: (t ++ ['"']) := by
  rcases h.text_cases with rfl | rfl
  · exact quoted_ascii _
  · exact quoted_minimal _

theorem Spaced.of_key {key : String} {ks : List Token} {t : List Char}
    (h : Spaced (.text key :: .mark ':' :: ks) t) :
    ∃ w q w' rest, t = w ++ (q ++ (w' ++ ':' :: rest)) ∧ Spaces w ∧ (Token.text key).Spelled q
      ∧ Spaces w' ∧ Spaced ks rest := by
  cases h with
  | cons hw hq ht =>
    obtain ⟨w', rest, rfl, hw', ht⟩ := Spaced.of_mark ht
    exact ⟨_, _, w', rest, rfl, hw, hq, hw', ht⟩

end WhiteSpace

section WrittenText

/-- The tokens spell the value behind white space. -/
def Spells (v : Raw) (ks : List Token) (t : List Char) : Prop :=
  ∃ w s rest, t = w ++ (s ++ rest) ∧ Spaces w ∧ Written v s ∧ Spaced ks rest

theorem spells_leaf {v : Raw} {ks : List Token} {t : List Char} (hdoc : v.IsDocument)
    (h : Spaced (.leaf v :: ks) t) : Spells v ks t := by
  cases h with
  | cons hw hk ht =>
    cases hk with
    | word hs => exact ⟨_, _, _, rfl, hw, .word hs, ht⟩
    | numeral hs => exact ⟨_, _, _, rfl, hw, .numeral hs, ht⟩
    | long hlong => exact absurd hdoc (Nat.not_le_of_lt hlong)

theorem spells_text {s : String} {ks : List Token} {t : List Char}
    (h : Spaced (.text s :: ks) t) : Spells (.text s) ks t := by
  cases h with
  | cons hw hk ht =>
    obtain ⟨body, hbody, rfl⟩ := hk.body
    have hwritten := Written.text hbody
    rw [String.ofList_toList] at hwritten
    exact ⟨_, _, _, rfl, hw, hwritten, ht⟩

theorem Token.Spelled.member {key : String} {q w w' s : List Char} {v : Raw}
    (hq : (Token.text key).Spelled q) (hw : Spaces w) (hw' : Spaces w') (hs : Written v s) :
    Member (key, v) (q ++ (w ++ ':' :: (w' ++ s))) := by
  obtain ⟨body, hbody, rfl⟩ := hq.body
  have hmember := Member.mk hbody hw.blanks hw'.blanks hs
  rw [String.ofList_toList] at hmember
  simpa using hmember

mutual

/-- The tokens of a document spell it. -/
theorem spaced_value : ∀ (v : Raw) {ks : List Token} {t : List Char}, v.IsDocument →
    Spaced (v.tokens ++ ks) t → Spells v ks t
  | .null, _, _, hdoc, h => spells_leaf hdoc h
  | .bool _, _, _, hdoc, h => spells_leaf hdoc h
  | .int _, _, _, hdoc, h => spells_leaf hdoc h
  | .float _, _, _, hdoc, h => spells_leaf hdoc h
  | .text _, _, _, _, h => spells_text h
  | .tuple _, _, _, hdoc, _ => hdoc.elim
  | .other _, _, _, hdoc, _ => hdoc.elim
  | .list [], _, _, _, h => by
    obtain ⟨w, t, rfl, hw, h⟩ := Spaced.of_mark h
    obtain ⟨w', rest, rfl, hw', h⟩ := Spaced.of_mark h
    exact ⟨w, '[' :: (w' ++ [']']), rest, by simp, hw, .emptyList hw'.blanks, h⟩
  | .list (item :: items), ks, _, hdoc, h => by
    rw [Raw.tokens, List.cons_append, List.append_assoc] at h
    obtain ⟨w, t, rfl, hw, h⟩ := Spaced.of_mark h
    obtain ⟨w', s, t, rfl, hw', hs, h⟩ := spaced_value item hdoc.1 h
    obtain ⟨u, rest, rfl, hu, h⟩ := spaced_items items hdoc.2 h
    exact ⟨w, '[' :: (w' ++ (s ++ u)), rest, by simp, hw, .list hw'.blanks hs hu, h⟩
  | .map [], _, _, _, h => by
    obtain ⟨w, t, rfl, hw, h⟩ := Spaced.of_mark h
    obtain ⟨w', rest, rfl, hw', h⟩ := Spaced.of_mark h
    exact ⟨w, '\x7b' :: (w' ++ ['\x7d']), rest, by simp, hw, .emptyMap hw'.blanks, h⟩
  | .map ((key, value) :: entries), ks, _, hdoc, h => by
    rw [Raw.tokens, List.cons_append, List.cons_append, List.cons_append, List.append_assoc] at h
    obtain ⟨w, t, rfl, hw, h⟩ := Spaced.of_mark h
    obtain ⟨w', q, w₁, t, rfl, hw', hq, hw₁, h⟩ := Spaced.of_key h
    obtain ⟨w₂, s, t, rfl, hw₂, hs, h⟩ := spaced_value value hdoc.2.1 h
    obtain ⟨u, rest, rfl, hu, h⟩ := spaced_entries entries hdoc.2.2 h
    have hwritten := Written.map hw'.blanks (hq.member hw₁ hw₂ hs) hu
    rw [mergeEntries_distinct hdoc.1] at hwritten
    exact ⟨w, _, rest, by simp, hw, hwritten, h⟩

theorem spaced_items : ∀ (items : List Raw) {ks : List Token} {t : List Char},
    itemsAreDocuments items → Spaced (itemTokens items ++ ks) t →
    ∃ u rest, t = u ++ rest ∧ MoreItems items u ∧ Spaced ks rest
  | [], _, _, _, h => by
    obtain ⟨w, rest, rfl, hw, h⟩ := Spaced.of_mark h
    exact ⟨w ++ [']'], rest, by simp, .last hw.blanks, h⟩
  | item :: items, _, _, hdoc, h => by
    rw [itemTokens, List.cons_append, List.append_assoc] at h
    obtain ⟨w, t, rfl, hw, h⟩ := Spaced.of_mark h
    obtain ⟨w', s, t, rfl, hw', hs, h⟩ := spaced_value item hdoc.1 h
    obtain ⟨u, rest, rfl, hu, h⟩ := spaced_items items hdoc.2 h
    exact ⟨_, rest, by simp, .next hw.blanks hw'.blanks hs hu, h⟩

theorem spaced_entries : ∀ (entries : List (String × Raw)) {ks : List Token} {t : List Char},
    entriesAreDocuments entries → Spaced (entryTokens entries ++ ks) t →
    ∃ u rest, t = u ++ rest ∧ MoreMembers entries u ∧ Spaced ks rest
  | [], _, _, _, h => by
    obtain ⟨w, rest, rfl, hw, h⟩ := Spaced.of_mark h
    exact ⟨w ++ ['\x7d'], rest, by simp, .last hw.blanks, h⟩
  | (key, value) :: entries, _, _, hdoc, h => by
    rw [entryTokens, List.cons_append, List.cons_append, List.cons_append, List.append_assoc] at h
    obtain ⟨w, t, rfl, hw, h⟩ := Spaced.of_mark h
    obtain ⟨w', q, w₁, t, rfl, hw', hq, hw₁, h⟩ := Spaced.of_key h
    obtain ⟨w₂, s, t, rfl, hw₂, hs, h⟩ := spaced_value value hdoc.1 h
    obtain ⟨u, rest, rfl, hu, h⟩ := spaced_entries entries hdoc.2 h
    exact ⟨_, rest, by simp, .next hw.blanks hw'.blanks (hq.member hw₁ hw₂ hs) hu, h⟩

end

end WrittenText

section Line

mutual

theorem newline_notMem_tokens : ∀ v : Raw, Token.mark '\n' ∉ v.tokens
  | .null => by simp [Raw.tokens]
  | .bool _ => by simp [Raw.tokens]
  | .int _ => by simp [Raw.tokens]
  | .float _ => by simp [Raw.tokens]
  | .text _ => by simp [Raw.tokens]
  | .tuple _ => by simp [Raw.tokens]
  | .other _ => by simp [Raw.tokens]
  | .list [] => by simp [Raw.tokens]
  | .list (item :: items) => by
    simp [Raw.tokens, newline_notMem_tokens item, newline_notMem_itemTokens items]
  | .map [] => by simp [Raw.tokens]
  | .map ((_, value) :: entries) => by
    simp [Raw.tokens, newline_notMem_tokens value, newline_notMem_entryTokens entries]

theorem newline_notMem_itemTokens : ∀ items : List Raw, Token.mark '\n' ∉ itemTokens items
  | [] => by simp [itemTokens]
  | item :: items => by
    simp [itemTokens, newline_notMem_tokens item, newline_notMem_itemTokens items]

theorem newline_notMem_entryTokens : ∀ entries : List (String × Raw),
    Token.mark '\n' ∉ entryTokens entries
  | [] => by simp [entryTokens]
  | (_, value) :: entries => by
    simp [entryTokens, newline_notMem_tokens value, newline_notMem_entryTokens entries]

end

theorem newline_notMem_spaced {ks : List Token} {t : List Char} (h : Spaced ks t)
    (hks : Token.mark '\n' ∉ ks) : '\n' ∉ t := by
  have hspaces : ∀ {w : List Char}, Spaces w → '\n' ∉ w := fun hw hmem => (hw _ hmem).2 rfl
  induction h with
  | nil hw => exact hspaces hw
  | @cons k ks w s t hw hk _ ih =>
    rw [List.mem_cons, not_or] at hks
    have hs : '\n' ∉ s := by
      cases hk with
      | mark c => simpa using fun heq : '\n' = c => hks.1 (by rw [heq])
      | word h => exact (word_noControls h).not_mem (by decide)
      | numeral h => exact (numeral_noControls h).not_mem (by decide)
      | long => exact fun hmem => absurd (intText_ascii _ _ hmem).1 (by decide)
      | ascii s => exact (quoted_noControls (stringBody_ascii _)).not_mem (by decide)
      | minimal s => exact (quoted_noControls (stringBody_minimal _)).not_mem (by decide)
    simp only [List.mem_append, not_or]
    exact ⟨hspaces hw, hs, ih hks.2⟩

end Line

namespace Json.Style

theorem spelled_line {v : Raw} {ks : List Token} {rest : List Char} (hjson : v.IsJson)
    (hleaf : v.isNested = false) (h : Spaced ks rest) :
    Spaced (v.readBack.tokens ++ ks) (line.encode v ++ rest) := by
  cases v with
  | null => exact .token (.word .null) h
  | bool b =>
    cases b with
    | true => exact .token (.word .true) h
    | false => exact .token (.word .false) h
  | int n =>
    by_cases hlong : maxIntegerDigits < n.natAbs.repr.toList.length
    · exact .token (.long hlong) h
    · exact .token (.numeral (numeral_intText (Nat.not_lt.mp hlong))) h
  | float x =>
    obtain ⟨y, hy⟩ := token_floatText x
    have hread : readFloat x = .float y := by
      rw [readFloat, decode_written (hy.elim .numeral .word)]
    rw [Raw.readBack, hread]
    exact .token (hy.elim .numeral .word) h
  | text s => exact .token (.minimal s) h
  | other => exact hjson.elim
  | list | tuple | map => simp [Raw.isNested] at hleaf

mutual

/-- The text of a value writes the tokens of the value that is read in it. -/
theorem spaced_line : ∀ (v : Raw) {ks : List Token} {rest : List Char}, v.IsJson →
    Spaced ks rest → Spaced (v.readBack.tokens ++ ks) (line.encode v ++ rest)
  | .null, _, _, hjson, h => spelled_line hjson rfl h
  | .bool _, _, _, hjson, h => spelled_line hjson rfl h
  | .int _, _, _, hjson, h => spelled_line hjson rfl h
  | .float _, _, _, hjson, h => spelled_line hjson rfl h
  | .text _, _, _, hjson, h => spelled_line hjson rfl h
  | .tuple _, _, _, hjson, _ => hjson.elim
  | .other _, _, _, hjson, _ => hjson.elim
  | .list [], _, _, _, h => (Spaced.token (.mark '[') (.token (.mark ']') h) :)
  | .list (item :: items), _, rest, hjson, h => by
    have hitems := spaced_line item hjson.1 (spaced_lineItems items hjson.2 h)
    have hlist := Spaced.token (.mark '[') hitems
    rw [encode, arrayText, encodeList_eq, List.map_cons]
    simpa [sepBy_cons, line, Raw.readBack, readBackItems, Raw.tokens] using hlist
  | .map [], _, _, _, h => (Spaced.token (.mark '\x7b') (.token (.mark '\x7d') h) :)
  | .map ((key, value) :: entries), _, _, hjson, h => by
    have hvalue := spaced_line value hjson.2.1 (spaced_lineEntries entries hjson.2.2 h)
    have hmember := Spaced.token (.minimal key)
      (.token (.mark ':') (hvalue.spaces (w := [' ']) (by decide)))
    have hmap := Spaced.token (.mark '\x7b') hmember
    rw [encode_map]
    simpa [sepBy_cons, line, order, memberText, Raw.readBack, readBackEntries, Raw.tokens]
      using hmap

theorem spaced_lineItems : ∀ (items : List Raw) {ks : List Token} {rest : List Char},
    itemsAreJson items → Spaced ks rest →
    Spaced (itemTokens (readBackItems items) ++ ks)
      ((items.map line.encode).flatMap ([',', ' '] ++ ·) ++ ']' :: rest)
  | [], _, _, _, h => (Spaced.token (.mark ']') h :)
  | item :: items, _, _, hjson, h => by
    have hitems := spaced_line item hjson.1 (spaced_lineItems items hjson.2 h)
    have hnext := Spaced.token (.mark ',') (hitems.spaces (w := [' ']) (by decide))
    simpa [readBackItems, itemTokens] using hnext

theorem spaced_lineEntries : ∀ (entries : List (String × Raw)) {ks : List Token}
    {rest : List Char}, entriesAreJson entries → Spaced ks rest →
    Spaced (entryTokens (readBackEntries entries) ++ ks)
      ((entries.map line.memberText).flatMap ([',', ' '] ++ ·) ++ '\x7d' :: rest)
  | [], _, _, _, h => (Spaced.token (.mark '\x7d') h :)
  | (key, value) :: entries, _, _, hjson, h => by
    have hvalue := spaced_line value hjson.1 (spaced_lineEntries entries hjson.2 h)
    have hmember := Spaced.token (.minimal key)
      (.token (.mark ':') (hvalue.spaces (w := [' ']) (by decide)))
    have hnext := Spaced.token (.mark ',') (hmember.spaces (w := [' ']) (by decide))
    simpa [readBackEntries, entryTokens, memberText, line] using hnext

end

end Json.Style

end TerraIndex
