import TerraIndex.Document.Canonical
import TerraIndex.Proofs.Document.Bodies
import TerraIndex.Proofs.Json.Quoted
/-!
# Canonical text is read back

The canonical text of a document is JSON for its value with the entries of every map sorted by key
(`written_canonical`), so the decoder reads it to that value, which is the value of the document up
to the order of the entries (`decode_canonical`).

This holds up to the digits that integers are read and written with: a longer integer has no
canonical text (`canonical_refused`), and the decoder refuses its digits (`scanValue_long`).
-/

namespace TerraIndex

open Json

section Sorting

variable {α β : Type}

theorem insertSorted_perm (entry : String × α) : ∀ entries : List (String × α),
    (insertSorted entry entries).Perm (entry :: entries)
  | [] => .refl _
  | other :: entries => by
    rw [insertSorted]
    split_ifs
    · exact .refl _
    · exact ((insertSorted_perm entry entries).cons other).trans (.swap entry other entries)

theorem foldl_insertSorted_perm : ∀ entries sorted : List (String × α),
    (entries.foldl (fun sorted entry => insertSorted entry sorted) sorted).Perm (entries ++ sorted)
  | [], sorted => .refl sorted
  | entry :: entries, sorted =>
    (foldl_insertSorted_perm entries (insertSorted entry sorted)).trans
      (((insertSorted_perm entry sorted).append_left entries).trans List.perm_middle)

theorem sortEntries_perm (entries : List (String × α)) : (sortEntries entries).Perm entries := by
  have h := foldl_insertSorted_perm entries []
  rwa [List.append_nil] at h

theorem mem_sortEntries {entry : String × α} {entries : List (String × α)} :
    entry ∈ sortEntries entries ↔ entry ∈ entries := (sortEntries_perm entries).mem_iff

/-- Only keys count for the order. -/
theorem insertSorted_map (f : α → β) (entry : String × α) : ∀ entries : List (String × α),
    insertSorted (entry.map id f) (entries.map (Prod.map id f))
      = (insertSorted entry entries).map (Prod.map id f)
  | [] => rfl
  | other :: entries => by
    have ih := insertSorted_map f entry entries
    rw [List.map_cons, insertSorted, insertSorted, ih]
    simp only [Prod.map_fst, id]
    split_ifs <;> rfl

theorem sortEntries_map (f : α → β) (entries : List (String × α)) :
    sortEntries (entries.map (Prod.map id f)) = (sortEntries entries).map (Prod.map id f) := by
  have h : ∀ sorted : List (String × α),
      (entries.map (Prod.map id f)).foldl (fun sorted entry => insertSorted entry sorted)
          (sorted.map (Prod.map id f))
        = (entries.foldl (fun sorted entry => insertSorted entry sorted) sorted).map
          (Prod.map id f) := by
    induction entries with
    | nil => exact fun _ => rfl
    | cons entry entries ih =>
      intro sorted
      rw [List.map_cons, List.foldl_cons, List.foldl_cons, insertSorted_map, ih]
  exact h []

end Sorting

section ValuesUpToOrder

mutual

/-- The value with the entries of every map sorted by key. -/
def Raw.sorted : Raw → Raw
  | .list items => .list (sortedItems items)
  | .map entries => .map (sortEntries (sortedValues entries))
  | v => v

def sortedItems : List Raw → List Raw
  | [] => []
  | item :: rest => item.sorted :: sortedItems rest

def sortedValues : List (String × Raw) → List (String × Raw)
  | [] => []
  | (key, value) :: rest => (key, value.sorted) :: sortedValues rest

end

mutual

/-- The values are equal, where maps are equal if they have as many entries and the same value, in
the same sense, under every key. -/
def Raw.Same : Raw → Raw → Prop
  | .list items, .list others => sameItems items others
  | .map entries, .map others => entries.length = others.length ∧ sameValues entries others
  | v, w => v = w

def sameItems : List Raw → List Raw → Prop
  | [], [] => True
  | item :: items, other :: others => item.Same other ∧ sameItems items others
  | _, _ => False

def sameValues : List (String × Raw) → List (String × Raw) → Prop
  | [], _ => True
  | (key, value) :: entries, others =>
    (∃ other, entryAt? others key = some other ∧ value.Same other) ∧ sameValues entries others

end

theorem sortedItems_eq (items : List Raw) : sortedItems items = items.map Raw.sorted := by
  induction items with
  | nil => rfl
  | cons item items ih => rw [sortedItems, ih, List.map_cons]

theorem sortedValues_eq (entries : List (String × Raw)) :
    sortedValues entries = entries.map (Prod.map id Raw.sorted) := by
  induction entries with
  | nil => rfl
  | cons entry entries ih => rw [sortedValues, ih, List.map_cons]; rfl

theorem sameItems_sorted : ∀ {items : List Raw}, (∀ item ∈ items, item.Same item.sorted) →
    sameItems items (sortedItems items)
  | [], _ => trivial
  | _ :: _, h =>
    have ⟨hitem, hitems⟩ := List.forall_mem_cons.mp h
    ⟨hitem, sameItems_sorted hitems⟩

theorem sameValues_of_forall {others : List (String × Raw)} : ∀ {entries : List (String × Raw)},
    (∀ entry ∈ entries, ∃ other, entryAt? others entry.1 = some other ∧ entry.2.Same other) →
    sameValues entries others
  | [], _ => trivial
  | _ :: _, h =>
    have ⟨hentry, hentries⟩ := List.forall_mem_cons.mp h
    ⟨hentry, sameValues_of_forall hentries⟩

/-- Sorting the entries of a map changes nothing but their order. -/
theorem same_sorted_map {entries : List (String × Raw)} (hkeys : (entries.map Prod.fst).Nodup)
    (h : ∀ entry ∈ entries, entry.2.Same entry.2.sorted) :
    (Raw.map entries).Same (Raw.map entries).sorted := by
  have hperm := sortEntries_perm (sortedValues entries)
  have hfst : (sortedValues entries).map Prod.fst = entries.map Prod.fst := by
    rw [sortedValues_eq, List.map_map]
    rfl
  have hnodup : ((sortEntries (sortedValues entries)).map Prod.fst).Nodup := by
    rw [(hperm.map Prod.fst).nodup_iff, hfst]
    exact hkeys
  refine ⟨?_, sameValues_of_forall fun entry hmem => ⟨entry.2.sorted, ?_, h entry hmem⟩⟩
  · rw [hperm.length_eq, sortedValues_eq, List.length_map]
  · refine entryAt?_of_mem hnodup (mem_sortEntries.mpr ?_)
    rw [sortedValues_eq]
    exact List.mem_map_of_mem (f := Prod.map id Raw.sorted) hmem

end ValuesUpToOrder

section Documents

/-- The scalar can be in a document: it holds no foreign value, a number is finite, and an integer
has no more digits than the decoder reads. -/
def Scalar.IsValue : Scalar → Prop
  | .int n => n.natAbs.repr.toList.length ≤ maxIntegerDigits
  | .float x => x.isFinite = true
  | .foreign _ => False
  | _ => True

/-- The decoder reads the text of a floating-point number to that number. -/
def Scalar.ReadsBack : Scalar → Prop
  | .float x => decode x.text.toList = .ok (.float x)
  | _ => True

mutual

/-- All scalars have the property, no value is in the place of a node, and the keys of every map are
distinct. -/
def Node.Holds (P : Scalar → Prop) : Node → Prop
  | .scalar s => P s
  | .list items => itemsHold P items
  | .map entries => (entries.map Prod.fst).Nodup ∧ valuesHold P entries
  | .stray _ => False

def itemsHold (P : Scalar → Prop) : List Node → Prop
  | [] => True
  | item :: rest => item.Holds P ∧ itemsHold P rest

def valuesHold (P : Scalar → Prop) : List (String × Node) → Prop
  | [] => True
  | (_, value) :: rest => value.Holds P ∧ valuesHold P rest

end

mutual

theorem Node.Holds.imp {P Q : Scalar → Prop} (hPQ : ∀ s, P s → Q s) :
    ∀ {node : Node}, node.Holds P → node.Holds Q
  | .scalar s, h => hPQ s h
  | .list items, h => itemsHold_imp hPQ items h
  | .map entries, h => ⟨h.1, valuesHold_imp hPQ entries h.2⟩
  | .stray _, h => h.elim

theorem itemsHold_imp {P Q : Scalar → Prop} (hPQ : ∀ s, P s → Q s) :
    ∀ (items : List Node), itemsHold P items → itemsHold Q items
  | [], _ => trivial
  | _ :: items, h => ⟨Node.Holds.imp hPQ h.1, itemsHold_imp hPQ items h.2⟩

theorem valuesHold_imp {P Q : Scalar → Prop} (hPQ : ∀ s, P s → Q s) :
    ∀ (entries : List (String × Node)), valuesHold P entries → valuesHold Q entries
  | [], _ => trivial
  | (_, _) :: entries, h => ⟨Node.Holds.imp hPQ h.1, valuesHold_imp hPQ entries h.2⟩

end

theorem itemsHold_iff {P : Scalar → Prop} (items : List Node) :
    itemsHold P items ↔ ∀ item ∈ items, item.Holds P := by
  induction items with
  | nil => simp [itemsHold]
  | cons item items ih => simp [itemsHold, ih]

theorem valuesHold_iff {P : Scalar → Prop} (entries : List (String × Node)) :
    valuesHold P entries ↔ ∀ entry ∈ entries, entry.2.Holds P := by
  induction entries with
  | nil => simp [valuesHold]
  | cons entry entries ih => simp [valuesHold, ih]

end Documents

section Texts

theorem sepBy_cons (separator part : List Char) : ∀ parts : List (List Char),
    sepBy separator (part :: parts) = part ++ parts.flatMap (separator ++ ·)
  | [] => (List.append_nil part).symm
  | next :: parts => by
    rw [sepBy, sepBy_cons separator next parts, List.flatMap_cons, List.append_assoc,
      List.append_assoc]
    exact List.cons_ne_nil next parts

section Separated

variable {w : List Char} (hw : Blanks w)
include hw

theorem moreItems_flatMap {vs : List Raw} {ts : List (List Char)}
    (h : List.Forall₂ Written vs ts) :
    MoreItems vs (ts.flatMap (',' :: w ++ ·) ++ [']']) := by
  induction h with
  | nil => exact .last blanks_nil
  | cons ht _ ih =>
    have hnext := MoreItems.next blanks_nil hw ht ih
    simpa using hnext

theorem moreMembers_flatMap {ms : List (String × Raw)} {ts : List (List Char)}
    (h : List.Forall₂ Member ms ts) :
    MoreMembers ms (ts.flatMap (',' :: w ++ ·) ++ ['\x7d']) := by
  induction h with
  | nil => exact .last blanks_nil
  | cons ht _ ih =>
    have hnext := MoreMembers.next blanks_nil hw ht ih
    simpa using hnext

theorem written_sepBy_list {vs : List Raw} {ts : List (List Char)}
    (h : List.Forall₂ Written vs ts) :
    Written (.list vs) ('[' :: sepBy (',' :: w) ts ++ [']']) := by
  cases h with
  | nil => exact .emptyList blanks_nil
  | cons ht hts =>
    have hlist := Written.list blanks_nil ht (moreItems_flatMap hw hts)
    rw [sepBy_cons]
    simpa using hlist

theorem written_sepBy_map {ms : List (String × Raw)} {ts : List (List Char)}
    (hkeys : (ms.map Prod.fst).Nodup) (h : List.Forall₂ Member ms ts) :
    Written (.map ms) ('\x7b' :: sepBy (',' :: w) ts ++ ['\x7d']) := by
  cases h with
  | nil => exact .emptyMap blanks_nil
  | @cons m _ ms _ ht hts =>
    have hmap := Written.map blanks_nil ht (moreMembers_flatMap hw hts)
    rw [mergeEntries_distinct hkeys] at hmap
    rw [sepBy_cons]
    simpa using hmap

end Separated

theorem written_quoteAscii (s : String) : Written (.text s) (Text.quoteAscii s.toList) := by
  have htext := Written.text (stringBody_ascii s.toList)
  rwa [String.ofList_toList] at htext

theorem member_quoteAscii (key : String) {value : Raw} {t : List Char} (h : Written value t) :
    Member (key, value) (Text.quoteAscii key.toList ++ ':' :: t) := by
  have hmember := Member.mk (stringBody_ascii key.toList) blanks_nil blanks_nil h
  rw [String.ofList_toList] at hmember
  simpa [Text.quoteAscii] using hmember

end Texts

section WrittenText

/-- The text is JSON for the value with its entries sorted, which is the same up to their order. -/
structure Raw.IsReadIn (raw : Raw) (text : List Char) : Prop where
  written : Written raw.sorted text
  same : raw.Same raw.sorted

/-- The text of a floating-point number is a numeral for the number that is read in it. -/
theorem written_float {x : Binary64} (hfinite : x.isFinite = true)
    (hread : decode x.text.toList = .ok (.float x)) : Written (.float x) x.text.toList := by
  have htext : Style.floatText x = x.text.toList := by rw [Style.floatText, if_pos hfinite]
  obtain ⟨y, -, hwritten⟩ := floatText_readFloat x
  rw [htext] at hwritten
  have hy := decode_written hwritten
  rw [hread, Except.ok.injEq, Raw.float.injEq] at hy
  rwa [← hy] at hwritten

theorem canonical_int {n : Int} (h : n.natAbs.repr.toList.length ≤ maxIntegerDigits) :
    (Scalar.int n).canonical = .ok (intText n) := by
  rw [Scalar.canonical, intText?, if_pos h]

theorem canonical_int_ok {n : Int} {text : List Char} (h : (Scalar.int n).canonical = .ok text) :
    n.natAbs.repr.toList.length ≤ maxIntegerDigits ∧ intText n = text := by
  rw [Scalar.canonical, intText?] at h
  split_ifs at h with hdigits
  exact ⟨hdigits, Except.ok.inj h⟩

theorem canonical_int_long {n : Int} (h : maxIntegerDigits < n.natAbs.repr.toList.length) :
    (Scalar.int n).canonical = .error ⟨"int"⟩ := by
  rw [Scalar.canonical, intText?, if_neg (Nat.not_le.mpr h)]
  rfl

theorem isReadIn_scalar : ∀ {s : Scalar}, s.IsValue → s.ReadsBack →
    ∃ text, s.canonical = .ok text ∧ s.toRaw.IsReadIn text
  | .null, _, _ => ⟨_, rfl, .word .null, rfl⟩
  | .bool true, _, _ => ⟨_, rfl, .word .true, rfl⟩
  | .bool false, _, _ => ⟨_, rfl, .word .false, rfl⟩
  | .int _, hdigits, _ => ⟨_, canonical_int hdigits, .numeral (numeral_intText hdigits), rfl⟩
  | .float _, hfinite, hread => ⟨_, if_pos hfinite, written_float hfinite hread, rfl⟩
  | .text s, _, _ => ⟨_, rfl, written_quoteAscii s, rfl⟩
  | .foreign _, hvalue, _ => hvalue.elim

theorem collect_ok (rows : List (String × (List Char × Raw))) :
    Node.collect (rows.map (Prod.map id fun row => .ok row.1))
      = .ok (rows.map (Prod.map id Prod.fst)) := by
  induction rows with
  | nil => rfl
  | cons row rows ih =>
    rw [List.map_cons, Node.collect, ih]
    rfl

theorem isReadIn_list {parts : List (List Char × Raw)}
    (h : ∀ part ∈ parts, part.2.IsReadIn part.1) :
    (Raw.list (parts.map Prod.snd)).IsReadIn
      ('[' :: sepBy [','] (parts.map Prod.fst) ++ [']']) where
  written := by
    rw [Raw.sorted, sortedItems_eq, List.map_map]
    exact written_sepBy_list blanks_nil
      (forall₂_map_map fun part hpart => (h part hpart).written)
  same := by
    refine sameItems_sorted fun item hitem => ?_
    obtain ⟨part, hpart, rfl⟩ := List.mem_map.mp hitem
    exact (h part hpart).same

/-- The text of a map, whose entries are given with their texts and values. -/
theorem isReadIn_map {rows : List (String × (List Char × Raw))}
    (hkeys : (rows.map Prod.fst).Nodup) (h : ∀ row ∈ rows, row.2.2.IsReadIn row.2.1) :
    (Raw.map (rows.map (Prod.map id Prod.snd))).IsReadIn
      ('\x7b' :: sepBy [','] ((sortEntries rows).map
        fun row => Text.quoteAscii row.1.toList ++ ':' :: row.2.1) ++ ['\x7d']) where
  written := by
    have hsorted : (Raw.map (rows.map (Prod.map id Prod.snd))).sorted
        = .map ((sortEntries rows).map (Prod.map id fun row => row.2.sorted)) := by
      rw [Raw.sorted, sortedValues_eq, List.map_map, Prod.map_comp_map, Function.id_comp,
        sortEntries_map]
      rfl
    rw [hsorted]
    refine written_sepBy_map blanks_nil ?_ ?_
    · rw [List.map_map]
      exact ((sortEntries_perm rows).map Prod.fst).nodup_iff.mpr hkeys
    · exact forall₂_map_map fun row hrow =>
        member_quoteAscii row.1 (h row (mem_sortEntries.mp hrow)).written
  same := by
    refine same_sorted_map (by rwa [List.map_map]) fun entry hentry => ?_
    obtain ⟨row, hrow, rfl⟩ := List.mem_map.mp hentry
    exact (h row hrow).same

mutual

theorem isReadIn_canonical : ∀ (node : Node), node.Holds Scalar.IsValue →
    node.Holds Scalar.ReadsBack →
    ∃ text raw, node.canonicalChars = .ok text ∧ node.toRaw = .ok raw ∧ raw.IsReadIn text
  | .scalar s, hvalue, hread => by
    obtain ⟨text, htext, h⟩ := isReadIn_scalar hvalue hread
    exact ⟨text, s.toRaw, htext, rfl, h⟩
  | .list items, hvalue, hread => by
    obtain ⟨parts, htexts, hraws, hparts⟩ := isReadIn_items items hvalue hread
    refine ⟨_, _, ?_, ?_, isReadIn_list hparts⟩
    · rw [Node.canonicalChars, htexts]
      rfl
    · rw [Node.toRaw, hraws]
      rfl
  | .map entries, hvalue, hread => by
    obtain ⟨rows, hkeys, htexts, hraws, hrows⟩ := isReadIn_values entries hvalue.2 hread.2
    refine ⟨_, _, ?_, ?_, isReadIn_map (hkeys ▸ hvalue.1) hrows⟩
    · rw [Node.canonicalChars, htexts, sortEntries_map, collect_ok, ok_bind, List.map_map]
      rfl
    · rw [Node.toRaw, hraws]
      rfl
  | .stray _, hvalue, _ => hvalue.elim

theorem isReadIn_items : ∀ (items : List Node), itemsHold Scalar.IsValue items →
    itemsHold Scalar.ReadsBack items →
    ∃ parts : List (List Char × Raw), Node.canonicalList items = .ok (parts.map Prod.fst)
      ∧ Node.toRawList items = .ok (parts.map Prod.snd)
      ∧ ∀ part ∈ parts, part.2.IsReadIn part.1
  | [], _, _ => ⟨[], rfl, rfl, fun _ h => absurd h List.not_mem_nil⟩
  | item :: items, hvalue, hread => by
    obtain ⟨text, raw, htext, hraw, h⟩ := isReadIn_canonical item hvalue.1 hread.1
    obtain ⟨parts, htexts, hraws, hparts⟩ := isReadIn_items items hvalue.2 hread.2
    refine ⟨(text, raw) :: parts, ?_, ?_, List.forall_mem_cons.mpr ⟨h, hparts⟩⟩
    · rw [Node.canonicalList, htext, htexts]
      rfl
    · rw [Node.toRawList, hraw, hraws]
      rfl

theorem isReadIn_values : ∀ (entries : List (String × Node)),
    valuesHold Scalar.IsValue entries → valuesHold Scalar.ReadsBack entries →
    ∃ rows : List (String × (List Char × Raw)), rows.map Prod.fst = entries.map Prod.fst
      ∧ Node.canonicalEntries entries = rows.map (Prod.map id fun row => .ok row.1)
      ∧ Node.toRawEntries entries = .ok (rows.map (Prod.map id Prod.snd))
      ∧ ∀ row ∈ rows, row.2.2.IsReadIn row.2.1
  | [], _, _ => ⟨[], rfl, rfl, rfl, fun _ h => absurd h List.not_mem_nil⟩
  | (key, value) :: entries, hvalue, hread => by
    obtain ⟨text, raw, htext, hraw, h⟩ := isReadIn_canonical value hvalue.1 hread.1
    obtain ⟨rows, hkeys, htexts, hraws, hrows⟩ := isReadIn_values entries hvalue.2 hread.2
    refine ⟨(key, text, raw) :: rows, ?_, ?_, ?_, List.forall_mem_cons.mpr ⟨h, hrows⟩⟩
    · rw [List.map_cons, List.map_cons, hkeys]
    · rw [Node.canonicalEntries, htext, htexts]
      rfl
    · rw [Node.toRawEntries, hraw, hraws]
      rfl

end

/-- The decoder reads the canonical text of a document to its value, up to the order of keys. -/
theorem decode_canonical {node : Node} (hvalue : node.Holds Scalar.IsValue)
    (hread : node.Holds Scalar.ReadsBack) :
    ∃ text raw, node.canonical = .ok text ∧ node.toRaw = .ok raw
      ∧ decode text.toList = .ok raw.sorted ∧ raw.Same raw.sorted := by
  obtain ⟨text, raw, htext, hraw, hwritten, hsame⟩ := isReadIn_canonical node hvalue hread
  refine ⟨String.ofList text, raw, ?_, hraw, ?_, hsame⟩
  · rw [Node.canonical, htext]
    rfl
  · rw [String.toList_ofList]
    exact decode_written hwritten

theorem readsBack_of_isValue : ∀ s : Scalar, s.IsValue → s.ReadsBack
  | .float _, hfinite => decode_written (.numeral (numeral_text hfinite))
  | .null, _ => trivial
  | .bool _, _ => trivial
  | .int _, _ => trivial
  | .text _, _ => trivial
  | .foreign _, _ => trivial

/-- A document has a canonical text and a value that is read in it. -/
theorem isReadIn_value {node : Node} (h : node.Holds Scalar.IsValue) :
    ∃ text raw, node.canonicalChars = .ok text ∧ node.toRaw = .ok raw ∧ raw.IsReadIn text :=
  isReadIn_canonical node h (h.imp readsBack_of_isValue)

end WrittenText

def two : Binary64 := ⟨0x4000000000000000⟩

/-- An object with keys out of order, characters outside ASCII, and two numbers of one value. -/
def tagged : Node := .map [
  ("tags", .map [("owner", .scalar (.text "Zoë \"Ω\" 𝄞")), ("env", .scalar .null)]),
  ("sizes", .list [.scalar (.int 2), .scalar (.float two), .scalar (.bool true)])]

theorem readsBack_two : (Scalar.float two).ReadsBack := readsBack_of_isValue _ rfl

theorem decode_canonical_tagged :
    tagged.Holds Scalar.IsValue ∧ tagged.Holds Scalar.ReadsBack
      ∧ ∃ text raw, tagged.canonical = .ok text ∧ tagged.toRaw = .ok raw
        ∧ decode text.toList = .ok raw.sorted ∧ raw.Same raw.sorted := by
  have hint : (Scalar.int 2).IsValue := Nat.le_of_ble_eq_true rfl
  have hfloat : (Scalar.float two).IsValue := rfl
  have hvalue : tagged.Holds Scalar.IsValue :=
    ⟨by decide, ⟨by decide, trivial, trivial, trivial⟩, ⟨hint, hfloat, trivial, trivial⟩, trivial⟩
  have hread : tagged.Holds Scalar.ReadsBack :=
    ⟨by decide, ⟨by decide, trivial, trivial, trivial⟩, ⟨trivial, readsBack_two, trivial, trivial⟩,
      trivial⟩
  exact ⟨hvalue, hread, decode_canonical hvalue hread⟩

example : tagged.canonical = .ok ("\x7b\"sizes\":[2,2.0,true],\"tags\":\x7b\"env\":null,"
    ++ "\"owner\":\"Zo\\u00eb \\\"\\u03a9\\\" \\ud834\\udd1e\"\x7d\x7d") := by
  rfl

theorem scanUnsigned_long {cs rest : List Char} (start : List Char) (negative : Bool)
    (h : Whole cs) (hlong : maxIntegerDigits < cs.length) (hrest : Ends rest) :
    scanUnsigned start negative (cs ++ rest) = .error ⟨.tooManyDigits cs.length, start⟩ := by
  have hfraction : scanFraction ([] ++ rest) = ([], rest) :=
    scanFraction_fraction .none fun c hc => ⟨(hrest c hc).1, (hrest c hc).2.1⟩
  have hexponent := scanExponent_exponent Exponent.none hrest
  rw [List.nil_append] at hfraction hexponent
  unfold scanUnsigned
  rw [scanInteger?_whole h fun c hc => (hrest c hc).1]
  simp only [hfraction, hexponent]
  rw [if_pos (by rfl), if_pos hlong]

/-- An integer with too many digits is refused wherever it stands. -/
theorem scanValue_long {cs rest : List Char} (fuel : Nat) (negative : Bool) (h : Whole cs)
    (hlong : maxIntegerDigits < cs.length) (hrest : Ends rest) :
    scanValue (fuel + 1) (minusText negative ++ cs ++ rest)
      = .error ⟨.tooManyDigits cs.length, minusText negative ++ cs ++ rest⟩ := by
  have hnumber := scanNumber_whole rest h
  have hrefused := fun start negative => scanUnsigned_long start negative h hlong hrest
  obtain ⟨c, ds, rfl, hc⟩ := whole_head h
  cases negative with
  | false =>
    have hword := scanWord?_digit (ds ++ rest) hc
    rw [List.cons_append] at hnumber hrefused
    simp only [minusText, Bool.false_eq_true, if_false, List.nil_append, List.cons_append]
    rw [scanValue_token _ _ (isDigit_ne hc (by decide)) (isDigit_ne hc (by decide))
      (isDigit_ne hc (by decide)), hword]
    exact hnumber.trans (hrefused _ false)
  | true =>
    have hword := scanWord?_minus (ds ++ rest) hc
    rw [List.cons_append] at hrefused
    simp only [minusText, if_true, List.cons_append, List.nil_append]
    rw [scanValue_token _ _ (by decide) (by decide) (by decide), hword]
    exact hrefused _ true

theorem decode_error {c : Char} {cs : List Char} {halt : Halt} (hblank : isBlank c = false)
    (hmark : c ≠ '\ufeff') (h : decodeFirst (c :: cs) = .error halt) :
    decode (c :: cs) = .error (.ofHalt (c :: cs) halt) := by
  have hskip : skipBlanks (c :: cs) = c :: cs := skipBlanks_append (w := []) (by decide) hblank
  rw [decode, decodeWhole, hskip, h]
  · rfl
  · simp [hmark]

theorem length_repr_tenTo (k : Nat) : k < (tenTo k : Int).natAbs.repr.toList.length := by
  rw [Int.natAbs_natCast, Nat.toList_repr]
  rcases Nat.eq_zero_or_pos k with rfl | hk
  · exact Nat.length_toDigits_pos
  · rw [← Nat.not_le, Nat.length_toDigits_le_iff (by decide) hk]
    exact Nat.lt_irrefl _

/-- A power of ten with more digits than integers are written with has no canonical text. -/
theorem canonical_tenTo {k : Nat} (h : maxIntegerDigits ≤ k) :
    (Node.scalar (.int (tenTo k))).canonical = .error ⟨"int"⟩ := by
  have hlong := canonical_int_long (Nat.lt_of_le_of_lt h (length_repr_tenTo k))
  rw [Node.canonical, Node.canonicalChars, hlong]
  rfl

/-- The least positive integer without a canonical text, though it is converted to a document. -/
theorem canonical_refused :
    Node.ofRaw (.int (tenTo 4300)) = .ok (.scalar (.int (tenTo 4300)))
      ∧ (Node.scalar (.int (tenTo 4300))).canonical = .error ⟨"int"⟩ :=
  ⟨rfl, canonical_tenTo (Nat.le_refl _)⟩

end TerraIndex
