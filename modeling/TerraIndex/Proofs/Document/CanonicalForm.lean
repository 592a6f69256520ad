import TerraIndex.Proofs.Document.Writable
import TerraIndex.Proofs.Document.Keys
import TerraIndex.Proofs.Entity.Address
import TerraIndex.Proofs.Json.Occurrences
/-!
# Canonical text is a canonical form

Two documents have one canonical text exactly when they are the same tree up to the order of the
entries of their maps (`canonical_eq_iff`). In one direction, the rows of a map are the same ones in
another order, and sorting by key leaves one order only (`sortEntries_congr`). In the other, a text
is read in one way whatever follows it, as long as that begins with a comma or a closing bracket
(`readsOnce_spelled`): a string shows where it ends, and a number or word ends in front of the
first character that cannot stand in one.
-/

namespace TerraIndex

open Json

mutual

/-- The same tree up to the order of entries: maps are alike if they have as many entries and alike
nodes under every key. -/
def Node.Alike : Node → Node → Prop
  | .scalar s, .scalar t => s = t
  | .list items, .list others => alikeItems items others
  | .map entries, .map others => entries.length = others.length ∧ alikeValues entries others
  | _, _ => False

def alikeItems : List Node → List Node → Prop
  | [], [] => True
  | item :: items, other :: others => item.Alike other ∧ alikeItems items others
  | _, _ => False

def alikeValues : List (String × Node) → List (String × Node) → Prop
  | [], _ => True
  | (key, node) :: entries, others =>
    (∃ other, entryAt? others key = some other ∧ node.Alike other) ∧ alikeValues entries others

end

theorem alikeItems_iff : ∀ items others : List Node,
    alikeItems items others ↔ List.Forall₂ Node.Alike items others
  | [], [] => by simp [alikeItems]
  | [], _ :: _ => by simp [alikeItems]
  | _ :: _, [] => by simp [alikeItems]
  | _ :: items, _ :: others => by simp [alikeItems, alikeItems_iff items others]

theorem alikeValues_iff (others : List (String × Node)) : ∀ entries : List (String × Node),
    alikeValues entries others ↔
      ∀ entry ∈ entries, ∃ other, entryAt? others entry.1 = some other ∧ entry.2.Alike other
  | [] => by simp [alikeValues]
  | (_, _) :: entries => by simp [alikeValues, alikeValues_iff others entries]

section Sorting

variable {α : Type}

theorem pairwise_insertSorted (entry : String × α) : ∀ {entries : List (String × α)},
    entries.Pairwise (·.1 ≤ ·.1) → (insertSorted entry entries).Pairwise (·.1 ≤ ·.1)
  | [], _ => List.pairwise_singleton ..
  | other :: entries, h => by
    obtain ⟨hother, hentries⟩ := List.pairwise_cons.mp h
    rw [insertSorted]
    split_ifs with hlt
    · have hle : entry.1 ≤ other.1 := (String.le_total _ _).resolve_right (String.not_le.mpr hlt)
      refine .cons (fun next hnext => ?_) h
      rcases List.mem_cons.mp hnext with rfl | hnext
      · exact hle
      · exact String.le_trans hle (hother next hnext)
    · refine .cons (fun next hnext => ?_) (pairwise_insertSorted entry hentries)
      rcases List.mem_cons.mp ((insertSorted_perm entry entries).mem_iff.mp hnext) with rfl | hnext
      · exact String.not_lt.mp hlt
      · exact hother next hnext

theorem pairwise_sortEntries (entries : List (String × α)) :
    (sortEntries entries).Pairwise (·.1 ≤ ·.1) := by
  have hfold : ∀ (entries : List (String × α)) {sorted : List (String × α)},
      sorted.Pairwise (·.1 ≤ ·.1) →
      (entries.foldl (fun sorted entry => insertSorted entry sorted) sorted).Pairwise
        (·.1 ≤ ·.1) := by
    intro entries
    induction entries with
    | nil => exact fun h => h
    | cons entry entries ih => exact fun h => ih (pairwise_insertSorted entry h)
  exact hfold entries .nil

/-- Rows with distinct keys are sorted in one way. -/
theorem sortEntries_congr {rows others : List (String × α)} (hkeys : (rows.map Prod.fst).Nodup)
    (h : rows.Perm others) : sortEntries rows = sortEntries others := by
  refine List.Perm.eq_of_pairwise ?_ (pairwise_sortEntries rows) (pairwise_sortEntries others)
    ((sortEntries_perm rows).trans (h.trans (sortEntries_perm others).symm))
  intro row other hrow hother hle hge
  refine List.inj_on_of_nodup_map hkeys (mem_sortEntries.mp hrow)
    (h.mem_iff.mpr (mem_sortEntries.mp hother)) (String.le_antisymm hle hge)

end Sorting

section Text

/-- The text of a node, where it has one. -/
def Node.spelled (node : Node) : List Char := node.canonicalChars.toOption.getD []

theorem Node.spelled_eq {node : Node} {t : List Char} (h : node.canonicalChars = .ok t) :
    node.spelled = t := by
  rw [spelled, h]
  rfl

theorem canonicalList_spelled : ∀ {items : List Node},
    (∀ item ∈ items, item.canonicalChars = .ok item.spelled) →
    Node.canonicalList items = .ok (items.map Node.spelled)
  | [], _ => rfl
  | item :: items, h => by
    obtain ⟨hitem, hitems⟩ := List.forall_mem_cons.mp h
    rw [Node.canonicalList, hitem, canonicalList_spelled hitems]
    rfl

theorem collect_spelled : ∀ {entries : List (String × Node)},
    (∀ entry ∈ entries, entry.2.canonicalChars = .ok entry.2.spelled) →
    Node.collect (entries.map (Prod.map id Node.canonicalChars))
      = .ok (entries.map (Prod.map id Node.spelled))
  | [], _ => rfl
  | (key, node) :: entries, h => by
    obtain ⟨hnode, hentries⟩ := List.forall_mem_cons.mp h
    rw [List.map_cons, Prod.map_apply, Node.collect, hnode, collect_spelled hentries]
    rfl

/-- An entry as a row of the text of its map. -/
def Node.entryText (entry : String × Node) : List Char := memberText (entry.1, entry.2.spelled)

theorem canonicalChars_list {items : List Node}
    (h : ∀ item ∈ items, item.canonicalChars = .ok item.spelled) :
    (Node.list items).canonicalChars
      = .ok ('[' :: sepBy [','] (items.map Node.spelled) ++ [']']) := by
  rw [Node.canonicalChars, canonicalList_spelled h]
  rfl

theorem canonicalChars_map {entries : List (String × Node)}
    (h : ∀ entry ∈ entries, entry.2.canonicalChars = .ok entry.2.spelled) :
    (Node.map entries).canonicalChars
      = .ok ('\x7b' :: sepBy [','] ((sortEntries entries).map Node.entryText) ++ ['\x7d']) := by
  have hsorted := collect_spelled fun entry hmem => h entry (mem_sortEntries.mp hmem)
  rw [Node.canonicalChars, canonicalEntries_eq, sortEntries_map, hsorted, ok_bind, List.map_map]
  rfl

/-- A document has a text. -/
theorem canonicalChars_spelled (node : Node) (h : node.Holds Scalar.IsValue) :
    node.canonicalChars = .ok node.spelled := by
  obtain ⟨t, ht⟩ := exists_canonicalChars node (writable_of_value node h)
  rw [ht, Node.spelled_eq ht]

theorem spelled_list {items : List Node} (h : (Node.list items).Holds Scalar.IsValue) :
    (Node.list items).spelled = '[' :: sepBy [','] (items.map Node.spelled) ++ [']'] :=
  Node.spelled_eq (canonicalChars_list fun item hitem =>
    canonicalChars_spelled item ((itemsHold_iff items).mp h item hitem))

theorem spelled_map {entries : List (String × Node)}
    (h : (Node.map entries).Holds Scalar.IsValue) :
    (Node.map entries).spelled
      = '\x7b' :: sepBy [','] ((sortEntries entries).map Node.entryText) ++ ['\x7d'] :=
  Node.spelled_eq (canonicalChars_map fun entry hentry =>
    canonicalChars_spelled entry.2 ((valuesHold_iff entries).mp h.2 entry hentry))

end Text

section Trees

/-- Entries with the same keys and, under every key, values that `f` takes to one result have the
same rows of results. -/
theorem sortEntries_rows {α β : Type} {f : α → β} {entries others : List (String × α)}
    (hkeys : (entries.map Prod.fst).Nodup) (hlength : entries.length = others.length)
    (h : ∀ entry ∈ entries, ∃ other, entryAt? others entry.1 = some other ∧ f entry.2 = f other) :
    sortEntries (entries.map (Prod.map id f)) = sortEntries (others.map (Prod.map id f)) := by
  have hrows : ((entries.map (Prod.map id f)).map Prod.fst).Nodup := by
    rw [List.map_map]
    exact hkeys
  have hsubset : entries.map (Prod.map id f) ⊆ others.map (Prod.map id f) := fun row hrow => by
    obtain ⟨entry, hentry, rfl⟩ := List.mem_map.mp hrow
    obtain ⟨other, hother, hvalue⟩ := h entry hentry
    exact List.mem_map.mpr ⟨_, mem_of_entryAt? hother, Prod.ext rfl hvalue.symm⟩
  refine sortEntries_congr hrows ((List.subperm_of_subset (.of_map Prod.fst hrows)
    hsubset).perm_of_length_le ?_)
  rw [List.length_map, List.length_map, hlength]

theorem canonicalList_alike : ∀ {items others : List Node}, List.Forall₂ Node.Alike items others →
    (∀ item ∈ items, ∀ {other}, item.Alike other → item.canonicalChars = other.canonicalChars) →
    Node.canonicalList items = Node.canonicalList others
  | _, _, .nil, _ => rfl
  | item :: items, other :: others, .cons hitem hitems, h => by
    have hrest := canonicalList_alike hitems fun item hitem => h item (List.mem_cons_of_mem _ hitem)
    rw [Node.canonicalList, Node.canonicalList, hrest, h item List.mem_cons_self hitem]

/-- Trees that are alike have one text, or none for one reason. -/
theorem canonicalChars_alike {P : Scalar → Prop} (x : Node) : x.Holds P → ∀ {y : Node},
    x.Alike y → x.canonicalChars = y.canonicalChars := by
  induction x using Node.nested with
  | scalar s =>
    intro _ y halike
    cases y with
    | scalar t => rw [show s = t from halike]
    | _ => exact halike.elim
  | list items ih =>
    intro hx y halike
    cases y with
    | list others =>
      have hlist := canonicalList_alike ((alikeItems_iff items others).mp halike)
        fun item hitem => ih item hitem ((itemsHold_iff items).mp hx item hitem)
      rw [Node.canonicalChars, Node.canonicalChars, hlist]
    | _ => exact halike.elim
  | map entries ih =>
    intro hx y halike
    cases y with
    | map others =>
      obtain ⟨hlength, hvalues⟩ := halike
      have hrows := sortEntries_rows (f := Node.canonicalChars) hx.1 hlength fun entry hentry => by
        obtain ⟨other, hother, hnodes⟩ := (alikeValues_iff others entries).mp hvalues entry hentry
        have hnode := (valuesHold_iff entries).mp hx.2 entry hentry
        exact ⟨other, hother, ih entry hentry hnode hnodes⟩
      rw [Node.canonicalChars, Node.canonicalChars, canonicalEntries_eq, canonicalEntries_eq, hrows]
    | _ => exact halike.elim
  | stray value => exact fun hx => hx.elim

end Trees

section TextRead

/-- Nothing, or what can stand behind a value. -/
def Delimited (rest : List Char) : Prop := ∀ c ∈ rest.head?, c ∈ [',', ']', '\x7d']

/-- Characters of numbers and words. -/
def IsToken (t : List Char) : Prop :=
  ∀ c ∈ t, c ∉ [',', ']', '\x7d', '[', '\x7b', '"']

/-- Two texts with something behind them are equal only where the texts are. -/
def ReadsOnce (t u : List Char) (Q : Prop) : Prop :=
  ∀ rest rest', Delimited rest → Delimited rest' → t ++ rest = u ++ rest' → Q ∧ rest = rest'

theorem delimited_cons {c : Char} (rest : List Char) (hc : c ∈ [',', ']', '\x7d']) :
    Delimited (c :: rest) := fun _ h => Option.some.inj h ▸ hc

theorem delimited_separated (ts : List (List Char)) {close : Char} (rest : List Char)
    (hclose : close ∈ [',', ']', '\x7d']) :
    Delimited (ts.flatMap ([','] ++ ·) ++ close :: rest) := by
  cases ts with
  | nil => exact delimited_cons rest hclose
  | cons t ts => exact delimited_cons _ (by decide)

theorem IsToken.unique {rest rest' : List Char} (hrest : Delimited rest)
    (hrest' : Delimited rest') : ∀ {t u : List Char}, IsToken t → IsToken u →
    t ++ rest = u ++ rest' → t = u ∧ rest = rest'
  | [], [], _, _, h => ⟨rfl, h⟩
  | [], c :: u, _, hu, h => by
    rw [List.nil_append, List.cons_append] at h
    exact absurd (List.mem_append_left _ (hrest c (by rw [h]; rfl))) (hu c List.mem_cons_self)
  | c :: t, [], ht, _, h => by
    rw [List.nil_append, List.cons_append] at h
    exact absurd (List.mem_append_left _ (hrest' c (by rw [← h]; rfl))) (ht c List.mem_cons_self)
  | c :: t, d :: u, ht, hu, h => by
    obtain ⟨rfl, htail⟩ := List.cons.inj h
    obtain ⟨rfl, hleft⟩ := IsToken.unique hrest hrest' (List.forall_mem_cons.mp ht).2
      (List.forall_mem_cons.mp hu).2 htail
    exact ⟨rfl, hleft⟩

/-- What begins like a number or a word does not begin like anything else. -/
theorem IsToken.append_ne {t rest more : List Char} (ht : IsToken t) (hrest : Delimited rest)
    {c : Char} (hc : c ∈ ['[', '\x7b', '"']) : t ++ rest ≠ c :: more := by
  intro h
  cases t with
  | nil =>
    have happart : ∀ d ∈ ['[', '\x7b', '"'], d ∉ [',', ']', '\x7d'] := by decide
    exact happart c hc (hrest c (by rw [← List.nil_append rest, h]; rfl))
  | cons d t =>
    obtain ⟨rfl, -⟩ := List.cons.inj h
    exact ht d List.mem_cons_self (List.mem_append_right [',', ']', '\x7d'] hc)

end TextRead

section Scalars

theorem isToken_word {v : Raw} {t : List Char} (h : Word v t) : IsToken t := by
  cases h <;> unfold IsToken <;> decide

theorem isToken_of_chars {t : List Char}
    (h : ∀ c ∈ t, c.isDigit = true ∨ c ∈ ['-', '+', '.', 'e', 'E']) : IsToken t := by
  intro c hc hmem
  have happart : ∀ d ∈ [',', ']', '\x7d', '[', '\x7b', '"'],
      ¬ (d.isDigit = true ∨ d ∈ ['-', '+', '.', 'e', 'E']) := by decide
  exact happart c hmem (h c hc)

/-- The text of a scalar is a JSON string, or it is read like a number or a word. -/
theorem quoted_or_isToken : ∀ {s : Scalar} {t : List Char}, s.canonical = .ok t →
    (∃ value, s = .text value ∧ t = Text.quoteAscii value.toList) ∨ IsToken t
  | .null, _, h => .inr (Except.ok.inj h ▸ isToken_word .null)
  | .bool true, _, h => .inr (Except.ok.inj h ▸ isToken_word .true)
  | .bool false, _, h => .inr (Except.ok.inj h ▸ isToken_word .false)
  | .int n, _, h => .inr ((canonical_int_ok h).2 ▸ isToken_of_chars fun c hc =>
      (intText_chars n c hc).imp_right fun heq => by rw [heq]; decide)
  | .float x, _, h => by
    rw [Scalar.canonical] at h
    split_ifs at h with hfinite
    exact .inr (Except.ok.inj h ▸ isToken_of_chars (numeral_chars (numeral_text hfinite)))
  | .text value, _, h => .inl ⟨value, rfl, (Except.ok.inj h).symm⟩
  | .foreign _, _, h => by cases h

theorem isValue_of_canonical : ∀ {s : Scalar} {t : List Char}, s.canonical = .ok t → s.IsValue
  | .int _, _, h => (canonical_int_ok h).1
  | .float x, _, h => by
    rw [Scalar.canonical] at h
    split_ifs at h with hfinite
    exact hfinite
  | .foreign _, _, h => by cases h
  | .null, _, _ => trivial
  | .bool _, _, _ => trivial
  | .text _, _, _ => trivial

/-- The decoder reads the text of a scalar to it. -/
theorem decode_scalar {s : Scalar} {t : List Char} (h : s.canonical = .ok t) :
    decode t = .ok s.toRaw := by
  have hvalue := isValue_of_canonical h
  obtain ⟨u, hu, hread⟩ := isReadIn_scalar hvalue (readsBack_of_isValue s hvalue)
  obtain rfl := Except.ok.inj (hu.symm.trans h)
  have hsorted : s.toRaw.sorted = s.toRaw := by
    cases s with
    | foreign value => exact hvalue.elim
    | _ => rfl
  rw [← hsorted]
  exact decode_written hread.written

theorem Scalar.canonical_injective {s s' : Scalar} {t : List Char} (h : s.canonical = .ok t)
    (h' : s'.canonical = .ok t) : s = s' := by
  have hraw := Except.ok.inj ((decode_scalar h).symm.trans (decode_scalar h'))
  cases s <;> cases s' <;> simp_all [Scalar.toRaw, Scalar.canonical]

theorem readsOnce_scalar {s s' : Scalar} {t u : List Char} (h : s.canonical = .ok t)
    (h' : s'.canonical = .ok u) : ReadsOnce t u (s = s') := by
  intro rest rest' hrest hrest' heq
  rcases quoted_or_isToken h with ⟨value, rfl, rfl⟩ | ht
  · rcases quoted_or_isToken h' with ⟨other, rfl, rfl⟩ | hu
    · obtain ⟨hvalue, hquoted⟩ := quoted_unique (quoted_ascii _) (quoted_ascii _) heq
      rw [hquoted] at heq
      exact ⟨congrArg _ (String.toList_inj.mp hvalue), List.append_cancel_left heq⟩
    · exact absurd heq.symm (hu.append_ne hrest' (by decide))
  · rcases quoted_or_isToken h' with ⟨other, rfl, rfl⟩ | hu
    · exact absurd heq (ht.append_ne hrest (by decide))
    · obtain ⟨rfl, hleft⟩ := IsToken.unique hrest hrest' ht hu heq
      exact ⟨Scalar.canonical_injective h h', hleft⟩

end Scalars

section Brackets

variable {α : Type} {text : α → List Char} {Q : α → α → Prop} {close : Char}

theorem readsOnce_separated (hclose : close ∈ [']', '\x7d']) {rest rest' : List Char} :
    ∀ {xs ys : List α}, (∀ x ∈ xs, ∀ y ∈ ys, ReadsOnce (text x) (text y) (Q x y)) →
    (xs.map text).flatMap ([','] ++ ·) ++ close :: rest
      = (ys.map text).flatMap ([','] ++ ·) ++ close :: rest' →
    List.Forall₂ Q xs ys ∧ rest = rest'
  | [], [], _, h => ⟨.nil, (List.cons.inj h).2⟩
  | [], y :: ys, _, h => by
    obtain ⟨rfl, -⟩ := List.cons.inj h
    exact absurd hclose (by decide)
  | x :: xs, [], _, h => by
    obtain ⟨rfl, -⟩ := List.cons.inj h
    exact absurd hclose (by decide)
  | x :: xs, y :: ys, hreads, h => by
    have hdelimiter : close ∈ [',', ']', '\x7d'] := List.mem_cons_of_mem _ hclose
    rw [List.map_cons, List.map_cons, List.flatMap_cons, List.flatMap_cons] at h
    simp only [List.append_assoc, List.cons_append, List.nil_append] at h
    obtain ⟨hhead, htail⟩ := hreads x List.mem_cons_self y List.mem_cons_self _ _
      (delimited_separated _ rest hdelimiter) (delimited_separated _ rest' hdelimiter)
      (List.cons.inj h).2
    obtain ⟨hrest, hleft⟩ := readsOnce_separated hclose (fun x hx y hy =>
      hreads x (List.mem_cons_of_mem _ hx) y (List.mem_cons_of_mem _ hy)) htail
    exact ⟨.cons hhead hrest, hleft⟩

/-- Texts in brackets are read one by one, if none of them begins with the closing bracket. -/
theorem readsOnce_bracketed (o : Char) (hclose : close ∈ [']', '\x7d']) {xs ys : List α}
    (hbegins : ∀ x, x ∈ xs ∨ x ∈ ys → ∃ c cs, text x = c :: cs ∧ c ≠ close)
    (hreads : ∀ x ∈ xs, ∀ y ∈ ys, ReadsOnce (text x) (text y) (Q x y)) :
    ReadsOnce (o :: sepBy [','] (xs.map text) ++ [close])
      (o :: sepBy [','] (ys.map text) ++ [close]) (List.Forall₂ Q xs ys) := by
  intro rest rest' _ _ h
  simp only [List.cons_append, List.append_assoc, List.nil_append, List.cons.injEq, true_and] at h
  cases xs with
  | nil =>
    cases ys with
    | nil => exact ⟨.nil, (List.cons.inj h).2⟩
    | cons y ys =>
      obtain ⟨c, cs, htext, hc⟩ := hbegins y (.inr List.mem_cons_self)
      rw [List.map_cons, sepBy_cons, htext] at h
      exact absurd (List.cons.inj h).1.symm hc
  | cons x xs =>
    cases ys with
    | nil =>
      obtain ⟨c, cs, htext, hc⟩ := hbegins x (.inl List.mem_cons_self)
      rw [List.map_cons, sepBy_cons, htext] at h
      exact absurd (List.cons.inj h).1 hc
    | cons y ys =>
      refine readsOnce_separated hclose hreads ?_
      rw [List.map_cons, List.map_cons, sepBy_cons, sepBy_cons] at h
      rw [List.map_cons, List.map_cons, List.flatMap_cons, List.flatMap_cons]
      simp only [List.append_assoc] at h ⊢
      rw [h]

end Brackets

/-- The text of a document begins like a value. -/
theorem spelled_begins {node : Node} (h : node.Holds Scalar.IsValue) :
    ∃ c cs, node.spelled = c :: cs ∧ c ≠ ']' := by
  have htext := canonicalChars_spelled node h
  cases node with
  | scalar s =>
    obtain ⟨c, cs, hs, -, hc, -⟩ := (yields_scalar (P := fun _ => True) htext).head
    exact ⟨c, cs, hs, hc⟩
  | list items => exact ⟨_, _, spelled_list h, by decide⟩
  | map entries => exact ⟨_, _, spelled_map h, by decide⟩
  | stray value => exact h.elim

/-- The row of an entry tells its key and its text. -/
theorem readsOnce_entryText {entry other : String × Node} {Q : Prop}
    (h : ReadsOnce entry.2.spelled other.2.spelled Q) :
    ReadsOnce (Node.entryText entry) (Node.entryText other) (entry.1 = other.1 ∧ Q) := by
  intro rest rest' hrest hrest' heq
  simp only [Node.entryText, memberText, List.append_assoc, List.cons_append] at heq
  obtain ⟨hkey, hquoted⟩ := quoted_unique (quoted_ascii _) (quoted_ascii _) heq
  rw [hquoted] at heq
  obtain ⟨hQ, hleft⟩ := h rest rest' hrest hrest'
    (List.cons.inj (List.append_cancel_left heq)).2
  exact ⟨⟨String.toList_inj.mp hkey, hQ⟩, hleft⟩

theorem alike_of_sorted {entries others : List (String × Node)}
    (hkeys : (others.map Prod.fst).Nodup)
    (h : List.Forall₂ (fun entry other => entry.1 = other.1 ∧ entry.2.Alike other.2)
      (sortEntries entries) (sortEntries others)) : (Node.map entries).Alike (.map others) := by
  refine ⟨?_, (alikeValues_iff others entries).mpr fun entry hentry => ?_⟩
  · rw [← (sortEntries_perm entries).length_eq, ← (sortEntries_perm others).length_eq, h.length_eq]
  · obtain ⟨other, hother, hkey, halike⟩ :=
      forall₂_mem_right h.flip (mem_sortEntries.mpr hentry)
    refine ⟨other.2, ?_, halike⟩
    rw [hkey]
    exact entryAt?_of_mem hkeys (mem_sortEntries.mp hother)

/-- The bracket that a node is written in. -/
def Node.opening? : Node → Option Char
  | .list _ => some '['
  | .map _ => some '\x7b'
  | _ => none

theorem head?_spelled {node : Node} (h : node.Holds Scalar.IsValue) {rest : List Char}
    (hrest : Delimited rest) :
    (node.spelled ++ rest).head?.filter isOpening = node.opening? := by
  cases node with
  | scalar s =>
    have htext : s.canonical = .ok _ := canonicalChars_spelled _ h
    refine Option.filter_eq_none_iff.mpr fun c hc hopening => ?_
    obtain ⟨more, hmore⟩ := List.head?_eq_some_iff.mp hc
    have hbracket : c = '\x7b' ∨ c = '[' := by simpa [isOpening] using hopening
    rcases quoted_or_isToken htext with ⟨value, -, hquoted⟩ | htoken
    · rw [hquoted] at hmore
      rw [← (List.cons.inj hmore).1] at hopening
      exact absurd hopening (by decide)
    · exact htoken.append_ne hrest (by rcases hbracket with rfl | rfl <;> decide) hmore
  | list items => rw [spelled_list h]; rfl
  | map entries => rw [spelled_map h]; rfl
  | stray value => exact h.elim

/-- The texts of two documents, with something behind them, are equal only where the documents are
alike. -/
theorem readsOnce_spelled (x : Node) : x.Holds Scalar.IsValue → ∀ {y : Node},
    y.Holds Scalar.IsValue → ReadsOnce x.spelled y.spelled (x.Alike y) := by
  have happart : ∀ {x y : Node}, x.Holds Scalar.IsValue → y.Holds Scalar.IsValue →
      x.opening? ≠ y.opening? → ReadsOnce x.spelled y.spelled (x.Alike y) := by
    intro x y hx hy hne rest rest' hrest hrest' heq
    rw [← head?_spelled hx hrest, ← head?_spelled hy hrest', heq] at hne
    exact absurd rfl hne
  induction x using Node.nested with
  | scalar s =>
    intro hx y hy
    cases y with
    | scalar s' =>
      exact readsOnce_scalar (canonicalChars_spelled _ hx) (canonicalChars_spelled _ hy)
    | stray value => exact hy.elim
    | _ => exact happart hx hy (by simp [Node.opening?])
  | list items ih =>
    intro hx y hy
    cases y with
    | list others =>
      have hitems := (itemsHold_iff items).mp hx
      have hothers := (itemsHold_iff others).mp hy
      rw [spelled_list hx, spelled_list hy, Node.Alike, alikeItems_iff]
      refine readsOnce_bracketed '[' (by decide) (fun node hnode => ?_)
        fun item hitem other hother => ih item hitem (hitems item hitem) (hothers other hother)
      exact spelled_begins (hnode.elim (hitems node) (hothers node))
    | _ => exact happart hx hy (by simp [Node.opening?])
  | map entries ih =>
    intro hx y hy
    cases y with
    | map others =>
      have hentries := (valuesHold_iff entries).mp hx.2
      have hothers := (valuesHold_iff others).mp hy.2
      rw [spelled_map hx, spelled_map hy]
      intro rest rest' hrest hrest' heq
      obtain ⟨hsorted, hleft⟩ := readsOnce_bracketed '\x7b' (by decide)
        (fun entry _ => ⟨_, _, rfl, by decide⟩)
        (fun entry hentry other hother => readsOnce_entryText
          (ih entry (mem_sortEntries.mp hentry) (hentries entry (mem_sortEntries.mp hentry))
            (hothers other (mem_sortEntries.mp hother)))) rest rest' hrest hrest' heq
      exact ⟨alike_of_sorted hy.1 hsorted, hleft⟩
    | _ => exact happart hx hy (by simp [Node.opening?])
  | stray value => exact fun hx => hx.elim

/-- The entries of `tagged` the other way round, in both maps. -/
def taggedReversed : Node := .map [
  ("sizes", .list [.scalar (.int 2), .scalar (.float two), .scalar (.bool true)]),
  ("tags", .map [("env", .scalar .null), ("owner", .scalar (.text "Zoë \"Ω\" 𝄞"))])]

example : tagged.Alike taggedReversed ∧ ¬ (Node.scalar (.int 2)).Alike (.scalar (.float two)) :=
  ⟨⟨rfl, ⟨_, rfl, rfl, ⟨_, rfl, rfl⟩, ⟨_, rfl, rfl⟩, trivial⟩,
    ⟨_, rfl, rfl, rfl, rfl, trivial⟩, trivial⟩, nofun⟩

end TerraIndex
