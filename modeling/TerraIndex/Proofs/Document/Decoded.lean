import TerraIndex.Document.Conversion
import TerraIndex.Proofs.Document.Canonical
import TerraIndex.Proofs.Hcl.Tree
/-!
# Decoded values are documents

Whatever the JSON decoder reads is a document: the keys of a map are distinct, as a repeated key
takes the place of the earlier one, and no integer has more digits than are read
(`isDocument_decode`). What such a value becomes as a node holds nothing but values (`ofRaw_holds`).
-/

namespace TerraIndex

open Json

theorem digitsValue_foldl_lt : ∀ (cs : List Char) (n : Nat), (∀ c ∈ cs, c.isDigit = true) →
    cs.foldl (fun n d => n * 10 + (d.toNat - 0x30)) n < (n + 1) * 10 ^ cs.length
  | [], n, _ => by simp
  | c :: cs, n, h => by
    obtain ⟨hc, hcs⟩ := List.forall_mem_cons.mp h
    have hdigit : c.toNat - 0x30 < 10 := by
      simp only [Char.isDigit, Bool.and_eq_true, decide_eq_true_eq] at hc
      have h57 : c.toNat ≤ 57 := hc.2
      omega
    calc cs.foldl (fun n d => n * 10 + (d.toNat - 0x30)) (n * 10 + (c.toNat - 0x30))
        < (n * 10 + (c.toNat - 0x30) + 1) * 10 ^ cs.length := digitsValue_foldl_lt cs _ hcs
      _ ≤ (n + 1) * 10 * 10 ^ cs.length := Nat.mul_le_mul_right _ (by omega)
      _ = (n + 1) * 10 ^ (c :: cs).length := by rw [List.length_cons, Nat.pow_succ, Nat.mul_assoc,
          Nat.mul_comm 10]

theorem digitsValue_lt {cs : List Char} (h : ∀ c ∈ cs, c.isDigit = true) :
    digitsValue cs < 10 ^ cs.length := by
  simpa [digitsValue] using digitsValue_foldl_lt cs 0 h

/-- A number below the power of ten has no more digits than are read. -/
theorem length_repr_le {n : Nat} (h : n < 10 ^ maxIntegerDigits) :
    n.repr.toList.length ≤ maxIntegerDigits := by
  rw [Nat.toList_repr, Nat.length_toDigits_le_iff (by decide) (by decide)]
  exact h

theorem length_digitsValue_le {cs : List Char} (hdigits : ∀ c ∈ cs, c.isDigit = true)
    (hlength : cs.length ≤ maxIntegerDigits) :
    (digitsValue cs).repr.toList.length ≤ maxIntegerDigits :=
  length_repr_le (Nat.lt_of_lt_of_le (digitsValue_lt hdigits)
    (Nat.pow_le_pow_right (by decide) hlength))

section Documents

theorem isDocument_empty : (Raw.map []).IsDocument := ⟨.nil, trivial⟩

theorem isDocument_insert {entries : List (String × Raw)} {key : String} {value : Raw}
    (h : (Raw.map entries).IsDocument) (hvalue : value.IsDocument) :
    (Raw.map (insertEntry entries key value)).IsDocument := by
  refine ⟨insertEntry_nodup value h.1, (entriesAreDocuments_iff _).mpr fun entry hentry => ?_⟩
  rcases mem_insertEntry hentry with hentry | rfl
  · exact (entriesAreDocuments_iff _).mp h.2 entry hentry
  · exact hvalue

theorem isDocument_merge {added : List (String × Raw)} : ∀ {entries : List (String × Raw)},
    (Raw.map entries).IsDocument → (∀ entry ∈ added, entry.2.IsDocument) →
    (Raw.map (mergeEntries entries added)).IsDocument := by
  induction added with
  | nil => exact fun h _ => h
  | cons entry added ih =>
    intro entries h hadded
    obtain ⟨hentry, hrest⟩ := List.forall_mem_cons.mp hadded
    exact ih (isDocument_insert h hentry) hrest

theorem isDocument_scanUnsigned {start cs rest : List Char} {negative : Bool} {v : Raw}
    (h : scanUnsigned start negative cs = .ok (v, rest)) : v.IsDocument := by
  unfold scanUnsigned at h
  split at h
  · cases h
  · rename_i whole left hwhole
    have hdigits : ∀ c ∈ whole, c.isDigit = true := by
      unfold scanInteger? at hwhole
      split at hwhole
      · obtain ⟨rfl, -⟩ := Prod.mk.inj (Option.some.inj hwhole)
        decide
      · simp only [spanDigits] at hwhole
        obtain ⟨rfl, -⟩ := Prod.mk.inj (Option.some.inj (Option.ite_none_left_eq_some.mp hwhole).2)
        exact fun c hc => List.mem_takeWhile_imp hc
    simp only at h
    split at h
    · split at h
      · cases h
      · rename_i hlong
        have hlength := length_digitsValue_le hdigits (Nat.not_lt.mp hlong)
        obtain ⟨rfl, -⟩ := Prod.mk.inj (Except.ok.inj h)
        cases negative <;> simpa [Raw.IsDocument] using hlength
    · obtain ⟨rfl, -⟩ := Prod.mk.inj (Except.ok.inj h)
      trivial

theorem isDocument_scanNumber {cs rest : List Char} {v : Raw}
    (h : scanNumber cs = .ok (v, rest)) : v.IsDocument := by
  unfold scanNumber at h
  split at h <;> exact isDocument_scanUnsigned h

theorem isDocument_scanWord? {cs rest : List Char} {v : Raw}
    (h : scanWord? cs = some (v, rest)) : v.IsDocument := by
  obtain ⟨⟨word, value⟩, hmem, h⟩ := List.exists_of_findSome?_eq_some h
  simp only at h
  split_ifs at h
  obtain ⟨rfl, -⟩ := Prod.mk.inj (Option.some.inj h)
  simp only [List.mem_cons, List.not_mem_nil, or_false, Prod.mk.injEq] at hmem
  rcases hmem with ⟨-, rfl⟩ | ⟨-, rfl⟩ | ⟨-, rfl⟩ | ⟨-, rfl⟩ | ⟨-, rfl⟩ | ⟨-, rfl⟩ <;> trivial

mutual

theorem isDocument_scanValue : ∀ (fuel : Nat) {cs rest : List Char} {v : Raw},
    scanValue fuel cs = .ok (v, rest) → v.IsDocument
  | 0, _, _, _, h => by cases h
  | fuel + 1, cs, rest, v, h => by
    unfold scanValue at h
    split at h
    · obtain ⟨⟨s, left⟩, -, h⟩ := bind_ok h
      cases h
      trivial
    · split at h
      · cases h
        trivial
      · obtain ⟨⟨items, left⟩, hitems, h⟩ := bind_ok h
        cases h
        exact (itemsAreDocuments_iff _).mpr (isDocument_scanItems fuel hitems)
    · split at h
      · cases h
        exact ⟨.nil, trivial⟩
      · obtain ⟨⟨entries, left⟩, hentries, h⟩ := bind_ok h
        cases h
        exact isDocument_scanMembers fuel isDocument_empty hentries
    · split at h
      · rename_i found hfound
        rw [Except.ok.inj h] at hfound
        exact isDocument_scanWord? hfound
      · exact isDocument_scanNumber h

theorem isDocument_scanItems : ∀ (fuel : Nat) {cs rest : List Char} {items : List Raw},
    scanItems fuel cs = .ok (items, rest) → ∀ item ∈ items, item.IsDocument
  | 0, _, _, _, h => by cases h
  | fuel + 1, cs, rest, items, h => by
    rw [scanItems] at h
    obtain ⟨⟨item, left⟩, hitem, h⟩ := bind_ok h
    have hfirst := isDocument_scanValue fuel hitem
    simp only at h
    split at h
    · cases h
      exact List.forall_mem_singleton.mpr hfirst
    · obtain ⟨⟨more, left'⟩, hmore, h⟩ := bind_ok h
      cases h
      exact List.forall_mem_cons.mpr ⟨hfirst, isDocument_scanItems fuel hmore⟩
    · cases h

theorem isDocument_scanMembers : ∀ (fuel : Nat) {cs rest : List Char}
    {entries found : List (String × Raw)}, (Raw.map entries).IsDocument →
    scanMembers fuel entries cs = .ok (found, rest) → (Raw.map found).IsDocument
  | 0, _, _, _, _, _, h => by cases h
  | fuel + 1, cs, rest, entries, found, hentries, h => by
    unfold scanMembers at h
    split at h
    · obtain ⟨⟨key, left⟩, -, h⟩ := bind_ok h
      simp only at h
      split at h
      · obtain ⟨⟨value, left'⟩, hvalue, h⟩ := bind_ok h
        have hnext : (Raw.map (insertEntry entries (String.ofList key) value)).IsDocument :=
          isDocument_insert hentries (isDocument_scanValue fuel hvalue)
        simp only at h
        split at h
        · cases h
          exact hnext
        · exact isDocument_scanMembers fuel hnext h
        · cases h
      · cases h
    · cases h

end

/-- What is decoded is read from the beginning of the text. -/
theorem decodeFirst_of_decode {t : List Char} {v : Raw} (h : decode t = .ok v) :
    ∃ left, decodeFirst (skipBlanks t) = .ok (v, left) := by
  have hwhole : decodeWhole t = .ok v := by
    unfold decode at h
    cases hwhole : decodeWhole t with
    | error halt =>
      rw [hwhole] at h
      cases h
    | ok value =>
      rw [hwhole] at h
      exact congrArg _ (Except.ok.inj h)
  unfold decodeWhole at hwhole
  split at hwhole
  · cases hwhole
  · obtain ⟨⟨value, left⟩, hvalue, hwhole⟩ := bind_ok hwhole
    simp only [] at hwhole
    split at hwhole
    · rw [← Except.ok.inj hwhole]
      exact ⟨left, hvalue⟩
    · cases hwhole

/-- Whatever is decoded is a document. -/
theorem isDocument_decode {text : List Char} {v : Raw} (h : decode text = .ok v) :
    v.IsDocument := by
  obtain ⟨left, hleft⟩ := decodeFirst_of_decode h
  exact isDocument_scanValue _ hleft

end Documents

section Nodes

mutual

/-- A document becomes a node that holds nothing but values. -/
theorem ofRaw_holds : ∀ {v : Raw} {node : Node}, v.IsDocument → Node.ofRaw v = .ok node →
    node.Holds Scalar.IsValue
  | .null, _, _, h => by
    cases h
    trivial
  | .bool _, _, _, h => by
    cases h
    trivial
  | .int _, _, hdoc, h => by
    cases h
    exact hdoc
  | .float x, _, _, h => by
    rw [Node.ofRaw] at h
    split_ifs at h with hfinite
    cases h
    exact hfinite
  | .text _, _, _, h => by
    cases h
    trivial
  | .list items, _, hdoc, h => by
    obtain ⟨nodes, hnodes, rfl⟩ := map_ok h
    exact ofRawList_holds items hdoc hnodes
  | .tuple _, _, hdoc, _ => hdoc.elim
  | .map entries, _, hdoc, h => by
    obtain ⟨nodes, hnodes, rfl⟩ := map_ok h
    exact ⟨map_fst_ofRawEntries hnodes ▸ hdoc.1, ofRawEntries_holds entries hdoc.2 hnodes⟩
  | .other _, _, hdoc, _ => hdoc.elim

theorem ofRawList_holds : ∀ (raws : List Raw) {nodes : List Node}, itemsAreDocuments raws →
    Node.ofRawList raws = .ok nodes → itemsHold Scalar.IsValue nodes
  | [], _, _, h => by
    cases h
    trivial
  | raw :: raws, _, hdoc, h => by
    obtain ⟨node, hnode, h⟩ := bind_ok h
    obtain ⟨nodes, hnodes, h⟩ := bind_ok h
    cases h
    exact ⟨ofRaw_holds hdoc.1 hnode, ofRawList_holds raws hdoc.2 hnodes⟩

theorem ofRawEntries_holds : ∀ (raws : List (String × Raw)) {nodes : Body},
    entriesAreDocuments raws → Node.ofRawEntries raws = .ok nodes →
    valuesHold Scalar.IsValue nodes
  | [], _, _, h => by
    cases h
    trivial
  | (key, raw) :: raws, _, hdoc, h => by
    obtain ⟨node, hnode, h⟩ := bind_ok h
    obtain ⟨nodes, hnodes, h⟩ := bind_ok h
    cases h
    exact ⟨ofRaw_holds hdoc.1 hnode, ofRawEntries_holds raws hdoc.2 hnodes⟩

end

end Nodes

end TerraIndex
