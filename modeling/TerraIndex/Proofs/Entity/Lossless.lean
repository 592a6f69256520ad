import TerraIndex.Proofs.Document.Decoded
import TerraIndex.Proofs.Entity.Rows
import TerraIndex.Proofs.Json.OneLine
/-!
# Rows that can be written and read

The decoder reads the text of a value back to that value where the value is a document and its
numbers are finite (`Raw.Lossless`). A row is such a value where the nodes that the entity is made
of are, and the numbers of its lines are not too long (`lossless_row`).
-/

namespace TerraIndex

open Json

/-- The value is read back from its text as it was. -/
structure Raw.Lossless (v : Raw) : Prop where
  document : v.IsDocument
  readBack : v.readBack = v

/-- The text of such a value in a row is read back to the value, up to the order of its entries. -/
theorem Raw.Lossless.decode_row {v : Raw} (h : v.Lossless) :
    ∃ w, decode (Style.row.encode v) = .ok w ∧ v.Same w := by
  refine ⟨v.sorted, ?_, same_sorted v h.document⟩
  have hread := Style.decode_encode Style.isJson_row h.document
  rwa [h.readBack] at hread

theorem lossless_list {items : List Raw} (h : ∀ item ∈ items, item.Lossless) :
    (Raw.list items).Lossless := by
  refine ⟨(itemsAreDocuments_iff items).mpr fun item hitem => (h item hitem).document, ?_⟩
  rw [Raw.readBack, readBackItems_eq]
  refine congrArg Raw.list ?_
  rw [List.map_congr_left fun item hitem => (h item hitem).readBack, List.map_id']

theorem lossless_entries (entries : List (String × Raw)) :
    entriesAreDocuments entries ∧ readBackEntries entries = entries
      ↔ ∀ entry ∈ entries, entry.2.Lossless := by
  induction entries with
  | nil => simp [entriesAreDocuments, readBackEntries]
  | cons entry entries ih =>
    rw [List.forall_mem_cons, ← ih]
    simp only [entriesAreDocuments, readBackEntries, List.cons.injEq]
    constructor
    · rintro ⟨⟨hdoc, hdocs⟩, hentry, hrest⟩
      exact ⟨⟨hdoc, congrArg Prod.snd hentry⟩, hdocs, hrest⟩
    · rintro ⟨⟨hdoc, hback⟩, hdocs, hrest⟩
      exact ⟨⟨hdoc, hdocs⟩, by rw [hback], hrest⟩

theorem lossless_map_iff {entries : List (String × Raw)} : (Raw.map entries).Lossless
    ↔ (entries.map Prod.fst).Nodup ∧ ∀ entry ∈ entries, entry.2.Lossless := by
  rw [← lossless_entries]
  constructor
  · rintro ⟨⟨hkeys, hdocs⟩, hback⟩
    exact ⟨hkeys, hdocs, Raw.map.inj hback⟩
  · rintro ⟨hkeys, hdocs, hback⟩
    exact ⟨⟨hkeys, hdocs⟩, congrArg Raw.map hback⟩

theorem lossless_merge {entries added : List (String × Raw)} (h : (Raw.map entries).Lossless)
    (hadded : ∀ entry ∈ added, entry.2.Lossless) :
    (Raw.map (mergeEntries entries added)).Lossless := by
  induction added generalizing entries with
  | nil => exact h
  | cons entry added ih =>
    obtain ⟨hentry, hrest⟩ := List.forall_mem_cons.mp hadded
    obtain ⟨hkeys, hentries⟩ := lossless_map_iff.mp h
    refine ih (lossless_map_iff.mpr ⟨insertEntry_nodup _ hkeys, fun other hother => ?_⟩) hrest
    rcases mem_insertEntry hother with hother | rfl
    · exact hentries other hother
    · exact hentry

section Values

theorem map_fst_toRawEntries : ∀ {body : Body} {raws : List (String × Raw)},
    Node.toRawEntries body = .ok raws → raws.map Prod.fst = body.map Prod.fst
  | [], _, h => by
    cases h
    rfl
  | (key, node) :: body, _, h => by
    obtain ⟨raw, -, h⟩ := bind_ok h
    obtain ⟨raws, hraws, h⟩ := bind_ok h
    cases h
    rw [List.map_cons, List.map_cons, map_fst_toRawEntries hraws]

theorem lossless_scalar {s : Scalar} (h : s.IsValue) : s.toRaw.Lossless := by
  cases s with
  | float x => exact ⟨trivial, readFloat_of_isFinite h⟩
  | int n => exact ⟨h, rfl⟩
  | foreign value => exact h.elim
  | _ => exact ⟨trivial, rfl⟩

mutual

theorem lossless_toRaw : ∀ {node : Node} {raw : Raw}, node.Holds Scalar.IsValue →
    node.toRaw = .ok raw → raw.Lossless
  | .scalar _, _, h, hraw => by
    cases hraw
    exact lossless_scalar h
  | .list items, _, h, hraw => by
    obtain ⟨raws, hraws, rfl⟩ := map_ok hraw
    exact lossless_list (lossless_toRawList items h hraws)
  | .map entries, _, h, hraw => by
    obtain ⟨raws, hraws, rfl⟩ := map_ok hraw
    exact lossless_map_iff.mpr
      ⟨map_fst_toRawEntries hraws ▸ h.1, lossless_toRawEntries entries h.2 hraws⟩
  | .stray _, _, h, _ => h.elim

theorem lossless_toRawList : ∀ (nodes : List Node) {raws : List Raw},
    itemsHold Scalar.IsValue nodes → Node.toRawList nodes = .ok raws → ∀ raw ∈ raws, raw.Lossless
  | [], _, _, hraws => by
    cases hraws
    exact nofun
  | node :: nodes, _, h, hraws => by
    obtain ⟨raw, hraw, hraws⟩ := bind_ok hraws
    obtain ⟨rest, hrest, hraws⟩ := bind_ok hraws
    cases hraws
    exact List.forall_mem_cons.mpr ⟨lossless_toRaw h.1 hraw, lossless_toRawList nodes h.2 hrest⟩

theorem lossless_toRawEntries : ∀ (body : Body) {raws : List (String × Raw)},
    valuesHold Scalar.IsValue body → Node.toRawEntries body = .ok raws →
    ∀ entry ∈ raws, entry.2.Lossless
  | [], _, _, hraws => by
    cases hraws
    exact nofun
  | (key, node) :: body, _, h, hraws => by
    obtain ⟨raw, hraw, hraws⟩ := bind_ok hraws
    obtain ⟨rest, hrest, hraws⟩ := bind_ok hraws
    cases hraws
    exact List.forall_mem_cons.mpr ⟨lossless_toRaw h.1 hraw, lossless_toRawEntries body h.2 hrest⟩

end

theorem lossless_asMap {node : Node} {values : RawMap} (h : node.Holds Scalar.IsValue)
    (hvalues : node.asMap = .ok values) : (Raw.map values).Lossless := by
  have hempty : (Raw.map []).Lossless := ⟨isDocument_empty, rfl⟩
  cases node with
  | map entries =>
    exact lossless_map_iff.mpr
      ⟨map_fst_toRawEntries hvalues ▸ h.1, lossless_toRawEntries entries h.2 hvalues⟩
  | list items =>
    refine foldlM_preserves (Q := fun values => (Raw.map values).Lossless) hempty
      (fun item hitem merged next hmerged hnext => ?_) hvalues
    obtain ⟨added, hadded, hnext⟩ := bind_ok hnext
    cases hnext
    have hitem := (itemsHold_iff items).mp h item hitem
    refine lossless_merge hmerged (lossless_toRawEntries (item.map?.getD []) ?_ hadded)
    cases item with
    | map entries => exact hitem.2
    | _ => trivial
  | scalar s =>
    cases hvalues
    exact hempty
  | stray value =>
    cases hvalues
    exact hempty

end Values

theorem isDocument_int_iff {n : Int} :
    (Raw.int n).IsDocument ↔ n.natAbs < 10 ^ maxIntegerDigits := by
  rw [Raw.IsDocument, Nat.toList_repr, Nat.length_toDigits_le_iff (by decide) (by decide)]

theorem lossless_int {n : Int} (h : n.natAbs < 10 ^ maxIntegerDigits) : (Raw.int n).Lossless :=
  ⟨isDocument_int_iff.mpr h, rfl⟩

/-- The whole numbers among the finite numbers lie far below the limit. -/
theorem natAbs_toInt?_lt {x : Binary64} {n : Int} (h : x.toInt? = some n) :
    n.natAbs < 10 ^ maxIntegerDigits := by
  obtain ⟨hfinite, hvalue⟩ := Binary64.value_of_toInt? h
  have hnonneg : 0 ≤ x.magnitude := by unfold Binary64.magnitude; positivity
  have habs : |x.value| = x.magnitude := by
    unfold Binary64.value
    split_ifs
    · rw [abs_neg, abs_of_nonneg hnonneg]
    · rw [abs_of_nonneg hnonneg]
  have hcast : ((n.natAbs : ℕ) : ℚ) < (10 : ℚ) ^ maxIntegerDigits := by
    calc ((n.natAbs : ℕ) : ℚ) = x.magnitude := by
          rw [Nat.cast_natAbs, Int.cast_abs, ← hvalue, habs]
      _ < 2 ^ (1024 : ℤ) := Binary64.magnitude_lt hfinite
      _ ≤ 10 ^ maxIntegerDigits := (zpow_ofNat 2 1024).trans_le (Binary64.two_le_ten (by decide))
  exact_mod_cast hcast

/-- A whole number is an integer that was read, or it lies in the range of finite numbers. -/
theorem lossless_wholeNumber {node : Node} {n : Int} (h : node.Holds Scalar.IsValue)
    (hn : node.wholeNumber? = some n) : (Raw.int n).Lossless := by
  cases node with
  | scalar s =>
    cases s with
    | int m =>
      cases hn
      exact ⟨h, rfl⟩
    | float x =>
      exact lossless_int (natAbs_toInt?_lt hn)
    | _ => cases hn
  | _ => cases hn

section Rows

/-- The fields of a row have different names, which the kind of the entity alone decides. -/
theorem nodup_row (entity : Entity) : (entity.row.map Prod.fst).Nodup := by
  cases entity with
  | resource r =>
    have hfields : (Entity.resource r).row.map Prod.fst
        = (Entity.resource default).row.map Prod.fst := rfl
    rw [hfields]
    decide
  | dataSource d =>
    have hfields : (Entity.dataSource d).row.map Prod.fst
        = (Entity.dataSource default).row.map Prod.fst := rfl
    rw [hfields]
    decide
  | module m =>
    have hfields : (Entity.module m).row.map Prod.fst
        = (Entity.module default).row.map Prod.fst := rfl
    rw [hfields]
    decide
  | output o =>
    have hfields : (Entity.output o).row.map Prod.fst
        = (Entity.output default).row.map Prod.fst := rfl
    rw [hfields]
    decide
  | «variable» v =>
    have hfields : (Entity.variable v).row.map Prod.fst
        = (Entity.variable default).row.map Prod.fst := rfl
    rw [hfields]
    decide
  | provider p =>
    have hfields : (Entity.provider p).row.map Prod.fst
        = (Entity.provider default).row.map Prod.fst := rfl
    rw [hfields]
    decide
  | localValue l =>
    have hfields : (Entity.localValue l).row.map Prod.fst
        = (Entity.localValue default).row.map Prod.fst := rfl
    rw [hfields]
    decide

/-- The numbers of the lines can be read. -/
structure Span.IsShort (span : Span) : Prop where
  startLine : span.startLine.natAbs < 10 ^ maxIntegerDigits
  endLine : span.endLine.natAbs < 10 ^ maxIntegerDigits

/-- What is made of values is listed in a row that is read back as it was. -/
theorem lossless_row {entity : Entity} {plain : Body} {nodes : List Node}
    (hmade : entity.MadeOf plain nodes) (hplain : (Node.map plain).Holds Scalar.IsValue)
    (hnodes : ∀ node ∈ nodes, node.Holds Scalar.IsValue) (hspan : entity.place.span.IsShort) :
    (Raw.map entity.row).Lossless := by
  refine lossless_map_iff.mpr ⟨nodup_row entity, fun ⟨field, value⟩ hmem => ?_⟩
  have hcell : Cell entity field value := entity.cells _ hmem
  clear hmem
  dsimp only
  cases hcell with
  | map hm =>
    rcases hmade.maps _ hm with hm | ⟨node, hnode, hm⟩
    · exact lossless_map_iff.mpr
        ⟨map_fst_toRawEntries hm ▸ hplain.1, lossless_toRawEntries plain hplain.2 hm⟩
    · exact lossless_asMap (hnodes node hnode) hm
  | count hn =>
    obtain ⟨node, hnode, hwhole⟩ := hmade.count _ hn
    exact lossless_wholeNumber (hnodes node hnode) hwhole
  | line hn =>
    rcases hn with rfl | rfl
    · exact lossless_int hspan.startLine
    · exact lossless_int hspan.endLine
  | index =>
    rcases hmade.index with hnull | ⟨node, hnode, hraw⟩
    · rw [hnull]
      exact ⟨trivial, rfl⟩
    · exact lossless_toRaw (hnodes node hnode) hraw
  | texts ts =>
    refine lossless_list (List.forall_mem_map.mpr fun t _ => ?_)
    exact ⟨trivial, rfl⟩
  | null => exact ⟨trivial, rfl⟩
  | flag => exact ⟨trivial, rfl⟩
  | text => exact ⟨trivial, rfl⟩
  | source => exact ⟨trivial, rfl⟩

end Rows

end TerraIndex
