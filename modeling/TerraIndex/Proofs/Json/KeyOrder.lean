import TerraIndex.Proofs.Document.CanonicalForm
import TerraIndex.Proofs.Json.Spaced
/-!
# The order of keys

Values that are the same up to the order of their keys (`Raw.Same`) are documents alike, and a style
that sorts keys writes one text for them (`encode_same`).
-/

namespace TerraIndex

open Json

theorem sameItems_iff : ∀ items others : List Raw,
    sameItems items others ↔ List.Forall₂ Raw.Same items others
  | [], [] => by simp [sameItems]
  | [], _ :: _ => by simp [sameItems]
  | _ :: _, [] => by simp [sameItems]
  | _ :: items, _ :: others => by simp [sameItems, sameItems_iff items others]

theorem sameValues_iff (others entries : List (String × Raw)) :
    sameValues entries others ↔
      ∀ entry ∈ entries, ∃ other, entryAt? others entry.1 = some other ∧ entry.2.Same other := by
  induction entries with
  | nil => simp [sameValues]
  | cons entry entries ih => simp [sameValues, ih]

theorem forall₂_imp_mem {α β : Type} {R S : α → β → Prop} {xs : List α} {ys : List β}
    (h : List.Forall₂ R xs ys) (himp : ∀ x ∈ xs, ∀ y ∈ ys, R x y → S x y) :
    List.Forall₂ S xs ys :=
  List.forall₂_iff_zip.mpr ⟨h.length_eq, fun hmem =>
    have ⟨hx, hy⟩ := List.of_mem_zip hmem
    himp _ hx _ hy (List.forall₂_zip h hmem)⟩

section Shapes

theorem same_leaf {v w : Raw} (hleaf : v.isNested = false) (h : v.Same w) : v = w := by
  cases v with
  | list | tuple | map => simp [Raw.isNested] at hleaf
  | _ => exact h

theorem same_list {items : List Raw} {w : Raw} (h : (Raw.list items).Same w) :
    ∃ others, w = .list others ∧ List.Forall₂ Raw.Same items others := by
  cases w with
  | list others => exact ⟨others, rfl, (sameItems_iff items others).mp h⟩
  | _ => cases h

theorem same_map {entries : List (String × Raw)} {w : Raw} (h : (Raw.map entries).Same w) :
    ∃ others, w = .map others ∧ entries.length = others.length
      ∧ ∀ entry ∈ entries, ∃ other, entryAt? others entry.1 = some other ∧ entry.2.Same other := by
  cases w with
  | map others => exact ⟨others, rfl, h.1, (sameValues_iff others entries).mp h.2⟩
  | _ => cases h

theorem same_of_forall {entries others : List (String × Raw)}
    (hlength : entries.length = others.length)
    (h : ∀ entry ∈ entries, ∃ other, entryAt? others entry.1 = some other ∧ entry.2.Same other) :
    (Raw.map entries).Same (.map others) := ⟨hlength, (sameValues_iff others entries).mpr h⟩

section Maps

variable {entries others : List (String × Raw)} (hkeys : (entries.map Prod.fst).Nodup)
  (h : (Raw.map entries).Same (.map others))
include hkeys h

theorem same_keys : (entries.map Prod.fst).Perm (others.map Prod.fst) := by
  obtain ⟨_, hothers, hlength, hentries⟩ := same_map h
  obtain rfl := Raw.map.inj hothers
  refine (List.subperm_of_subset hkeys fun key hkey => ?_).perm_of_length_le (by simp [hlength])
  obtain ⟨entry, hentry, rfl⟩ := List.mem_map.mp hkey
  obtain ⟨other, hother, -⟩ := hentries entry hentry
  exact List.mem_map.mpr ⟨_, mem_of_entryAt? hother, rfl⟩

theorem same_mem (hdistinct : (others.map Prod.fst).Nodup) {other : String × Raw}
    (hother : other ∈ others) : ∃ value, entryAt? entries other.1 = some value
      ∧ (other.1, value) ∈ entries ∧ value.Same other.2 := by
  have hkey := (same_keys hkeys h).mem_iff.mpr (List.mem_map_of_mem hother)
  obtain ⟨⟨key, value⟩, hentry, rfl⟩ := List.mem_map.mp hkey
  obtain ⟨_, hothers, -, hentries⟩ := same_map h
  obtain rfl := Raw.map.inj hothers
  obtain ⟨found, hfound, hsame⟩ := hentries _ hentry
  rw [entryAt?_of_mem hdistinct hother] at hfound
  obtain rfl := Option.some.inj hfound
  exact ⟨value, entryAt?_of_mem hkeys hentry, hentry, hsame⟩

end Maps

end Shapes

theorem same_refl {v : Raw} (hv : v.IsJson) : v.Same v := by
  induction v using Raw.nested with
  | leaf v hleaf =>
    cases v with
    | list | tuple | map => simp [Raw.isNested] at hleaf
    | _ => rfl
  | list items ih =>
    exact (sameItems_iff items items).mpr <| List.forall₂_same.mpr fun item hitem =>
      ih item hitem ((itemsAreJson_iff items).mp hv item hitem)
  | tuple => exact hv.elim
  | map entries ih =>
    exact same_of_forall rfl fun entry hentry => ⟨entry.2, entryAt?_of_mem hv.1 hentry,
      ih entry hentry ((entriesAreJson_iff entries).mp hv.2 entry hentry)⟩

theorem same_symm {v : Raw} (hv : v.IsJson) : ∀ {w : Raw}, w.IsJson → v.Same w → w.Same v := by
  induction v using Raw.nested with
  | leaf v hleaf =>
    intro w hw h
    obtain rfl := same_leaf hleaf h
    exact same_refl hw
  | list items ih =>
    intro w hw h
    obtain ⟨others, rfl, hitems⟩ := same_list h
    have hflip := forall₂_imp_mem hitems fun item hitem other hother =>
      ih item hitem ((itemsAreJson_iff items).mp hv item hitem)
        ((itemsAreJson_iff others).mp hw other hother)
    exact (sameItems_iff others items).mpr hflip.flip
  | tuple => exact hv.elim
  | map entries ih =>
    intro w hw h
    obtain ⟨others, rfl, hlength, -⟩ := same_map h
    refine same_of_forall hlength.symm fun other hother => ?_
    obtain ⟨value, hvalue, hentry, hsame⟩ := same_mem hv.1 h hw.1 hother
    exact ⟨value, hvalue, ih _ hentry ((entriesAreJson_iff entries).mp hv.2 _ hentry)
      ((entriesAreJson_iff others).mp hw.2 other hother) hsame⟩

section OtherTexts

theorem isDocument_same {v : Raw} (hv : v.IsDocument) :
    ∀ {w : Raw}, w.IsJson → v.Same w → w.IsDocument := by
  induction v using Raw.nested with
  | leaf v hleaf =>
    intro w _ h
    rwa [← same_leaf hleaf h]
  | list items ih =>
    intro w hw h
    obtain ⟨others, rfl, hitems⟩ := same_list h
    refine (itemsAreDocuments_iff others).mpr fun other hother => ?_
    obtain ⟨item, hitem, hsame⟩ := forall₂_mem_right hitems hother
    exact ih item hitem ((itemsAreDocuments_iff items).mp hv item hitem)
      ((itemsAreJson_iff others).mp hw other hother) hsame
  | tuple => exact hv.elim
  | map entries ih =>
    intro w hw h
    obtain ⟨others, rfl, -, -⟩ := same_map h
    refine ⟨hw.1, (entriesAreDocuments_iff others).mpr fun other hother => ?_⟩
    obtain ⟨value, -, hentry, hsame⟩ := same_mem hv.1 h hw.1 hother
    exact ih _ hentry ((entriesAreDocuments_iff entries).mp hv.2 _ hentry)
      ((entriesAreJson_iff others).mp hw.2 other hother) hsame

/-- A style that sorts keys writes one text for values that are the same. -/
theorem Json.Style.encode_same {style : Style} (hsort : style.sortKeys = true) {v : Raw}
    (hv : v.IsJson) : ∀ {w : Raw}, v.Same w → style.encode v = style.encode w := by
  induction v using Raw.nested with
  | leaf v hleaf =>
    intro w h
    rw [same_leaf hleaf h]
  | list items ih =>
    intro w h
    obtain ⟨others, rfl, hitems⟩ := same_list h
    have htexts : List.Forall₂ (fun item other => style.encode item = style.encode other)
        items others := forall₂_imp_mem hitems fun item hitem _ _ =>
      ih item hitem ((itemsAreJson_iff items).mp hv item hitem)
    have hmap : items.map style.encode = others.map style.encode := by
      rw [← List.forall₂_eq_eq_eq, List.forall₂_map_left_iff, List.forall₂_map_right_iff]
      exact htexts
    rw [encode, encode, encodeList_eq, encodeList_eq, hmap]
  | tuple => exact hv.elim
  | map entries ih =>
    intro w h
    obtain ⟨others, rfl, hlength, hentries⟩ := same_map h
    have hrows := sortEntries_rows (f := style.encode) hv.1 hlength fun entry hentry => by
      obtain ⟨other, hother, hsame⟩ := hentries entry hentry
      have hvalue := (entriesAreJson_iff entries).mp hv.2 entry hentry
      exact ⟨other, hother, ih entry hentry hvalue hsame⟩
    simp only [encode, objectText, hsort, encodeEntries_eq, if_true, hrows]

end OtherTexts

theorem same_item {before after : List Raw} {v w : Raw}
    (hjson : (Raw.list (before ++ v :: after)).IsJson) (h : v.Same w) :
    (Raw.list (before ++ v :: after)).Same (.list (before ++ w :: after)) := by
  have hitems := (itemsAreJson_iff _).mp hjson
  refine (sameItems_iff _ _).mpr (List.rel_append ?_ (.cons h ?_))
  · exact List.forall₂_same.mpr fun item hitem => same_refl (hitems item (by simp [hitem]))
  · exact List.forall₂_same.mpr fun item hitem => same_refl (hitems item (by simp [hitem]))

theorem same_entry {front back : List (String × Raw)} {key : String} {v w : Raw}
    (hjson : (Raw.map (front ++ (key, v) :: back)).IsJson) (h : v.Same w) :
    (Raw.map (front ++ (key, v) :: back)).Same (.map (front ++ (key, w) :: back)) := by
  have hentries := (entriesAreJson_iff _).mp hjson.2
  have hkeys : ((front ++ (key, w) :: back).map Prod.fst).Nodup := by
    have hdistinct := hjson.1
    rwa [List.map_append, List.map_cons] at hdistinct ⊢
  refine same_of_forall (by simp) fun entry hentry => ?_
  rcases List.mem_append.mp hentry with hfront | hmem
  · exact ⟨entry.2, entryAt?_of_mem hkeys (by simp [hfront]), same_refl (hentries entry hentry)⟩
  · rcases List.mem_cons.mp hmem with rfl | hback
    · exact ⟨w, entryAt?_of_mem hkeys (by simp), h⟩
    · exact ⟨entry.2, entryAt?_of_mem hkeys (by simp [hback]), same_refl (hentries entry hentry)⟩

end TerraIndex
