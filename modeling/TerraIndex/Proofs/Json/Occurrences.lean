import TerraIndex.Proofs.Json.Layout
import Mathlib.Data.List.Nodup
import Mathlib.Data.List.Pairwise
/-!
# The parts of a value in order

The parts that `occurrences` lists stand one below the other and between the first and last line of
the value they are in (`occurrences_sorted`, `occurrences_between`), and so do the elements in them
(`elementsUnder_sorted`). Where one key of a map is the only place of its name, its value is the
only occurrence (`occurrences_only`).
-/

namespace TerraIndex

theorem Raw.height_pos (v : Raw) : 0 < v.height := by
  have hbox : ∀ (isEmpty : Bool) (inner : Nat), 0 < boxHeight isEmpty inner := by
    intro isEmpty inner
    unfold boxHeight
    split_ifs <;> omega
  cases v with
  | list => exact hbox _ _
  | tuple => exact hbox _ _
  | map => exact hbox _ _
  | _ => exact Nat.one_pos

section Values

theorem map_value_placedItems (n : Nat) (items : List Raw) :
    (placedItems n items).map Placed.value = items := by
  induction items generalizing n with
  | nil => rfl
  | cons item items ih => rw [placedItems, List.map_cons, ih]

theorem map_value_placedEntries (n : Nat) (entries : List (String × Raw)) :
    (placedEntries n entries).map (Prod.map id Placed.value) = entries := by
  induction entries generalizing n with
  | nil => rfl
  | cons entry entries ih => rw [placedEntries, List.map_cons, ih]; rfl

theorem mem_of_placedEntries {n : Nat} {entries : List (String × Raw)} {key : String} {p : Placed}
    (h : (key, p) ∈ placedEntries n entries) : (key, p.value) ∈ entries := by
  have hmem := List.mem_map_of_mem (f := Prod.map id Placed.value) h
  rwa [map_value_placedEntries] at hmem

/-- The part under a key of a map. -/
def Placed.child? (p : Placed) (key : String) : Option Placed :=
  match p.value with
  | .map entries => entryAt? (placedEntries (p.above + 1) entries) key
  | _ => none

theorem entryAt?_placedEntries (n : Nat) (entries : List (String × Raw)) (key : String) :
    (entryAt? (placedEntries n entries) key).map Placed.value = entryAt? entries key := by
  induction entries generalizing n with
  | nil => rfl
  | cons entry entries ih =>
    obtain ⟨k, v⟩ := entry
    rw [placedEntries, entryAt?, entryAt?]
    split_ifs
    · rfl
    · exact ih _

theorem mem_of_entryAt? {α : Type} {entries : List (String × α)} {key : String} {value : α}
    (h : entryAt? entries key = some value) : (key, value) ∈ entries := by
  induction entries with
  | nil => simp [entryAt?] at h
  | cons entry entries ih =>
    obtain ⟨k, v⟩ := entry
    rw [entryAt?] at h
    split_ifs at h with hk
    · rw [← hk, ← Option.some.inj h]
      exact List.mem_cons_self ..
    · exact List.mem_cons_of_mem _ (ih h)

theorem mem_contents_of_child? {p q : Placed} {key : String} (h : p.child? key = some q) :
    q ∈ p.contents := by
  obtain ⟨n, v⟩ := p
  cases v with
  | map entries => exact List.mem_map.mpr ⟨_, mem_of_entryAt? h, rfl⟩
  | _ => simp [Placed.child?] at h

theorem child?_value {n : Nat} {entries : List (String × Raw)} {key : String} {q : Placed}
    (h : (⟨n, .map entries⟩ : Placed).child? key = some q) :
    entryAt? entries key = some q.value := by
  have hplaced : entryAt? (placedEntries (n + 1) entries) key = some q := h
  rw [← entryAt?_placedEntries (n + 1), hplaced, Option.map_some]

theorem map_value_contents {p : Placed} {items : List Raw} (h : p.value = .list items) :
    p.contents.map Placed.value = items := by
  rw [Placed.contents, h]
  exact map_value_placedItems _ items

end Values

section Order

/-- The first part ends above the second. -/
def Placed.Below (p q : Placed) : Prop := p.above + p.value.height ≤ q.above

theorem eq_of_above_eq {parts : List Placed} (h : parts.Pairwise Placed.Below) {p q : Placed}
    (hp : p ∈ parts) (hq : q ∈ parts) (habove : p.above = q.above) : p = q := by
  have hdistinct : (parts.map Placed.above).Nodup := by
    refine List.pairwise_map.mpr (h.imp fun {a b} hab => ?_)
    have hpos := a.value.height_pos
    unfold Placed.Below at hab
    omega
  exact List.inj_on_of_nodup_map hdistinct hp hq habove

theorem Placed.above_of_span {p q : Placed} {text : List Char} (h : p.span text = q.span text) :
    p.above = q.above := by
  have hstart : (p.span text).startLine = (q.span text).startLine := congrArg _ h
  simp only [Placed.span, Span.ofLines] at hstart
  omega

theorem Placed.found_span (p : Placed) (text : List Char) : (p.span text).found = true := by
  rw [Span.found, Placed.span, Span.ofLines, decide_eq_true_eq]
  simp only
  omega

/-- What stands between the lines of brackets stands between their first and last line. -/
theorem between_box {n inner : Nat} {isEmpty : Bool} {q : Placed}
    (hempty : isEmpty = true → inner = 0)
    (h : n + 1 ≤ q.above ∧ q.above + q.value.height ≤ n + 1 + inner) :
    n < q.above ∧ q.above + q.value.height < n + boxHeight isEmpty inner := by
  have hpos := q.value.height_pos
  unfold boxHeight
  cases isEmpty with
  | true =>
    have := hempty rfl
    omega
  | false =>
    rw [if_neg Bool.false_ne_true]
    omega

theorem heightItems_nil {items : List Raw} (h : items.isEmpty = true) : heightItems items = 0 := by
  rw [List.isEmpty_iff.mp h]
  rfl

theorem heightEntries_nil {entries : List (String × Raw)} (h : entries.isEmpty = true) :
    heightEntries entries = 0 := by
  rw [List.isEmpty_iff.mp h]
  rfl

theorem placedItems_between : ∀ (items : List Raw) (n : Nat) {q : Placed}, q ∈ placedItems n items →
    n ≤ q.above ∧ q.above + q.value.height ≤ n + heightItems items
  | [], _, _, h => by simp [placedItems] at h
  | item :: items, n, q, h => by
    rw [heightItems]
    rcases List.mem_cons.mp h with rfl | h
    · exact ⟨Nat.le_refl _, by simp only; omega⟩
    · have := placedItems_between items _ h
      omega

theorem placedItems_sorted (items : List Raw) (n : Nat) :
    (placedItems n items).Pairwise Placed.Below := by
  induction items generalizing n with
  | nil => exact .nil
  | cons item items ih => exact .cons (fun _ hq => (placedItems_between items _ hq).1) (ih _)

theorem placedEntries_between : ∀ (entries : List (String × Raw)) (n : Nat) {q : Placed},
    q ∈ (placedEntries n entries).map Prod.snd →
    n ≤ q.above ∧ q.above + q.value.height ≤ n + heightEntries entries
  | [], _, _, h => by simp [placedEntries] at h
  | (_, value) :: entries, n, q, h => by
    rw [heightEntries]
    rcases List.mem_cons.mp h with rfl | h
    · exact ⟨Nat.le_refl _, by simp only; omega⟩
    · have := placedEntries_between entries _ h
      omega

theorem placedEntries_sorted (entries : List (String × Raw)) (n : Nat) :
    ((placedEntries n entries).map Prod.snd).Pairwise Placed.Below := by
  induction entries generalizing n with
  | nil => exact .nil
  | cons entry entries ih =>
    exact .cons (fun _ hq => (placedEntries_between entries _ hq).1) (ih _)

/-- A part of a map stands under one key. -/
theorem placedEntries_key {n : Nat} {entries : List (String × Raw)} {key other : String}
    {p : Placed}
    (h : (key, p) ∈ placedEntries n entries) (hother : (other, p) ∈ placedEntries n entries) :
    key = other := by
  have hdistinct : ((placedEntries n entries).map Prod.snd).Nodup := by
    refine (placedEntries_sorted entries n).imp fun {a b} hab heq => ?_
    have hpos := a.value.height_pos
    rw [Placed.Below, heq] at hab
    rw [heq] at hpos
    omega
  exact congrArg Prod.fst (List.inj_on_of_nodup_map hdistinct h hother rfl)

theorem contents_between {p q : Placed} (h : q ∈ p.contents) :
    p.above < q.above ∧ q.above + q.value.height < p.above + p.value.height := by
  obtain ⟨n, v⟩ := p
  cases v with
  | list items => exact between_box heightItems_nil (placedItems_between items _ h)
  | tuple items => exact between_box heightItems_nil (placedItems_between items _ h)
  | map entries => exact between_box heightEntries_nil (placedEntries_between entries _ h)
  | _ => simp [Placed.contents] at h

theorem contents_sorted (p : Placed) : p.contents.Pairwise Placed.Below := by
  obtain ⟨n, v⟩ := p
  cases v with
  | list items => exact placedItems_sorted items _
  | tuple items => exact placedItems_sorted items _
  | map entries => exact placedEntries_sorted entries _
  | _ => exact .nil

section Occurrences

variable (q : String → Bool)

mutual

theorem occurrences_between : ∀ (v : Raw) (n : Nat) {p : Placed}, p ∈ occurrences q n v →
    n < p.above ∧ p.above + p.value.height < n + v.height
  | .list items, n, _, h => between_box heightItems_nil (occurrencesItems_between items (n + 1) h)
  | .tuple items, n, _, h => between_box heightItems_nil (occurrencesItems_between items (n + 1) h)
  | .map entries, n, _, h =>
    between_box heightEntries_nil (occurrencesEntries_between entries (n + 1) h)
  | .null, _, _, h => absurd h List.not_mem_nil
  | .bool _, _, _, h => absurd h List.not_mem_nil
  | .int _, _, _, h => absurd h List.not_mem_nil
  | .float _, _, _, h => absurd h List.not_mem_nil
  | .text _, _, _, h => absurd h List.not_mem_nil
  | .other _, _, _, h => absurd h List.not_mem_nil

theorem occurrencesItems_between : ∀ (items : List Raw) (n : Nat) {p : Placed},
    p ∈ occurrencesItems q n items → n ≤ p.above ∧ p.above + p.value.height ≤ n + heightItems items
  | [], _, _, h => absurd h List.not_mem_nil
  | item :: items, n, p, h => by
    rw [heightItems]
    rcases List.mem_append.mp h with h | h
    · have := occurrences_between item n h
      omega
    · have := occurrencesItems_between items _ h
      omega

theorem occurrencesEntries_between : ∀ (entries : List (String × Raw)) (n : Nat) {p : Placed},
    p ∈ occurrencesEntries q n entries →
    n ≤ p.above ∧ p.above + p.value.height ≤ n + heightEntries entries
  | [], _, _, h => absurd h List.not_mem_nil
  | (key, value) :: entries, n, p, h => by
    rw [heightEntries]
    rcases List.mem_append.mp h with h | h
    · split_ifs at h
      · rw [List.mem_singleton.mp h]
        exact ⟨Nat.le_refl _, by simp only; omega⟩
      · have := occurrences_between value n h
        omega
    · have := occurrencesEntries_between entries _ h
      omega

end

mutual

theorem occurrences_within : ∀ (v : Raw) (n : Nat) {p : Placed}, p ∈ occurrences q n v →
    Placed.Within ⟨n, v⟩ p
  | .list items, n, p, h => by
    obtain ⟨r, hr, hp⟩ := occurrencesItems_within items (n + 1) h
    exact (Placed.Within.inside .self hr).trans hp
  | .tuple items, n, p, h => by
    obtain ⟨r, hr, hp⟩ := occurrencesItems_within items (n + 1) h
    exact (Placed.Within.inside .self hr).trans hp
  | .map entries, n, p, h => by
    obtain ⟨r, hr, hp⟩ := occurrencesEntries_within entries (n + 1) h
    exact (Placed.Within.inside .self hr).trans hp
  | .null, _, _, h => absurd h List.not_mem_nil
  | .bool _, _, _, h => absurd h List.not_mem_nil
  | .int _, _, _, h => absurd h List.not_mem_nil
  | .float _, _, _, h => absurd h List.not_mem_nil
  | .text _, _, _, h => absurd h List.not_mem_nil
  | .other _, _, _, h => absurd h List.not_mem_nil

theorem occurrencesItems_within : ∀ (items : List Raw) (n : Nat) {p : Placed},
    p ∈ occurrencesItems q n items → ∃ r ∈ placedItems n items, r.Within p
  | [], _, _, h => absurd h List.not_mem_nil
  | item :: items, n, p, h => by
    rcases List.mem_append.mp h with h | h
    · exact ⟨_, List.mem_cons_self .., occurrences_within item n h⟩
    · obtain ⟨r, hr, hp⟩ := occurrencesItems_within items _ h
      exact ⟨r, List.mem_cons_of_mem _ hr, hp⟩

theorem occurrencesEntries_within : ∀ (entries : List (String × Raw)) (n : Nat) {p : Placed},
    p ∈ occurrencesEntries q n entries → ∃ r ∈ (placedEntries n entries).map Prod.snd, r.Within p
  | [], _, _, h => absurd h List.not_mem_nil
  | (key, value) :: entries, n, p, h => by
    rcases List.mem_append.mp h with h | h
    · split_ifs at h
      · rw [List.mem_singleton.mp h]
        exact ⟨_, List.mem_cons_self .., .self⟩
      · exact ⟨_, List.mem_cons_self .., occurrences_within value n h⟩
    · obtain ⟨r, hr, hp⟩ := occurrencesEntries_within entries _ h
      exact ⟨r, List.mem_cons_of_mem _ hr, hp⟩

end

mutual

theorem occurrences_sorted : ∀ (v : Raw) (n : Nat), (occurrences q n v).Pairwise Placed.Below
  | .list items, n => occurrencesItems_sorted items (n + 1)
  | .tuple items, n => occurrencesItems_sorted items (n + 1)
  | .map entries, n => occurrencesEntries_sorted entries (n + 1)
  | .null, _ => .nil
  | .bool _, _ => .nil
  | .int _, _ => .nil
  | .float _, _ => .nil
  | .text _, _ => .nil
  | .other _, _ => .nil

theorem occurrencesItems_sorted : ∀ (items : List Raw) (n : Nat),
    (occurrencesItems q n items).Pairwise Placed.Below
  | [], _ => .nil
  | item :: items, n => by
    refine List.pairwise_append.mpr ⟨occurrences_sorted item n, occurrencesItems_sorted items _,
      fun a ha b hb => ?_⟩
    have hend := (occurrences_between q item n ha).2
    have hstart := (occurrencesItems_between q items _ hb).1
    exact Nat.le_trans (Nat.le_of_lt hend) hstart

theorem occurrencesEntries_sorted : ∀ (entries : List (String × Raw)) (n : Nat),
    (occurrencesEntries q n entries).Pairwise Placed.Below
  | [], _ => .nil
  | (key, value) :: entries, n => by
    refine List.pairwise_append.mpr ⟨?_, occurrencesEntries_sorted entries _, fun a ha b hb => ?_⟩
    · split_ifs
      · exact List.pairwise_singleton _ _
      · exact occurrences_sorted value n
    · have hstart := (occurrencesEntries_between q entries _ hb).1
      split_ifs at ha
      · rwa [List.mem_singleton.mp ha]
      · have hend := (occurrences_between q value n ha).2
        exact Nat.le_trans (Nat.le_of_lt hend) hstart

end

/-- The values directly in the lists and maps under the keys that `q` accepts. -/
def elementsUnder (v : Raw) : List Placed := (occurrences q 0 v).flatMap Placed.contents

theorem elementsUnder_within {v : Raw} {p : Placed} (h : p ∈ elementsUnder q v) :
    Placed.Within ⟨0, v⟩ p := by
  obtain ⟨r, hr, hp⟩ := List.mem_flatMap.mp h
  exact .inside (occurrences_within q v 0 hr) hp

theorem elementsUnder_sorted (v : Raw) : (elementsUnder q v).Pairwise Placed.Below := by
  refine List.pairwise_flatMap.mpr ⟨fun p _ => contents_sorted p, ?_⟩
  refine (occurrences_sorted q v 0).imp fun {a b} hab x hx y hy => ?_
  have hend := (contents_between hx).2
  have hstart := (contents_between hy).1
  unfold Placed.Below at *
  omega

/-- Of parts in order, the first that is accepted is the given one exactly if none above it is. -/
theorem find?_above {parts : List Placed} {accepts : Placed → Bool} {p found : Placed}
    (hsorted : parts.Pairwise Placed.Below) (hp : p ∈ parts) (haccepts : accepts p = true)
    (hfound : parts.find? accepts = some found) :
    found = p ↔ ∀ other ∈ parts, other.above < p.above → accepts other = false := by
  obtain ⟨hfoundAccepts, before, after, hparts, hbefore⟩ := List.find?_eq_some_iff_append.mp hfound
  rw [hparts] at hsorted hp
  constructor
  · rintro rfl other hother habove
    rw [hparts] at hother
    rcases List.mem_append.mp hother with hother | hother
    · simpa using hbefore other hother
    · have hafter := (List.pairwise_append.mp hsorted).2.1
      rcases List.mem_cons.mp hother with rfl | hother
      · omega
      · have hbelow := (List.pairwise_cons.mp hafter).1 other hother
        unfold Placed.Below at hbelow
        omega
  · intro hnone
    rcases List.mem_append.mp hp with hp | hp
    · exact absurd haccepts (by simpa using hbefore p hp)
    · rcases List.mem_cons.mp hp with rfl | hp
      · rfl
      · have hafter := (List.pairwise_append.mp hsorted).2.1
        have hbelow := (List.pairwise_cons.mp hafter).1 p hp
        have hpos := found.value.height_pos
        unfold Placed.Below at hbelow
        have hmem : found ∈ parts := by
          rw [hparts]
          exact List.mem_append_right _ (List.mem_cons_self ..)
        rw [hnone found hmem (by omega)] at hfoundAccepts
        exact absurd hfoundAccepts Bool.false_ne_true

end Occurrences

end Order

theorem occurrencesEntries_key {q : String → Bool} {key : String} (hkey : q key = true) :
    ∀ {entries : List (String × Raw)} (n : Nat) {p : Placed},
    entryAt? (placedEntries n entries) key = some p → p ∈ occurrencesEntries q n entries
  | [], _, _, h => by simp [placedEntries, entryAt?] at h
  | (k, value) :: entries, n, p, h => by
    rw [placedEntries, entryAt?] at h
    rw [occurrencesEntries, List.mem_append]
    split_ifs at h with hk
    · rw [hk, if_pos hkey, List.mem_singleton]
      exact .inl (Option.some.inj h).symm
    · exact .inr (occurrencesEntries_key hkey _ h)

theorem occurrencesEntries_below {q : String → Bool} {key : String} (hkey : q key = false) :
    ∀ {entries : List (String × Raw)} (n : Nat) {p : Placed},
    entryAt? (placedEntries n entries) key = some p →
    ∀ r ∈ occurrences q p.above p.value, r ∈ occurrencesEntries q n entries
  | [], _, _, h => by simp [placedEntries, entryAt?] at h
  | (k, value) :: entries, n, p, h => by
    intro r hr
    rw [placedEntries, entryAt?] at h
    rw [occurrencesEntries, List.mem_append]
    split_ifs at h with hk
    · rw [← Option.some.inj h] at hr
      rw [hk, hkey, if_neg Bool.false_ne_true]
      exact .inl hr
    · exact .inr (occurrencesEntries_below hkey _ h r hr)

theorem occurrences_child (n : Nat) {q : String → Bool} {key : String} {c : Placed} {v : Raw}
    (hkey : q key = false) (h : (⟨n, v⟩ : Placed).child? key = some c) :
    ∀ r ∈ occurrences q c.above c.value, r ∈ occurrences q n v := by
  cases v with
  | map entries => exact occurrencesEntries_below hkey (n + 1) h
  | _ => simp [Placed.child?] at h

section SingleOccurrence

mutual

/-- No map in the value has the key. -/
def Raw.Without (key : String) : Raw → Prop
  | .list items => itemsWithout key items
  | .tuple items => itemsWithout key items
  | .map entries => entriesWithout key entries
  | _ => True

def itemsWithout (key : String) : List Raw → Prop
  | [] => True
  | item :: rest => item.Without key ∧ itemsWithout key rest

def entriesWithout (key : String) : List (String × Raw) → Prop
  | [] => True
  | (k, value) :: rest => k ≠ key ∧ value.Without key ∧ entriesWithout key rest

end

mutual

theorem occurrences_without {key : String} : ∀ (v : Raw) (n : Nat), v.Without key →
    occurrences (· == key) n v = []
  | .list items, n, h => occurrencesItems_without items (n + 1) h
  | .tuple items, n, h => occurrencesItems_without items (n + 1) h
  | .map entries, n, h => occurrencesEntries_without entries (n + 1) h
  | .null, _, _ => rfl
  | .bool _, _, _ => rfl
  | .int _, _, _ => rfl
  | .float _, _, _ => rfl
  | .text _, _, _ => rfl
  | .other _, _, _ => rfl

theorem occurrencesItems_without {key : String} : ∀ (items : List Raw) (n : Nat),
    itemsWithout key items → occurrencesItems (· == key) n items = []
  | [], _, _ => rfl
  | item :: items, n, h => by
    rw [occurrencesItems, occurrences_without item n h.1, occurrencesItems_without items _ h.2]
    rfl

theorem occurrencesEntries_without {key : String} : ∀ (entries : List (String × Raw)) (n : Nat),
    entriesWithout key entries → occurrencesEntries (· == key) n entries = []
  | [], _, _ => rfl
  | (k, value) :: entries, n, h => by
    rw [occurrencesEntries, if_neg (by simpa using h.1), occurrences_without value n h.2.1,
      occurrencesEntries_without entries _ h.2.2]
    rfl

end

/-- Where only the map itself has the key, the value under it is the only occurrence. -/
theorem occurrencesEntries_only {key : String} : ∀ (entries : List (String × Raw)) (n : Nat),
    (entries.map Prod.fst).Nodup → (∀ entry ∈ entries, entry.1 ≠ key → entry.2.Without key) →
    occurrencesEntries (· == key) n entries = (entryAt? (placedEntries n entries) key).toList
  | [], _, _, _ => rfl
  | (k, value) :: entries, n, hnodup, hother => by
    rw [List.map_cons, List.nodup_cons] at hnodup
    obtain ⟨hvalue, hothers⟩ := List.forall_mem_cons.mp hother
    have hrest := occurrencesEntries_only entries (n + value.height) hnodup.2 hothers
    rw [occurrencesEntries, placedEntries, entryAt?, hrest]
    by_cases hk : k = key
    · have hnone : entryAt? (placedEntries (n + value.height) entries) key = none := by
        have hplaced := entryAt?_placedEntries (n + value.height) entries key
        rcases hentry : entryAt? entries key with _ | v
        · rw [hentry] at hplaced
          exact Option.map_eq_none_iff.mp hplaced
        · have hmem := List.mem_map_of_mem (f := Prod.fst) (mem_of_entryAt? hentry)
          rw [← hk] at hmem
          exact absurd hmem hnodup.1
      rw [hnone, if_pos hk, if_pos (by simpa using hk)]
      rfl
    · rw [if_neg hk, if_neg (by simpa using hk), occurrences_without value n (hvalue hk)]
      rfl

theorem occurrences_only {key : String} {entries : List (String × Raw)} (n : Nat)
    (hnodup : (entries.map Prod.fst).Nodup)
    (hother : ∀ entry ∈ entries, entry.1 ≠ key → entry.2.Without key) :
    occurrences (· == key) n (.map entries)
      = ((⟨n, .map entries⟩ : Placed).child? key).toList :=
  occurrencesEntries_only entries (n + 1) hnodup hother

end SingleOccurrence

end TerraIndex
