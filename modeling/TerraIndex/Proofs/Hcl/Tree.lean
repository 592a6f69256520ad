import TerraIndex.Hcl.Value
import TerraIndex.Proofs.Hcl.Parts
import Mathlib.Data.List.Forall2
import Mathlib.Data.List.Nodup
/-!
# The tree of the items of a body

The items of a body become the entries of a map. The blocks of one name are the items of a list, in
their order, where no attribute has that name (`addItems_keeps`). What is no block is the value of
the only attribute of its name (`mem_addItems`, `addItems_attribute`).
-/

namespace TerraIndex

section Entries

variable {α : Type} {entries : List (String × α)} {key other : String} {value : α}

theorem entryAt?_insertEntry (entries : List (String × α)) (key other : String) (value : α) :
    entryAt? (insertEntry entries key value) other
      = if key = other then some value else entryAt? entries other := by
  induction entries with
  | nil => rfl
  | cons entry entries ih =>
    obtain ⟨k, v⟩ := entry
    by_cases hk : k = key
    · subst hk
      rw [insertEntry, if_pos rfl, entryAt?, entryAt?]
      split_ifs <;> rfl
    · rw [insertEntry, if_neg hk, entryAt?, entryAt?, ih]
      by_cases hother : k = other
      · rw [if_pos hother, if_pos hother, if_neg fun h => hk (hother.trans h.symm)]
      · rw [if_neg hother, if_neg hother]

theorem entryAt?_concat (h : key ≠ other) :
    entryAt? (entries ++ [(key, value)]) other = entryAt? entries other := by
  induction entries with
  | nil => exact if_neg h
  | cons entry entries ih =>
    obtain ⟨k, v⟩ := entry
    rw [List.cons_append, entryAt?, entryAt?, ih]

theorem mem_insertEntry {entry : String × α} (h : entry ∈ insertEntry entries key value) :
    entry ∈ entries ∨ entry = (key, value) := by
  induction entries with
  | nil => exact .inr (List.mem_singleton.mp h)
  | cons first entries ih =>
    obtain ⟨k, v⟩ := first
    rw [insertEntry] at h
    split_ifs at h with hk
    · rcases List.mem_cons.mp h with rfl | h
      · exact .inr (by rw [hk])
      · exact .inl (List.mem_cons_of_mem _ h)
    · rcases List.mem_cons.mp h with rfl | h
      · exact .inl (List.mem_cons_self ..)
      · exact (ih h).imp_left (List.mem_cons_of_mem _)

theorem mem_keys_iff : key ∈ entries.map Prod.fst ↔ hasEntry entries key = true := by
  induction entries with
  | nil => simp [hasEntry, entryAt?]
  | cons entry entries ih =>
    obtain ⟨k, v⟩ := entry
    rw [hasEntry] at ih ⊢
    rw [List.map_cons, List.mem_cons, ih, entryAt?]
    split_ifs with hk
    · simp [hk]
    · simp [Ne.symm hk]

/-- A key is set in place, or it is a new one at the end. -/
theorem insertEntry_keys (entries : List (String × α)) (key : String) (value : α) :
    (insertEntry entries key value).map Prod.fst = entries.map Prod.fst
      ∨ key ∉ entries.map Prod.fst
        ∧ (insertEntry entries key value).map Prod.fst = entries.map Prod.fst ++ [key] := by
  induction entries with
  | nil => exact .inr ⟨List.not_mem_nil, rfl⟩
  | cons entry entries ih =>
    obtain ⟨k, v⟩ := entry
    rw [insertEntry]
    split_ifs with hk
    · exact .inl rfl
    · rcases ih with ih | ⟨hnew, ih⟩
      · exact .inl (by rw [List.map_cons, List.map_cons, ih])
      · refine .inr ⟨?_, by rw [List.map_cons, List.map_cons, ih, List.cons_append]⟩
        rw [List.map_cons, List.mem_cons, not_or]
        exact ⟨Ne.symm hk, hnew⟩

theorem insertEntry_nodup (value : α) (h : (entries.map Prod.fst).Nodup) :
    ((insertEntry entries key value).map Prod.fst).Nodup := by
  rcases insertEntry_keys entries key value with hkeys | ⟨hnew, hkeys⟩
  · rwa [hkeys]
  · rw [hkeys]
    rw [← List.concat_eq_append]
    exact h.concat hnew

theorem insertEntry_subset (value : α) :
    entries.map Prod.fst ⊆ (insertEntry entries key value).map Prod.fst := by
  rcases insertEntry_keys entries key value with hkeys | ⟨-, hkeys⟩
  · rw [hkeys]
    exact List.Subset.refl _
  · rw [hkeys]
    exact List.subset_append_left _ _

end Entries

namespace Hcl

section AddedItems

/-- The entries of a body with the lines of its block. -/
def noted (inner : List (String × Raw)) (first last : Nat) : List (String × Raw) :=
  insertEntry (insertEntry inner startKey (.int first)) endKey (.int last)

/-- What a block adds to the list kept under its type. -/
inductive Adds : Item → Raw → Prop
  | block {type : String} {labels : List String} {body : List Item} {first last : Nat}
      {inner : List (String × Raw)} (hbody : Item.addItems [] [] body = some inner) :
      Adds (.block type labels body first last) (nestLabels labels (.map (noted inner first last)))

/-- The list kept under a key; no key keeps an empty one. -/
def Keeps (entries : List (String × Raw)) (key : String) (raws : List Raw) : Prop :=
  entryAt? entries key = if raws = [] then none else some (.list raws)

theorem keeps_nil {key : String} : Keeps [] key [] := rfl

namespace Item

section Add

variable {entries out : List (String × Raw)} {attributes names : List String}
  {key type name : String}
  {labels : List String} {items body : List Item} {first last : Nat} {value : Expr}

theorem addItem_attribute
    (h : addItem entries attributes (.attribute name value) = some (out, names)) :
    ∃ v, value.value = some v ∧ hasEntry entries name = false
      ∧ out = entries ++ [(name, v.embedded.toRaw)] ∧ names = name :: attributes := by
  rw [addItem] at h
  obtain ⟨v, hv, h⟩ := Option.bind_eq_some_iff.mp h
  split_ifs at h with hentry
  obtain ⟨rfl, rfl⟩ := Prod.mk.inj (Option.some.inj h)
  exact ⟨v, hv, Bool.eq_false_iff.mpr hentry, rfl, rfl⟩

theorem addItem_block
    (h : addItem entries attributes (.block type labels body first last) = some (out, names)) :
    ∃ raw, Adds (.block type labels body first last) raw
      ∧ out = appendEntry entries type raw ∧ names = attributes := by
  rw [addItem] at h
  obtain ⟨inner, hinner, h⟩ := Option.bind_eq_some_iff.mp h
  split_ifs at h
  obtain ⟨rfl, rfl⟩ := Prod.mk.inj (Option.some.inj h)
  exact ⟨_, .block hinner, rfl, rfl⟩

/-- A block is added to a list: to the one that is kept under its type, or a new one. -/
theorem appendEntry_eq (entries : List (String × Raw)) (key : String) (raw : Raw) :
    ∃ raws, appendEntry entries key raw = insertEntry entries key (.list raws) := by
  unfold appendEntry
  split
  · exact ⟨_, rfl⟩
  · exact ⟨_, rfl⟩

/-- What an item comes to: a new entry for an attribute, one more item of a list for a block. -/
theorem addItems_cons_cases {item : Item}
    (h : addItems entries attributes (item :: items) = some out) :
    (∃ name value v, item = .attribute name value ∧ value.value = some v
      ∧ hasEntry entries name = false
      ∧ addItems (entries ++ [(name, v.embedded.toRaw)]) (name :: attributes) items = some out)
    ∨ ∃ type labels body first last raw, item = .block type labels body first last
      ∧ Adds item raw ∧ addItems (appendEntry entries type raw) attributes items = some out := by
  rw [addItems] at h
  obtain ⟨⟨entries', attributes'⟩, hitem, hrest⟩ := Option.bind_eq_some_iff.mp h
  rcases item with ⟨name, value⟩ | ⟨type, labels, body, first, last⟩
  · obtain ⟨v, hv, hnew, rfl, rfl⟩ := addItem_attribute hitem
    exact .inl ⟨name, value, v, rfl, hv, hnew, hrest⟩
  · obtain ⟨raw, hraw, rfl, rfl⟩ := addItem_block hitem
    exact .inr ⟨type, labels, body, first, last, raw, rfl, hraw, hrest⟩

end Add

end Item

end AddedItems

section Keeps

variable {entries out : List (String × Raw)} {key other : String} {raws : List Raw} {raw : Raw}

theorem Keeps.append (h : Keeps entries key raws) :
    Keeps (appendEntry entries key raw) key (raws ++ [raw]) := by
  unfold Keeps at h ⊢
  rw [if_neg (by simp), appendEntry, h]
  split_ifs with hraws
  · rw [hraws, entryAt?_insertEntry, if_pos rfl, List.nil_append]
  · rw [entryAt?_insertEntry, if_pos rfl]

theorem Keeps.append_other (h : Keeps entries key raws) (hne : other ≠ key) :
    Keeps (appendEntry entries other raw) key raws := by
  obtain ⟨others, hothers⟩ := Item.appendEntry_eq entries other raw
  rw [Keeps, hothers, entryAt?_insertEntry, if_neg hne, h]

theorem Keeps.concat (h : Keeps entries key raws) (hne : other ≠ key) :
    Keeps (entries ++ [(other, raw)]) key raws := by
  rw [Keeps, entryAt?_concat hne, h]

/-- The blocks of a name that no attribute has are kept in a list, in their order. -/
theorem addItems_keeps {key : String} : ∀ {items : List Item} {entries : List (String × Raw)}
    {attributes : List String} {raws : List Raw},
    Item.addItems entries attributes items = some out →
    (∀ item ∈ items, item.name = key → item.isBlock = true) → Keeps entries key raws →
    ∃ added, List.Forall₂ Adds (items.filter fun item => item.name = key) added
      ∧ Keeps out key (raws ++ added)
  | [], _, _, raws, h, _, hkeeps => by
    rw [Item.addItems] at h
    obtain rfl := Option.some.inj h
    exact ⟨[], .nil, by rwa [List.append_nil]⟩
  | item :: items, _, _, raws, h, hblocks, hkeeps => by
    obtain ⟨hitem, hitems⟩ := List.forall_mem_cons.mp hblocks
    rcases Item.addItems_cons_cases h with ⟨name, value, v, rfl, -, -, h⟩ |
      ⟨type, labels, body, first, last, raw, rfl, hraw, h⟩
    · have hne : name ≠ key := fun heq => absurd (hitem heq) Bool.false_ne_true
      rw [List.filter_cons_of_neg (by rwa [decide_eq_true_eq])]
      exact addItems_keeps h hitems (hkeeps.concat hne)
    · by_cases hkey : type = key
      · have hname : (Item.block type labels body first last).name = key := hkey
        rw [hkey] at h
        rw [List.filter_cons_of_pos (by exact decide_eq_true hname)]
        obtain ⟨added, hadded, hout⟩ := addItems_keeps h hitems hkeeps.append
        rw [List.append_assoc] at hout
        exact ⟨raw :: added, .cons hraw hadded, hout⟩
      · rw [List.filter_cons_of_neg (by rwa [decide_eq_true_eq])]
        exact addItems_keeps h hitems (hkeeps.append_other hkey)

end Keeps

section Attributes

variable {out : List (String × Raw)} {name : String} {raw : Raw}

/-- Every entry is the value of an attribute, or its key is the name of a block. -/
theorem mem_addItems : ∀ {items : List Item} {entries : List (String × Raw)}
    {attributes : List String}, Item.addItems entries attributes items = some out →
    (name, raw) ∈ out → (name, raw) ∈ entries
      ∨ (∃ value v, .attribute name value ∈ items ∧ value.value = some v ∧ raw = v.embedded.toRaw)
      ∨ ∃ item ∈ items, item.name = name ∧ item.isBlock = true
  | [], _, _, h, hmem => by
    rw [Item.addItems] at h
    obtain rfl := Option.some.inj h
    exact .inl hmem
  | item :: items, _, _, h, hmem => by
    rcases Item.addItems_cons_cases h with ⟨name', value, v, rfl, hv, -, h⟩ |
      ⟨type, labels, body, first, last, raw', rfl, -, h⟩
    · rcases mem_addItems h hmem with hmem | ⟨value', v', hitem, hv', hraw⟩ | ⟨item, hitem, hname⟩
      · rcases List.mem_append.mp hmem with hmem | hmem
        · exact .inl hmem
        · obtain ⟨rfl, rfl⟩ := Prod.mk.inj (List.mem_singleton.mp hmem)
          exact .inr (.inl ⟨value, v, List.mem_cons_self .., hv, rfl⟩)
      · exact .inr (.inl ⟨value', v', List.mem_cons_of_mem _ hitem, hv', hraw⟩)
      · exact .inr (.inr ⟨item, List.mem_cons_of_mem _ hitem, hname⟩)
    · rcases mem_addItems h hmem with hmem | ⟨value', v', hitem, hv', hraw⟩ | ⟨item, hitem, hname⟩
      · obtain ⟨raws, hraws⟩ := Item.appendEntry_eq _ type raw'
        rw [hraws] at hmem
        rcases mem_insertEntry hmem with hmem | hmem
        · exact .inl hmem
        · obtain ⟨rfl, rfl⟩ := Prod.mk.inj hmem
          exact .inr (.inr ⟨_, List.mem_cons_self .., rfl, rfl⟩)
      · exact .inr (.inl ⟨value', v', List.mem_cons_of_mem _ hitem, hv', hraw⟩)
      · exact .inr (.inr ⟨item, List.mem_cons_of_mem _ hitem, hname⟩)

theorem mem_addItems_name {items : List Item} (h : Item.addItems [] [] items = some out)
    (hmem : (name, raw) ∈ out) : ∃ item ∈ items, item.name = name := by
  rcases mem_addItems h hmem with hmem | ⟨value, v, hitem, -⟩ | ⟨item, hitem, hname, -⟩
  · cases hmem
  · exact ⟨_, hitem, rfl⟩
  · exact ⟨item, hitem, hname⟩

/-- Keys are distinct, and the names of attributes are new ones. -/
theorem addItems_keys : ∀ {items : List Item} {entries : List (String × Raw)}
    {attributes : List String}, Item.addItems entries attributes items = some out →
    (entries.map Prod.fst).Nodup →
    (out.map Prod.fst).Nodup ∧ (attributeNames items).Nodup
      ∧ ∀ name ∈ attributeNames items, name ∉ entries.map Prod.fst
  | [], _, _, h, hnodup => by
    rw [Item.addItems] at h
    obtain rfl := Option.some.inj h
    exact ⟨hnodup, .nil, nofun⟩
  | item :: items, entries, _, h, hnodup => by
    rcases Item.addItems_cons_cases h with ⟨name, value, v, rfl, -, hnew, h⟩ |
      ⟨type, labels, body, first, last, raw, rfl, -, h⟩
    · have hname : name ∉ entries.map Prod.fst := by
        rw [mem_keys_iff, hnew]
        exact Bool.false_ne_true
      have hkeys : (entries ++ [(name, v.embedded.toRaw)]).map Prod.fst
          = (entries.map Prod.fst).concat name := by
        rw [List.map_append, List.concat_eq_append]
        rfl
      obtain ⟨hout, hnames, hfresh⟩ := addItems_keys h (hkeys ▸ hnodup.concat hname)
      rw [hkeys, List.concat_eq_append] at hfresh
      refine ⟨hout, List.nodup_cons.mpr ⟨fun hmem => ?_, hnames⟩, fun other hother => ?_⟩
      · exact hfresh name hmem (List.mem_append_right _ (List.mem_singleton_self name))
      · rcases List.mem_cons.mp hother with rfl | hother
        · exact hname
        · exact fun hmem => hfresh other hother (List.mem_append_left _ hmem)
    · obtain ⟨raws, hraws⟩ := Item.appendEntry_eq entries type raw
      rw [hraws] at h
      obtain ⟨hout, hnames, hfresh⟩ := addItems_keys h (insertEntry_nodup _ hnodup)
      exact ⟨hout, hnames, fun other hother hmem =>
        hfresh other hother (insertEntry_subset _ hmem)⟩

/-- No two attributes of a body have one name. -/
theorem addItems_first {items before after : List Item} {value : Expr}
    (h : Item.addItems [] [] items = some out)
    (hitems : items = before ++ .attribute name value :: after) : name ∉ attributeNames before := by
  obtain ⟨-, hnames, -⟩ := addItems_keys h .nil
  have hsplit : attributeNames items
      = attributeNames before ++ name :: attributeNames after := by
    rw [hitems, attributeNames_append]
    rfl
  rw [hsplit, List.nodup_append] at hnames
  exact fun hmem => hnames.2.2 name hmem name (List.mem_cons_self ..) rfl

end Attributes

end Hcl

end TerraIndex
