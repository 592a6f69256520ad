import TerraIndex.Entity.Meta
import TerraIndex.Proofs.Document.Writable
import TerraIndex.Proofs.Json.Occurrences
/-!
# What is extracted from a body

A body is split by its keys: `extract` fails at the first meta-argument that has not the shape it
must have, and where there is none it yields a split (`IsSplit`), in which every field is read from
the node of its own key and every other key is kept in order (`extract_split`). The order of the
entries makes no difference to the fields.

The count of a split is a number that is read in the text of the count. An integer with too many
digits has no text, and a body with such a count is not split (`extract_long_count`).
-/

namespace TerraIndex

open Json

section Fields

/-- What the value of a meta-argument comes to. -/
inductive Noted
  | number (source : Option String) (whole : Option Int)
  | text (s : String)
  | texts (ss : List String)
  | flag (b : Bool)
  | entries (values : List (String × Raw))

/-- What the fields hold of a meta-argument. -/
def MetaFields.noted (fields : MetaFields) : MetaArg → Option Noted
  | .count =>
    if fields.countSource = .none ∧ fields.count = .none then .none
    else some (.number fields.countSource fields.count)
  | .forEach => fields.forEach.map .text
  | .dependsOn => fields.dependsOn.map .texts
  | .provider => fields.provider.map .text
  | .lifecycle => fields.lifecycle.map .entries
  | .providers => fields.providers.map .entries
  | .moduleSource => fields.moduleSource.map .text
  | .version => fields.version.map .text
  | .aliasName => fields.aliasName.map .text
  | .description => fields.description.map .text
  | .sensitive => fields.sensitive.map .flag
  | .nullable => fields.nullable.map .flag
  | .value => fields.value.map .text
  | .defaultValue => fields.defaultValue.map .text
  | .type => fields.type.map .text

namespace MetaArg

/-- What is noted for a node, which depends on nothing else. -/
def reading? (arg : MetaArg) (node : Node) : Option Noted :=
  match arg with
  | count => node.canonical.toOption.map fun source => .number (some source) node.wholeNumber?
  | forEach | value | defaultValue => node.canonical.toOption.map .text
  | dependsOn => (node.items.mapM Node.plainText).toOption.map .texts
  | provider | moduleSource | version | aliasName | description => node.text?.map .text
  | type => node.text?.map fun s => .text (typeExpression s)
  | lifecycle | providers => node.asMap.toOption.map .entries
  | sensitive | nullable => node.asBool?.map .flag

/-- The key of a meta-argument, which is the same for every kind that has it. -/
def key : MetaArg → String
  | count => "count"
  | forEach => "for_each"
  | dependsOn => "depends_on"
  | provider => "provider"
  | lifecycle => "lifecycle"
  | providers => "providers"
  | moduleSource => "source"
  | version => "version"
  | aliasName => "alias"
  | description => "description"
  | sensitive => "sensitive"
  | nullable => "nullable"
  | value => "value"
  | defaultValue => "default"
  | type => "type"

theorem key_of_ofKey? {kind key : String} {arg : MetaArg} (h : ofKey? kind key = some arg) :
    key = arg.key := by
  have htable : ∀ entry ∈ table kind, entry.1 = entry.2.key := by
    unfold table
    split_ifs <;> decide
  exact htable _ (mem_of_entryAt? h)

end MetaArg

/-- The fields hold nothing but what they hold of each meta-argument. -/
theorem MetaFields.ext_noted {fields others : MetaFields}
    (h : ∀ arg, fields.noted arg = others.noted arg) : fields = others := by
  obtain ⟨c, cs, fe, d, p, l, ps, ms, v, a, de, se, nu, va, df, ty⟩ := fields
  obtain ⟨c', cs', fe', d', p', l', ps', ms', v', a', de', se', nu', va', df', ty'⟩ := others
  have hcount := h .count
  have htext : ∀ x y, Noted.text x = .text y → x = y := fun _ _ => Noted.text.inj
  have htexts : ∀ x y, Noted.texts x = .texts y → x = y := fun _ _ => Noted.texts.inj
  have hflag : ∀ x y, Noted.flag x = .flag y → x = y := fun _ _ => Noted.flag.inj
  have hentries : ∀ x y, Noted.entries x = .entries y → x = y := fun _ _ => Noted.entries.inj
  have hsource : cs = cs' ∧ c = c' := by
    simp only [noted] at hcount
    split_ifs at hcount with hnone hnone' hnone'
    · exact ⟨hnone.1.trans hnone'.1.symm, hnone.2.trans hnone'.2.symm⟩
    · exact Noted.number.inj (Option.some.inj hcount)
  obtain ⟨rfl, rfl⟩ := hsource
  obtain rfl := Option.map_injective htext (h .forEach)
  obtain rfl := Option.map_injective htexts (h .dependsOn)
  obtain rfl := Option.map_injective htext (h .provider)
  obtain rfl := Option.map_injective hentries (h .lifecycle)
  obtain rfl := Option.map_injective hentries (h .providers)
  obtain rfl := Option.map_injective htext (h .moduleSource)
  obtain rfl := Option.map_injective htext (h .version)
  obtain rfl := Option.map_injective htext (h .aliasName)
  obtain rfl := Option.map_injective htext (h .description)
  obtain rfl := Option.map_injective hflag (h .sensitive)
  obtain rfl := Option.map_injective hflag (h .nullable)
  obtain rfl := Option.map_injective htext (h .value)
  obtain rfl := Option.map_injective htext (h .defaultValue)
  obtain rfl := Option.map_injective htext (h .type)
  rfl

end Fields

theorem mapM_ok {ε α β : Type} {f : α → Except ε β} : ∀ {items : List α},
    (∀ item ∈ items, ∃ b, f item = .ok b) → ∃ bs, items.mapM f = .ok bs
  | [], _ => ⟨[], rfl⟩
  | item :: items, h => by
    obtain ⟨⟨b, hb⟩, hitems⟩ := List.forall_mem_cons.mp h
    obtain ⟨bs, hbs⟩ := mapM_ok hitems
    exact ⟨b :: bs, by rw [List.mapM_cons, hb, ok_bind, hbs]; rfl⟩

theorem foldlM_ok {ε α β : Type} {f : β → α → Except ε β} : ∀ {items : List α} (b : β),
    (∀ item ∈ items, ∀ b, ∃ b', f b item = .ok b') → ∃ b', items.foldlM f b = .ok b'
  | [], b, _ => ⟨b, rfl⟩
  | item :: items, b, h => by
    obtain ⟨hitem, hitems⟩ := List.forall_mem_cons.mp h
    obtain ⟨b', hb'⟩ := hitem b
    obtain ⟨last, hlast⟩ := foldlM_ok b' hitems
    exact ⟨last, by rw [List.foldlM_cons, hb', ok_bind, hlast]⟩

theorem foldlM_preserves {ε α β : Type} {f : β → α → Except ε β} {Q : β → Prop} :
    ∀ {items : List α} {b last : β}, Q b →
    (∀ item ∈ items, ∀ b next, Q b → f b item = .ok next → Q next) →
    items.foldlM f b = .ok last → Q last
  | [], _, _, hb, _, h => Except.ok.inj h ▸ hb
  | item :: items, b, last, hb, hstep, h => by
    obtain ⟨hitem, hitems⟩ := List.forall_mem_cons.mp hstep
    rw [List.foldlM_cons] at h
    obtain ⟨next, hnext, h⟩ := bind_ok h
    exact foldlM_preserves (hitem b next hb hnext) hitems h

theorem asMap_ok {node : Node} (h : node.Writable) : ∃ raws, node.asMap = .ok raws := by
  cases node with
  | map entries => exact h.exists_toRawEntries
  | list items =>
    refine foldlM_ok _ fun item hitem merged => ?_
    obtain ⟨raws, hraws⟩ := (h.of_mem_items item hitem).exists_toRawEntries
    exact ⟨_, by rw [hraws]; rfl⟩
  | scalar => exact ⟨[], rfl⟩
  | stray => exact ⟨[], rfl⟩

namespace MetaArg

variable {arg : MetaArg} {node : Node}

theorem text?_of_shape (h : Shape.string.accepts node = true) : ∃ s, node.text? = some s := by
  simp only [Shape.accepts, beq_iff_eq] at h
  cases node with
  | scalar s =>
    cases s with
    | text s => exact ⟨s, rfl⟩
    | _ => cases h
  | _ => cases h

/-- Where the shape is met, the value of a meta-argument is noted, and no other one is touched. -/
theorem note_noted (hshape : arg.shape.accepts node = true) (hnode : node.Writable)
    (fields : MetaFields) : ∃ noted value, arg.note node fields = .ok noted
      ∧ arg.reading? node = some value
      ∧ ∀ other, noted.noted other = if other = arg then some value else fields.noted other := by
  obtain ⟨text, htext⟩ := hnode.exists_canonical
  obtain ⟨texts, htexts⟩ := mapM_ok fun item hitem =>
    (hnode.of_mem_items item hitem).exists_plainText
  obtain ⟨raws, hraws⟩ := asMap_ok hnode
  cases arg with
  | count =>
    refine ⟨_, _, by rw [note, htext]; rfl, by rw [reading?, htext]; rfl, fun other => ?_⟩
    cases other <;> rfl
  | forEach | value | defaultValue =>
    refine ⟨_, _, by rw [note, htext]; rfl, by rw [reading?, htext]; rfl, fun other => ?_⟩
    cases other <;> rfl
  | dependsOn =>
    refine ⟨_, _, by rw [note, htexts]; rfl, by rw [reading?, htexts]; rfl, fun other => ?_⟩
    cases other <;> rfl
  | lifecycle | providers =>
    refine ⟨_, _, by rw [note, hraws]; rfl, by rw [reading?, hraws]; rfl, fun other => ?_⟩
    cases other <;> rfl
  | sensitive | nullable =>
    obtain ⟨b, hb⟩ := Option.isSome_iff_exists.mp hshape
    refine ⟨_, _, by rw [note, hb]; rfl, by rw [reading?, hb]; rfl, fun other => ?_⟩
    cases other <;> rfl
  | provider | moduleSource | version | aliasName | description | type =>
    obtain ⟨s, hs⟩ := text?_of_shape hshape
    refine ⟨_, _, by rw [note, hs]; rfl, by rw [reading?, hs]; rfl, fun other => ?_⟩
    cases other <;> rfl

end MetaArg

section Extraction

/-- The entry is a meta-argument whose value has not the shape it must have. -/
def misshapen (kind : String) (entry : String × Node) : Bool :=
  match MetaArg.ofKey? kind entry.1 with
  | some arg => !arg.shape.accepts entry.2
  | none => false

/-- The entries that are no meta-arguments. -/
def plainEntries (kind : String) (body : Body) : Body :=
  body.filter fun entry => (MetaArg.ofKey? kind entry.1).isNone

/-- The node of a meta-argument, where the kind has it and the body has its key. -/
def metaNode? (kind : String) (body : Body) (arg : MetaArg) : Option Node :=
  if MetaArg.ofKey? kind arg.key = some arg then body.child? arg.key else none

/-- The count is a number that is read in the text of the count. -/
def MetaFields.CountRead (fields : MetaFields) : Prop :=
  ∀ n, fields.count = some n → ∃ source, fields.countSource = some source
    ∧ (decode source.toList = .ok (.int n)
      ∨ ∃ x : Binary64, decode source.toList = .ok (.float x) ∧ x.isFinite = true ∧ x.value = n)

/-- A split of a body: what is noted of each meta-argument is the reading of its own node, every
meta-argument in the body is noted, and the arguments are the other entries. -/
structure IsSplit (kind : String) (body : Body) (done : Extraction) : Prop where
  arguments : Node.toRawEntries (plainEntries kind body) = .ok done.arguments
  noted : ∀ arg, done.fields.noted arg = (metaNode? kind body arg).bind arg.reading?
  present : ∀ arg, (done.fields.noted arg).isSome = (metaNode? kind body arg).isSome
  count : done.fields.CountRead

section Runs

variable {kind name key : String} {node : Node} {body : Body} {arg : MetaArg}

theorem metaNode?_cons_plain (h : MetaArg.ofKey? kind key = none) (arg : MetaArg) :
    metaNode? kind ((key, node) :: body) arg = metaNode? kind body arg := by
  unfold metaNode?
  split_ifs with harg
  · refine if_neg ?_
    rintro rfl
    rw [h] at harg
    cases harg
  · rfl

theorem metaNode?_cons_self (h : MetaArg.ofKey? kind key = some arg) :
    metaNode? kind ((key, node) :: body) arg = some node := by
  obtain rfl := MetaArg.key_of_ofKey? h
  rw [metaNode?, if_pos h]
  exact if_pos rfl

theorem metaNode?_cons_ne {other : MetaArg} (h : MetaArg.ofKey? kind key = some arg)
    (hne : other ≠ arg) :
    metaNode? kind ((key, node) :: body) other = metaNode? kind body other := by
  unfold metaNode?
  split_ifs with hother
  · refine if_neg ?_
    rintro rfl
    rw [h] at hother
    exact hne (Option.some.inj hother).symm
  · rfl

theorem metaNode?_none (h : MetaArg.ofKey? kind key = some arg)
    (hkey : key ∉ body.map Prod.fst) : metaNode? kind body arg = none := by
  obtain rfl := MetaArg.key_of_ofKey? h
  rw [metaNode?, if_pos h]
  cases hchild : body.child? arg.key with
  | none => rfl
  | some node => exact absurd (List.mem_map_of_mem (f := Prod.fst) (mem_of_entryAt? hchild)) hkey

/-- Extraction goes on behind an entry of the right shape: the value of another key is kept, that of
a meta-argument is noted. -/
theorem extractFrom_cons (name : String) (body : Body) (done : Extraction)
    (hshape : misshapen kind (key, node) = false) (hnode : node.Writable) :
    (MetaArg.ofKey? kind key = none ∧ ∃ raw, node.toRaw = .ok raw
        ∧ extractFrom kind name done ((key, node) :: body)
          = extractFrom kind name { done with arguments := done.arguments ++ [(key, raw)] } body)
      ∨ ∃ arg noted value, MetaArg.ofKey? kind key = some arg ∧ arg.reading? node = some value
        ∧ (∀ other, noted.noted other
          = if other = arg then some value else done.fields.noted other)
        ∧ extractFrom kind name done ((key, node) :: body)
          = extractFrom kind name { done with fields := noted } body := by
  rw [misshapen] at hshape
  cases hkey : MetaArg.ofKey? kind key with
  | none =>
    obtain ⟨raw, hraw⟩ := hnode.exists_toRaw
    refine .inl ⟨rfl, raw, hraw, ?_⟩
    rw [extractFrom, hkey, hraw]
    rfl
  | some arg =>
    simp only [hkey, Bool.not_eq_false'] at hshape
    obtain ⟨noted, value, hnote, hvalue, hnoted⟩ := MetaArg.note_noted hshape hnode done.fields
    refine .inr ⟨arg, noted, value, rfl, hvalue, hnoted, ?_⟩
    simp only [extractFrom, hkey, hshape, if_true, hnote]
    rfl

/-- The first meta-argument of the wrong shape is reported. -/
theorem extractFrom_misshapen : ∀ {body : Body} (done : Extraction),
    (∀ entry ∈ body, entry.2.Writable) → body.find? (misshapen kind) = some (key, node) →
    ∃ arg, MetaArg.ofKey? kind key = some arg ∧ extractFrom kind name done body
      = .error (.typeMismatch (kindText kind) name key arg.shape)
  | [], _, _, h => by cases h
  | (k, n) :: body, done, hbody, h => by
    obtain ⟨hnode, hbody⟩ := List.forall_mem_cons.mp hbody
    by_cases hshape : misshapen kind (k, n) = true
    · rw [List.find?_cons_of_pos hshape, Option.some.injEq, Prod.mk.injEq] at h
      obtain ⟨rfl, rfl⟩ := h
      rw [misshapen] at hshape
      cases hkey : MetaArg.ofKey? kind k with
      | none => simp [hkey] at hshape
      | some arg =>
        simp only [hkey, Bool.not_eq_true'] at hshape
        refine ⟨arg, rfl, ?_⟩
        simp [extractFrom, hkey, hshape]
    · rw [List.find?_cons_of_neg hshape] at h
      rw [Bool.not_eq_true] at hshape
      rcases extractFrom_cons name body done hshape hnode with
        ⟨-, _, -, hnext⟩ | ⟨_, _, _, -, -, -, hnext⟩
      · rw [hnext]
        exact extractFrom_misshapen _ hbody h
      · rw [hnext]
        exact extractFrom_misshapen _ hbody h

/-- Where all meta-arguments have the right shape, each is noted by its reading and the other
entries are added to the arguments in order. -/
theorem extractFrom_ok (name : String) : ∀ {body : Body} (done : Extraction),
    (∀ entry ∈ body, entry.2.Writable) → (body.map Prod.fst).Nodup →
    body.find? (misshapen kind) = none →
    ∃ last raws, extractFrom kind name done body = .ok last
      ∧ Node.toRawEntries (plainEntries kind body) = .ok raws
      ∧ last.arguments = done.arguments ++ raws
      ∧ (∀ arg node, metaNode? kind body arg = some node →
        ∃ value, arg.reading? node = some value ∧ last.fields.noted arg = some value)
      ∧ ∀ arg, metaNode? kind body arg = none → last.fields.noted arg = done.fields.noted arg
  | [], done, _, _, _ => by
    have hnone : ∀ arg, metaNode? kind [] arg = none := fun arg => by
      unfold metaNode?
      split_ifs <;> rfl
    refine ⟨done, [], rfl, rfl, (List.append_nil _).symm, ?_, fun _ _ => rfl⟩
    intro arg node h
    rw [hnone] at h
    cases h
  | (key, node) :: body, done, hbody, hkeys, h => by
    obtain ⟨hnode, hbody⟩ := List.forall_mem_cons.mp hbody
    rw [List.map_cons, List.nodup_cons] at hkeys
    have hshape : misshapen kind (key, node) = false := by
      simpa using List.find?_eq_none.mp h _ (List.mem_cons_self ..)
    rw [List.find?_cons_of_neg (by simp [hshape])] at h
    rcases extractFrom_cons name body done hshape hnode with
      ⟨hkey, raw, hraw, hnext⟩ | ⟨arg, noted, value, hkey, hvalue, hnoted, hnext⟩
    · obtain ⟨last, raws, hlast, hraws, harguments, hfound, hnone⟩ :=
        extractFrom_ok name { done with arguments := done.arguments ++ [(key, raw)] } hbody
          hkeys.2 h
      refine ⟨last, (key, raw) :: raws, hnext.trans hlast, ?_, ?_, ?_, ?_⟩
      · rw [plainEntries, List.filter_cons_of_pos (by rw [hkey]; rfl), Node.toRawEntries, hraw]
        simp only [ok_bind]
        rw [← plainEntries, hraws]
        rfl
      · rw [harguments, List.append_assoc]
        rfl
      · intro other found hother
        rw [metaNode?_cons_plain hkey] at hother
        exact hfound other found hother
      · intro other hother
        rw [metaNode?_cons_plain hkey] at hother
        exact hnone other hother
    · obtain ⟨last, raws, hlast, hraws, harguments, hfound, hnone⟩ :=
        extractFrom_ok name { done with fields := noted } hbody hkeys.2 h
      refine ⟨last, raws, hnext.trans hlast, ?_, harguments, ?_, ?_⟩
      · rwa [plainEntries, List.filter_cons_of_neg (by simp [hkey])]
      · intro other found hother
        by_cases hsame : other = arg
        · subst hsame
          rw [metaNode?_cons_self hkey, Option.some.injEq] at hother
          rw [hnone other (metaNode?_none hkey hkeys.1), hnoted, if_pos rfl, ← hother]
          exact ⟨value, hvalue, rfl⟩
        · rw [metaNode?_cons_ne hkey hsame] at hother
          exact hfound other found hother
      · intro other hother
        by_cases hsame : other = arg
        · subst hsame
          rw [metaNode?_cons_self hkey] at hother
          cases hother
        · rw [metaNode?_cons_ne hkey hsame] at hother
          rw [hnone other hother, hnoted, if_neg hsame]

/-- The count is read in the canonical text of its node. -/
theorem countRead_of_noted {fields : MetaFields} (hnode : node.Holds Scalar.IsValue)
    (h : fields.noted .count = MetaArg.count.reading? node) : fields.CountRead := by
  obtain ⟨text, raw, htext, hraw, hread⟩ := isReadIn_value hnode
  have hcanonical : node.canonical = .ok (String.ofList text) := by
    rw [Node.canonical, htext]
    rfl
  have hdecode : decode (String.ofList text).toList = .ok raw.sorted := by
    rw [String.toList_ofList]
    exact decode_written hread.written
  intro n hn
  have hboth : ¬ (fields.countSource = none ∧ fields.count = none) := by simp [hn]
  rw [MetaFields.noted, if_neg hboth, MetaArg.reading?, hcanonical, hn] at h
  obtain ⟨hsource, hwhole⟩ := Noted.number.inj (Option.some.inj h)
  refine ⟨_, hsource, ?_⟩
  cases node with
  | scalar s =>
    cases s with
    | int m =>
      obtain rfl := Option.some.inj hwhole
      rw [← Except.ok.inj hraw] at hdecode
      exact .inl hdecode
    | float x =>
      rw [← Except.ok.inj hraw] at hdecode
      exact .inr ⟨x, hdecode, Binary64.value_of_toInt? hwhole.symm⟩
    | _ => cases hwhole
  | _ => cases hwhole

theorem noted_none (arg : MetaArg) : MetaFields.none.noted arg = none := by
  cases arg <;> rfl

/-- Where every meta-argument has the right shape, the extraction is a split. -/
theorem exists_isSplit (kind name : String) (hvalues : valuesHold Scalar.IsValue body)
    (hkeys : (body.map Prod.fst).Nodup) (h : body.find? (misshapen kind) = none) :
    ∃ done, extract kind name body = .ok done ∧ IsSplit kind body done := by
  obtain ⟨last, raws, hlast, hraws, harguments, hfound, hnone⟩ :=
    extractFrom_ok name ⟨.none, []⟩ (writable_of_values hvalues) hkeys h
  have hnoted : ∀ arg, last.fields.noted arg = (metaNode? kind body arg).bind arg.reading?
      ∧ (last.fields.noted arg).isSome = (metaNode? kind body arg).isSome := by
    intro arg
    cases hnode : metaNode? kind body arg with
    | none =>
      rw [hnone arg hnode, noted_none]
      exact ⟨rfl, rfl⟩
    | some node =>
      obtain ⟨value, hvalue, hlast⟩ := hfound arg node hnode
      rw [hlast, Option.bind_some, hvalue]
      exact ⟨rfl, rfl⟩
  refine ⟨last, hlast, ?_, fun arg => (hnoted arg).1, fun arg => (hnoted arg).2, ?_⟩
  · rw [harguments]
    exact hraws
  · cases hnode : metaNode? kind body .count with
    | none =>
      intro n hn
      have hcount := hnone .count hnode
      rw [noted_none, MetaFields.noted, hn] at hcount
      simp at hcount
    | some node =>
      have hread : last.fields.noted .count = MetaArg.count.reading? node := by
        rw [(hnoted .count).1, hnode]
        rfl
      unfold metaNode? at hnode
      split_ifs at hnode
      exact countRead_of_noted ((valuesHold_iff body).mp hvalues _ (mem_of_entryAt? hnode)) hread

end Runs

end Extraction

section OtherOrders

theorem toRawEntries_perm {body other : Body} (h : other.Perm body) :
    ∀ {raws : List (String × Raw)}, Node.toRawEntries body = .ok raws →
      ∃ others, Node.toRawEntries other = .ok others ∧ others.Perm raws := by
  induction h with
  | nil => exact fun h => ⟨_, h, .refl _⟩
  | @cons entry l₁ l₂ _ ih =>
    intro raws h
    obtain ⟨raw, hraw, h⟩ := bind_ok h
    obtain ⟨rest, hrest, h⟩ := bind_ok h
    obtain ⟨others, hothers, hperm⟩ := ih hrest
    refine ⟨(entry.1, raw) :: others, ?_, ?_⟩
    · rw [Node.toRawEntries, hraw, ok_bind, hothers]
      rfl
    · rw [← Except.ok.inj h]
      exact hperm.cons _
  | swap first second rest =>
    intro raws h
    obtain ⟨raw, hraw, h⟩ := bind_ok h
    obtain ⟨tail, htail, h⟩ := bind_ok h
    obtain ⟨raw', hraw', htail⟩ := bind_ok htail
    obtain ⟨raws', hraws', htail⟩ := bind_ok htail
    refine ⟨(second.1, raw') :: (first.1, raw) :: raws', ?_, ?_⟩
    · rw [Node.toRawEntries, hraw', ok_bind, Node.toRawEntries, hraw, ok_bind, hraws']
      rfl
    · rw [← Except.ok.inj h, ← Except.ok.inj htail]
      exact .swap _ _ _
  | trans _ _ ih₁ ih₂ =>
    intro raws h
    obtain ⟨middle, hmiddle, hperm₂⟩ := ih₂ h
    obtain ⟨others, hothers, hperm₁⟩ := ih₁ hmiddle
    exact ⟨others, hothers, hperm₁.trans hperm₂⟩

theorem child?_perm {body other : Body} (h : other.Perm body) (hkeys : (body.map Prod.fst).Nodup)
    (key : String) : other.child? key = body.child? key := by
  have hkeys' : (other.map Prod.fst).Nodup := (h.map Prod.fst).nodup_iff.mpr hkeys
  cases hchild : other.child? key with
  | none =>
    cases hbody : body.child? key with
    | none => rfl
    | some node =>
      have hmem := h.mem_iff.mpr (mem_of_entryAt? hbody)
      rw [Body.child?, entryAt?_of_mem hkeys' hmem] at hchild
      cases hchild
  | some node => exact (entryAt?_of_mem hkeys (h.mem_iff.mp (mem_of_entryAt? hchild))).symm

/-- A body is split by its keys. The first meta-argument that has not the shape it must have is an
error; where there is none, every meta-argument is noted by the reading of its own node, and the
arguments are the other entries in order. Another order of the entries gives the same fields, and
the same arguments in that order. -/
theorem extract_split (kind name : String) {body : Body}
    (hbody : (Node.map body).Holds Scalar.IsValue) :
    (∀ key node, body.find? (misshapen kind) = some (key, node) →
      ∃ arg, MetaArg.ofKey? kind key = some arg ∧ extract kind name body
        = .error (.typeMismatch (kindText kind) name key arg.shape))
      ∧ (body.find? (misshapen kind) = none →
        ∃ done, extract kind name body = .ok done ∧ IsSplit kind body done
          ∧ ∀ other, other.Perm body → ∃ arguments, extract kind name other
              = .ok ⟨done.fields, arguments⟩
            ∧ IsSplit kind other ⟨done.fields, arguments⟩ ∧ arguments.Perm done.arguments) := by
  refine ⟨fun key node h => extractFrom_misshapen _ (writable_of_values hbody.2) h,
    fun h => ?_⟩
  obtain ⟨done, hdone, hsplit⟩ := exists_isSplit kind name hbody.2 hbody.1 h
  refine ⟨done, hdone, hsplit, fun other hother => ?_⟩
  have hvalues : valuesHold Scalar.IsValue other := (valuesHold_iff other).mpr fun entry hentry =>
    (valuesHold_iff body).mp hbody.2 entry (hother.mem_iff.mp hentry)
  have hnone : other.find? (misshapen kind) = none := List.find?_eq_none.mpr fun entry hentry =>
    List.find?_eq_none.mp h entry (hother.mem_iff.mp hentry)
  obtain ⟨done', hdone', hsplit'⟩ := exists_isSplit kind name hvalues
    ((hother.map Prod.fst).nodup_iff.mpr hbody.1) hnone
  have hfields : done'.fields = done.fields := MetaFields.ext_noted fun arg => by
    rw [hsplit'.noted, hsplit.noted, metaNode?, metaNode?, child?_perm hother hbody.1]
  have hplain : (plainEntries kind other).Perm (plainEntries kind body) := hother.filter _
  obtain ⟨others, hothers, hperm⟩ := toRawEntries_perm hplain hsplit.arguments
  have harguments : done'.arguments = others :=
    Except.ok.inj (hsplit'.arguments.symm.trans hothers)
  rw [← hfields]
  exact ⟨done'.arguments, hdone', hsplit', harguments ▸ hperm⟩

end OtherOrders

/-- The body of a module, with a whole number that is no integer for its count. -/
def countedModule : Body := [("cidr", .scalar (.text "10.0.0.0/16")),
  ("count", .scalar (.float two)), ("source", .scalar (.text "./network"))]

theorem extract_split_countedModule :
    (Node.map countedModule).Holds Scalar.IsValue
      ∧ countedModule.find? (misshapen "module") = none
      ∧ ∃ done, extract "module" "network" countedModule = .ok done
        ∧ IsSplit "module" countedModule done
        ∧ ∀ other, other.Perm countedModule → ∃ arguments, extract "module" "network" other
            = .ok ⟨done.fields, arguments⟩
          ∧ IsSplit "module" other ⟨done.fields, arguments⟩
          ∧ arguments.Perm done.arguments := by
  have hfloat : (Scalar.float two).IsValue := rfl
  have hbody : (Node.map countedModule).Holds Scalar.IsValue :=
    ⟨by decide, trivial, hfloat, trivial, trivial⟩
  exact ⟨hbody, rfl, (extract_split "module" "network" hbody).2 rfl⟩

theorem extract_count {node : Node} {e : UnsupportedValue} (name : String)
    (h : node.canonical = .error e) :
    extract "resource" name [("count", node)] = .error (.unsupportedValue e) := by
  have hkey : MetaArg.ofKey? "resource" "count" = some .count := rfl
  have hnote : MetaArg.count.note node .none = .error e := by
    rw [MetaArg.note, h]
    rfl
  simp only [extract, extractFrom, hkey, hnote]
  rfl

/-- A document whose count has too many digits: its meta-argument has the right shape, but there is
no text to note for it. -/
theorem extract_long_count : ∃ body : Body,
    Node.ofRaw (.map [("count", .int (tenTo 4300))]) = .ok (.map body) ∧ body.sanitize = body
      ∧ body.find? (misshapen "resource") = none
      ∧ extract "resource" "web" body = .error (.unsupportedValue ⟨"int"⟩) :=
  ⟨[("count", .scalar (.int (tenTo 4300)))], rfl, rfl, rfl,
    extract_count "web" (canonical_tenTo (Nat.le_refl _))⟩

end TerraIndex
