import TerraIndex.Entity.Export
import TerraIndex.Proofs.Document.Paths
import TerraIndex.Proofs.Entity.Extraction
import TerraIndex.Proofs.Hcl.Tree
/-!
# Builders settle

What is built from a tree that a value was converted to is either an entity or a mismatch: an
argument that has not the shape it must have (`Settles`). Nothing else can stop a builder, because
whatever it takes a text or a value from has one. In the row of the entity each meta-argument stands
in a column of its own, which holds a value of the type that it is declared with (`TypedRow`).
-/

namespace TerraIndex

open Json

/-- The error of an argument that has not the shape it must have. -/
def BuildError.IsMismatch (e : BuildError) : Prop :=
  ∃ kind name key expected, e = .typeMismatch kind name key expected

/-- The result has the property, or it is a mismatch. -/
inductive Settles {α : Type} (P : α → Prop) : Except BuildError α → Prop
  | ok {a : α} (h : P a) : Settles P (.ok a)
  | mismatch {e : BuildError} (h : e.IsMismatch) : Settles P (.error e)

namespace Settles

variable {α β : Type} {P Q : α → Prop} {R : β → Prop} {x : Except BuildError α}

theorem imp (h : Settles P x) (hPQ : ∀ a, P a → Q a) : Settles Q x := by
  cases h with
  | ok ha => exact .ok (hPQ _ ha)
  | mismatch he => exact .mismatch he

theorem bind {f : α → Except BuildError β} (h : Settles P x) (hf : ∀ a, P a → Settles R (f a)) :
    Settles R (x >>= f) := by
  cases h with
  | ok ha => exact hf _ ha
  | mismatch he => exact .mismatch he

theorem map {f : α → β} (h : Settles P x) (hf : ∀ a, P a → R (f a)) : Settles R (f <$> x) := by
  cases h with
  | ok ha => exact .ok (hf _ ha)
  | mismatch he => exact .mismatch he

theorem supported {result : Except UnsupportedValue α} (h : ∃ a, result = .ok a) :
    Settles (fun _ => True) (supported result) := by
  obtain ⟨a, rfl⟩ := h
  exact .ok trivial

theorem isMismatch {e : BuildError} (h : Settles P (.error e)) : e.IsMismatch := by
  cases h with
  | mismatch he => exact he

end Settles

section Columns

/-- The types that columns are declared with. -/
inductive ColumnType
  | text
  | flag
  | texts
  | entries
  | number

/-- The value is of the type. A count need not be a number, so its column can be empty. -/
def ColumnType.Admits : ColumnType → Raw → Prop
  | text, value => ∃ s, value = .text s
  | flag, value => ∃ b, value = .bool b
  | texts, value => ∃ ts : List String, value = .list (ts.map .text)
  | entries, value => ∃ m, value = .map m
  | number, value => value = .null ∨ ∃ n, value = .int n

namespace MetaArg

/-- The columns that hold a meta-argument. -/
def columns : MetaArg → List (String × ColumnType)
  | count => [("count_src", .text), ("count", .number)]
  | forEach => [("for_each", .text)]
  | dependsOn => [("depends_on", .texts)]
  | provider => [("provider", .text)]
  | lifecycle => [("lifecycle", .entries)]
  | providers => [("providers", .entries)]
  | moduleSource => [("module_source", .text)]
  | version => [("version", .text)]
  | aliasName => [("alias", .text)]
  | description => [("description", .text)]
  | sensitive => [("sensitive", .flag)]
  | nullable => [("nullable", .flag)]
  | value => [("value", .text)]
  | defaultValue => [("default_value", .text)]
  | type => [("type", .text)]

/-- What the columns of a meta-argument hold that is not there. -/
def unset : MetaArg → Raw
  | sensitive => .bool false
  | _ => .null

theorem forall_table {kind : String} {Q : MetaArg → Prop} (h : ∀ entry ∈ table kind, Q entry.2) :
    ∀ arg, ofKey? kind arg.key = some arg → Q arg :=
  fun _ harg => h _ (mem_of_entryAt? harg)

end MetaArg

/-- A row shows the meta-arguments of a body: the columns of those that the body has hold values of
their types, and the columns of the others are not set. -/
def TypedRow (kind : String) (body : Body) (row : RawMap) : Prop :=
  ∀ arg, MetaArg.ofKey? kind arg.key = some arg → ∀ column ∈ arg.columns,
    ∃ cell, entryAt? row column.1 = some cell
      ∧ if body.has arg.key then column.2.Admits cell else cell = arg.unset

namespace MetaFields

/-- What the fields hold of a meta-argument, as cells of a row. -/
def cells (fields : MetaFields) : MetaArg → RawMap
  | .count => [("count_src", .ofText? fields.countSource), ("count", .ofOption .int fields.count)]
  | .forEach => [("for_each", .ofText? fields.forEach)]
  | .dependsOn => [("depends_on", .ofTexts? fields.dependsOn)]
  | .provider => [("provider", .ofText? fields.provider)]
  | .lifecycle => [("lifecycle", .ofMap? fields.lifecycle)]
  | .providers => [("providers", .ofMap? fields.providers)]
  | .moduleSource => [("module_source", .ofText? fields.moduleSource)]
  | .version => [("version", .ofText? fields.version)]
  | .aliasName => [("alias", .ofText? fields.aliasName)]
  | .description => [("description", .ofText? fields.description)]
  | .sensitive => [("sensitive", .bool (fields.sensitive.getD false))]
  | .nullable => [("nullable", .ofOption .bool fields.nullable)]
  | .value => [("value", .ofText? fields.value)]
  | .defaultValue => [("default_value", .ofText? fields.defaultValue)]
  | .type => [("type", .ofText? fields.type)]

/-- The row of what the fields hold of the meta-arguments of a kind. -/
def row (fields : MetaFields) (kind : String) : RawMap :=
  (MetaArg.table kind).flatMap fun entry => fields.cells entry.2

variable {fields : MetaFields} {arg : MetaArg} {node : Node} {value : Noted}

theorem cells_of_none (h : fields.noted arg = .none) :
    ∀ column ∈ arg.columns, entryAt? (fields.cells arg) column.1 = some arg.unset := by
  obtain ⟨c, cs, fe, d, p, l, ps, ms, v, a, de, se, nu, va, df, ty⟩ := fields
  cases arg with
  | count =>
    simp only [noted] at h
    split_ifs at h with hnone
    obtain ⟨rfl, rfl⟩ := hnone
    exact List.forall_mem_cons.mpr ⟨rfl, List.forall_mem_singleton.mpr rfl⟩
  | _ =>
    obtain rfl := Option.map_eq_none_iff.mp h
    exact List.forall_mem_singleton.mpr rfl

theorem cells_of_reading (hread : arg.reading? node = some value)
    (h : fields.noted arg = some value) : ∀ column ∈ arg.columns,
    ∃ cell, entryAt? (fields.cells arg) column.1 = some cell ∧ column.2.Admits cell := by
  obtain ⟨c, cs, fe, d, p, l, ps, ms, v, a, de, se, nu, va, df, ty⟩ := fields
  cases arg with
  | count =>
    obtain ⟨source, -, rfl⟩ := Option.map_eq_some_iff.mp hread
    simp only [noted] at h
    split_ifs at h
    obtain ⟨rfl, rfl⟩ := Noted.number.inj (Option.some.inj h)
    refine List.forall_mem_cons.mpr ⟨⟨_, rfl, _, rfl⟩, List.forall_mem_singleton.mpr ⟨_, rfl, ?_⟩⟩
    cases node.wholeNumber? with
    | none => exact Or.inl rfl
    | some n => exact Or.inr ⟨n, rfl⟩
  | _ =>
    obtain ⟨found, rfl, -⟩ := Option.map_eq_some_iff.mp h
    exact List.forall_mem_singleton.mpr ⟨_, rfl, _, rfl⟩

end MetaFields

end Columns

section Extraction

/-- What the fields hold of a meta-argument of a body is what is read from one of its nodes in the
body, and there is nothing of one that is not there. -/
def MetaFields.ReadFrom (kind : String) (body : Body) (fields : MetaFields) : Prop :=
  ∀ arg, MetaArg.ofKey? kind arg.key = some arg →
    (∃ node value, (arg.key, node) ∈ body ∧ arg.reading? node = some value
      ∧ fields.noted arg = some value)
    ∨ body.has arg.key = false ∧ fields.noted arg = .none

section Extractions

variable {kind : String} {body : Body}

theorem has_of_mem {key : String} {node : Node} (h : (key, node) ∈ body) : body.has key = true :=
  mem_keys_iff.mp (List.mem_map_of_mem (f := Prod.fst) h)

/-- Extraction ends or stops at a mismatch. What it holds in the end of a meta-argument it has read
from a node of it, or it was there before. -/
theorem extractFrom_settles (kind name : String) : ∀ (body : Body) (done : Extraction),
    (∀ entry ∈ body, entry.2.Writable) →
    Settles (fun last => ∀ arg, (∃ node value, (arg.key, node) ∈ body
        ∧ arg.reading? node = some value ∧ last.fields.noted arg = some value)
      ∨ metaNode? kind body arg = none ∧ last.fields.noted arg = done.fields.noted arg)
      (extractFrom kind name done body)
  | [], done, _ => .ok fun arg => .inr ⟨by unfold metaNode?; split_ifs <;> rfl, rfl⟩
  | (key, node) :: body, done, hbody => by
    obtain ⟨hnode, hbody⟩ := List.forall_mem_cons.mp hbody
    cases hshape : misshapen kind (key, node) with
    | true =>
      have hentries : ∀ entry ∈ (key, node) :: body, entry.2.Writable :=
        List.forall_mem_cons.mpr ⟨hnode, hbody⟩
      obtain ⟨arg, -, herror⟩ : ∃ arg, MetaArg.ofKey? kind key = some arg
          ∧ extractFrom kind name done ((key, node) :: body)
            = .error (.typeMismatch (kindText kind) name key arg.shape) :=
        extractFrom_misshapen done hentries (List.find?_cons_of_pos hshape)
      rw [herror]
      exact .mismatch ⟨_, _, _, _, rfl⟩
    | false =>
      rcases extractFrom_cons name body done hshape hnode with
        ⟨hkey, raw, -, hnext⟩ | ⟨arg, noted, value, hkey, hvalue, hnoted, hnext⟩
      · rw [hnext]
        refine (extractFrom_settles kind name body _ hbody).imp fun last hlast other => ?_
        rcases hlast other with ⟨found, value, hmem, hread⟩ | hnone
        · exact .inl ⟨found, value, List.mem_cons_of_mem _ hmem, hread⟩
        · rw [metaNode?_cons_plain hkey]
          exact .inr hnone
      · rw [hnext]
        refine (extractFrom_settles kind name body _ hbody).imp fun last hlast other => ?_
        rcases hlast other with ⟨found, value, hmem, hread⟩ | ⟨hnone, hlast⟩
        · exact .inl ⟨found, value, List.mem_cons_of_mem _ hmem, hread⟩
        · rw [hnoted] at hlast
          split_ifs at hlast with hsame
          · obtain rfl := MetaArg.key_of_ofKey? hkey
            exact .inl ⟨node, value, hsame ▸ List.mem_cons_self .., hsame ▸ hvalue, hlast⟩
          · rw [metaNode?_cons_ne hkey hsame]
            exact .inr ⟨hnone, hlast⟩

theorem extract_readFrom (kind name : String) (hbody : ∀ entry ∈ body, entry.2.Writable) :
    Settles (fun done => done.fields.ReadFrom kind body) (extract kind name body) := by
  refine (extractFrom_settles kind name body ⟨.none, []⟩ hbody).imp fun done hdone arg harg => ?_
  refine (hdone arg).imp_right fun ⟨hnone, hnoted⟩ => ?_
  rw [metaNode?, if_pos harg] at hnone
  rw [Body.has, hasEntry, ← Body.child?, hnone, hnoted, noted_none]
  exact ⟨rfl, rfl⟩

/-- The row holds the cells of the meta-arguments of a kind. -/
def MetaFields.ShownIn (kind : String) (row : RawMap) (fields : MetaFields) : Prop :=
  ∀ arg, MetaArg.ofKey? kind arg.key = some arg → ∀ column ∈ arg.columns,
    entryAt? row column.1 = entryAt? (fields.cells arg) column.1

/-- Whether a row holds the cells of a kind is seen by going through its table. -/
theorem MetaFields.shownIn_of_eq {row : RawMap} {fields : MetaFields}
    (h : (MetaArg.table kind).map (fun entry =>
        entry.2.columns.map fun column => entryAt? row column.1)
      = (MetaArg.table kind).map fun entry =>
        entry.2.columns.map fun column => entryAt? (fields.cells entry.2) column.1) :
    fields.ShownIn kind row :=
  MetaArg.forall_table fun entry hentry =>
    List.map_inj_left.mp (List.map_inj_left.mp h entry hentry)

theorem typedRow_of_shownIn {fields : MetaFields} {row : RawMap}
    (hfields : fields.ReadFrom kind body) (hrow : fields.ShownIn kind row) :
    TypedRow kind body row := by
  intro arg harg column hcolumn
  rw [hrow arg harg column hcolumn]
  rcases hfields arg harg with ⟨node, value, hmem, hread, hnoted⟩ | ⟨hnone, hnoted⟩
  · simp only [has_of_mem hmem, if_true]
    exact MetaFields.cells_of_reading hread hnoted column hcolumn
  · simp only [hnone, Bool.false_eq_true, if_false]
    exact ⟨_, MetaFields.cells_of_none hnoted column hcolumn, rfl⟩

theorem MetaFields.shownIn_row (fields : MetaFields) (kind : String) :
    fields.ShownIn kind (fields.row kind) := by
  refine MetaFields.shownIn_of_eq ?_
  unfold MetaFields.row MetaArg.table
  split_ifs <;> rfl

/-- Whatever the kind, extraction settles with the meta-arguments of the body. -/
theorem extract_settles (kind name : String) (hbody : ∀ entry ∈ body, entry.2.Writable) :
    Settles (fun done => TypedRow kind body (done.fields.row kind)) (extract kind name body) :=
  (extract_readFrom kind name hbody).imp fun done hdone =>
    typedRow_of_shownIn hdone (done.fields.shownIn_row kind)

/-- No meta-argument has a reserved key, so none is lost with these keys. -/
theorem typedRow_sanitize {row : RawMap} (h : TypedRow kind body.sanitize row) :
    TypedRow kind body row := by
  intro arg harg column hcolumn
  have hkey : isReserved arg.key = false := by cases arg <;> rfl
  have hhas : body.sanitize.has arg.key = body.has arg.key := by
    simp only [Body.has, hasEntry, entryAt?_sanitize, hkey, Bool.false_eq_true, if_false,
      Option.isSome_map]
  exact hhas ▸ h arg harg column hcolumn

end Extractions

end Extraction

/-- The body that the meta-arguments of a planned resource are read from. -/
def plannedBody (entry : Body) : Body := renamed entry "provider_name" "provider"

/-- The body that the meta-arguments of an instance are read from. -/
def instanceBody (resource inst : Body) : Body :=
  renamed resource "provider" "provider" ++ renamed inst "dependencies" "depends_on"

section Builders

variable {body : Body} (place : Located) (type name : String)

/-- The resource holds the meta-arguments as they are noted. -/
structure Resource.Notes (fields : MetaFields) (r : Resource) : Prop where
  count : r.count = fields.count
  countSource : r.countSource = fields.countSource
  forEach : r.forEach = fields.forEach
  dependsOn : r.dependsOn = fields.dependsOn
  provider : r.provider = fields.provider
  lifecycle : r.lifecycle = fields.lifecycle

theorem Resource.Notes.typedRow {fields : MetaFields} {r : Resource} (h : r.Notes fields)
    (hfields : fields.ReadFrom "resource" body) : TypedRow "resource" body r.row := by
  refine typedRow_of_shownIn hfields (MetaFields.shownIn_of_eq ?_)
  obtain ⟨c, cs, fe, d, p, l, ps, ms, v, a, de, se, nu, va, df, ty⟩ := fields
  obtain ⟨rfl, rfl, rfl, rfl, rfl, rfl⟩ := h
  rfl

variable (hbody : ∀ entry ∈ body, entry.2.Writable)
include hbody

theorem resource_settles : Settles (fun r => TypedRow "resource" body (Resource.row r))
    (Resource.ofBlock place type name body) := by
  have hsanitized := writable_map.mp (sanitize_writable (.map body) (writable_map.mpr hbody))
  refine (extract_readFrom "resource" _ hsanitized).bind fun done hdone => .ok ?_
  exact typedRow_sanitize (Resource.Notes.typedRow ⟨rfl, rfl, rfl, rfl, rfl, rfl⟩ hdone)

theorem dataSource_settles : Settles (fun d => TypedRow "data" body (DataSource.row d))
    (DataSource.ofBlock place type name body) := by
  refine (extract_readFrom "data" _ hbody).bind fun done hdone => .ok ?_
  exact typedRow_of_shownIn hdone (MetaFields.shownIn_of_eq rfl)

theorem module_settles : Settles (fun m => TypedRow "module" body (Module.row m))
    (Module.ofBlock place name body) := by
  refine (extract_readFrom "module" name hbody).bind fun done hdone => .ok ?_
  exact typedRow_of_shownIn hdone (MetaFields.shownIn_of_eq rfl)

theorem provider_settles : Settles (fun p => TypedRow "provider" body (Provider.row p))
    (Provider.ofBlock place name body) := by
  refine (extract_readFrom "provider" name hbody).bind fun done hdone => .ok ?_
  exact typedRow_of_shownIn hdone (MetaFields.shownIn_of_eq rfl)

theorem output_settles : Settles (fun o => TypedRow "output" body (Output.row o))
    (Output.ofBlock place name body) := by
  refine (extract_readFrom "output" name hbody).bind fun done hdone => .ok ?_
  exact typedRow_of_shownIn hdone (MetaFields.shownIn_of_eq rfl)

theorem variable_settles (withValidation : Bool) :
    Settles (fun v => TypedRow "variable" body (Variable.row v))
      (Variable.ofBlock place name body withValidation) := by
  refine (extract_readFrom "variable" name hbody).bind fun done hdone => .ok ?_
  exact typedRow_of_shownIn hdone (MetaFields.shownIn_of_eq rfl)

theorem requireMap_settles (key address : String) :
    Settles (fun _ => True) (requireMap body key address) := by
  unfold requireMap
  split
  · exact .ok trivial
  · rename_i entries hentries
    have hmap : (Node.map entries).Writable :=
      hbody _ (mem_of_entryAt? (present?_some hentries))
    exact (Settles.supported hmap.exists_toRawEntries).map fun _ _ => trivial
  · exact .mismatch ⟨_, _, _, _, rfl⟩

/-- The value under a key is given, and it can be shown. -/
theorem rawAt_settles (key : String) :
    Settles (fun raw => ∃ text, raw.display? = some text) (rawAt body key) := by
  unfold rawAt
  split
  · rename_i node hnode
    have hwritable := hbody _ (mem_of_entryAt? hnode)
    obtain ⟨raw, hraw⟩ := hwritable.exists_toRaw
    rw [hraw]
    exact .ok (exists_display hwritable hraw)
  · exact .ok ⟨_, rfl⟩

theorem renamed_writable (key as : String) : ∀ entry ∈ renamed body key as, entry.2.Writable := by
  unfold renamed
  split
  · rename_i node hnode
    exact List.forall_mem_singleton.mpr (hbody (key, node) (mem_of_entryAt? hnode))
  · exact List.forall_mem_nil _

theorem planned_settles :
    Settles (fun r => TypedRow "resource" (plannedBody body) (Resource.row r))
      (Resource.ofPlan place body) := by
  have hentries : ∀ entry ∈ plannedBody body, entry.2.Writable := renamed_writable hbody _ _
  refine (extract_readFrom "resource" _ hentries).bind fun done hdone => ?_
  refine (requireMap_settles hbody _ _).bind fun values _ => ?_
  refine (rawAt_settles hbody _).bind fun index _ => .ok ?_
  exact Resource.Notes.typedRow ⟨rfl, rfl, rfl, rfl, rfl, rfl⟩ hdone

omit hbody in
theorem instanceAddress_settles {index : Raw} (h : ∃ text, index.display? = some text) :
    Settles (fun _ => True) (State.instanceAddress body index) := by
  obtain ⟨text, htext⟩ := h
  obtain ⟨shown, hshown⟩ : ∃ shown, indexText? index = some shown := by
    unfold indexText?
    split
    · exact ⟨_, rfl⟩
    · exact ⟨_, rfl⟩
    · exact ⟨_, by rw [htext]; rfl⟩
  rw [State.instanceAddress, instanceAddress?, hshown]
  exact .ok trivial

theorem instance_settles {inst : Body} (hinst : ∀ entry ∈ inst, entry.2.Writable) :
    Settles (fun r => TypedRow "resource" (instanceBody body inst) (Resource.row r))
      (Resource.ofInstance place body inst) := by
  have hentries : ∀ entry ∈ instanceBody body inst, entry.2.Writable :=
    List.forall_mem_append.mpr
      ⟨renamed_writable hbody _ _, renamed_writable hinst _ _⟩
  refine (rawAt_settles hinst _).bind fun index hindex => ?_
  refine (instanceAddress_settles hindex).bind fun address _ => ?_
  refine (extract_readFrom "resource" _ hentries).bind fun done hdone => ?_
  refine (requireMap_settles hinst _ _).bind fun attributes _ => ?_
  cases attributes with
  | some values => exact .ok (Resource.Notes.typedRow ⟨rfl, rfl, rfl, rfl, rfl, rfl⟩ hdone)
  | none =>
    refine (requireMap_settles hinst _ _).bind fun flat _ => .ok ?_
    exact Resource.Notes.typedRow ⟨rfl, rfl, rfl, rfl, rfl, rfl⟩ hdone

end Builders

end TerraIndex
