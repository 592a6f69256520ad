import Mathlib.Data.List.ReduceOption
import TerraIndex.Entity.Export
import TerraIndex.Proofs.Entity.Extraction
/-!
# What the rows of entities are made of

A cell of a row is null, a boolean, text or a list of texts, or it is one of the few parts of an
entity that come from a document: its maps, the sources of its values, its count and its index
(`Entity.cells`). Each of them comes from the nodes that the entity is built from (`MadeOf`).
-/

namespace TerraIndex

open Json

namespace Entity

/-- The maps of an entity. -/
def maps : Entity → List RawMap
  | .resource r =>
    [r.lifecycle, r.arguments, r.attributes, r.standardAttributes].reduceOption
  | .dataSource d => d.arguments :: d.lifecycle.toList
  | .module m => m.arguments :: m.providers.toList
  | .output o => [o.arguments]
  | .variable v => [v.arguments]
  | .provider p => [p.arguments]
  | .localValue _ => []

/-- The texts of an entity that are JSON. -/
def sources : Entity → List String
  | .resource r => [r.countSource, r.forEach].reduceOption
  | .dataSource d => [d.countSource, d.forEach].reduceOption
  | .module m => [m.countSource, m.forEach].reduceOption
  | .output o => o.value.toList
  | .variable v => [v.defaultValue, v.value].reduceOption
  | .provider _ => []
  | .localValue l => [l.value]

def count? : Entity → Option Int
  | .resource r => r.count
  | .dataSource d => d.count
  | .module m => m.count
  | _ => none

def index : Entity → Raw
  | .resource r => r.index
  | _ => .null

end Entity

/-- The fields of rows whose texts are JSON. -/
def sourceFields : List String := ["count_src", "for_each", "value", "default_value"]

/-- What a row of an entity can hold in a field. -/
inductive Cell (entity : Entity) (field : String) : Raw → Prop
  | null : Cell entity field .null
  | flag (b : Bool) : Cell entity field (.bool b)
  | text (s : String) (hfield : field ∉ sourceFields) : Cell entity field (.text s)
  | texts (ts : List String) : Cell entity field (.list (ts.map .text))
  | source {s : String} (hs : s ∈ entity.sources) : Cell entity field (.text s)
  | map {m : RawMap} (hm : m ∈ entity.maps) : Cell entity field (.map m)
  | count {n : Int} (hn : entity.count? = some n) : Cell entity field (.int n)
  | line {n : Int} (hn : n = entity.place.span.startLine ∨ n = entity.place.span.endLine) :
    Cell entity field (.int n)
  | index (hfield : field = "index") : Cell entity field entity.index

namespace Cell

variable {entity : Entity} {field : String}

theorem ofOption {α : Type} {f : α → Raw} {value : Option α}
    (h : ∀ a, value = some a → Cell entity field (f a)) :
    Cell entity field (.ofOption f value) := by
  cases value with
  | none => exact .null
  | some a => exact h a rfl

theorem text? (value : Option String) (hfield : field ∉ sourceFields) :
    Cell entity field (.ofText? value) :=
  ofOption fun s _ => .text s hfield

theorem texts? (value : Option (List String)) : Cell entity field (.ofTexts? value) :=
  ofOption fun ts _ => .texts ts

theorem flag? (value : Option Bool) : Cell entity field (.ofOption .bool value) :=
  ofOption fun b _ => .flag b

theorem source? {value : Option String} (h : ∀ s, value = some s → s ∈ entity.sources) :
    Cell entity field (.ofText? value) :=
  ofOption fun s hs => .source (h s hs)

theorem map? {value : Option RawMap} (h : ∀ m, value = some m → m ∈ entity.maps) :
    Cell entity field (.ofMap? value) :=
  ofOption fun m hm => .map (h m hm)

theorem count? : Cell entity field (.ofOption .int entity.count?) := ofOption fun _ => .count

end Cell

theorem cells_place (entity : Entity) {fields : RawMap}
    (h : ∀ cell ∈ fields, Cell entity cell.1 cell.2) :
    ∀ cell ∈ entity.place.row ++ fields, Cell entity cell.1 cell.2 := by
  simp only [Located.row, List.cons_append, List.nil_append, List.forall_mem_cons]
  exact ⟨.text _ (by decide), .line (.inl rfl), .line (.inr rfl), .text _ (by decide), h⟩

theorem mem_reduceOption {α : Type} {values : List (Option α)} {value : Option α} {a : α}
    (hvalue : value ∈ values) (ha : value = some a) : a ∈ values.reduceOption :=
  List.reduceOption_mem_iff.mpr (ha ▸ hvalue)

/-- A row holds nothing but cells. -/
theorem Entity.cells : ∀ (entity : Entity), ∀ cell ∈ entity.row, Cell entity cell.1 cell.2
  | .resource r => by
    refine cells_place (.resource r) ?_
    simp only [List.forall_mem_cons]
    exact ⟨.text _ (by decide), .text _ (by decide), .text _ (by decide), .text _ (by decide),
      .index rfl, .count?, .source? fun _ => mem_reduceOption (by simp),
      .source? fun _ => mem_reduceOption (by simp), .texts? _, .text? _ (by decide),
      .map? fun _ => mem_reduceOption (by simp), .map? fun _ => mem_reduceOption (by simp),
      .map? fun _ => mem_reduceOption (by simp), .map? fun _ => mem_reduceOption (by simp), nofun⟩
  | .dataSource d => by
    refine cells_place (.dataSource d) ?_
    simp only [List.forall_mem_cons]
    exact ⟨.text _ (by decide), .text _ (by decide), .count?,
      .source? fun _ => mem_reduceOption (by simp), .source? fun _ => mem_reduceOption (by simp),
      .texts? _, .text? _ (by decide), .map? fun m hm => by simp [Entity.maps, hm],
      .map (List.mem_cons_self ..), nofun⟩
  | .module m => by
    refine cells_place (.module m) ?_
    simp only [List.forall_mem_cons]
    exact ⟨.text _ (by decide), .text? _ (by decide), .text? _ (by decide), .count?,
      .source? fun _ => mem_reduceOption (by simp), .source? fun _ => mem_reduceOption (by simp),
      .texts? _, .map? fun m hm => by simp [Entity.maps, hm], .map (List.mem_cons_self ..), nofun⟩
  | .output o => by
    refine cells_place (.output o) ?_
    simp only [List.forall_mem_cons]
    exact ⟨.text _ (by decide), .source? fun s hs => by simp [Entity.sources, hs],
      .text? _ (by decide), .flag _, .texts? _, .map (List.mem_cons_self ..), nofun⟩
  | .variable v => by
    refine cells_place (.variable v) ?_
    simp only [List.forall_mem_cons]
    exact ⟨.text _ (by decide), .text? _ (by decide), .source? fun _ => mem_reduceOption (by simp),
      .source? fun _ => mem_reduceOption (by simp), .text? _ (by decide), .flag _, .flag? _,
      .text _ (by decide), .map (List.mem_cons_self ..), nofun⟩
  | .provider p => by
    refine cells_place (.provider p) ?_
    simp only [List.forall_mem_cons]
    exact ⟨.text _ (by decide), .text? _ (by decide), .text? _ (by decide),
      .map (List.mem_cons_self ..), nofun⟩
  | .localValue l => by
    refine cells_place (.localValue l) ?_
    simp only [List.forall_mem_cons]
    exact ⟨.text _ (by decide), .source (List.mem_cons_self ..), nofun⟩

section Entities

/-- What the fields hold of values, maps and numbers comes from nodes with a property. -/
structure MetaFields.From (nodes : Node → Prop) (fields : MetaFields) : Prop where
  countSource : ∀ s, fields.countSource = some s → ∃ node, nodes node ∧ node.canonical = .ok s
  forEach : ∀ s, fields.forEach = some s → ∃ node, nodes node ∧ node.canonical = .ok s
  value : ∀ s, fields.value = some s → ∃ node, nodes node ∧ node.canonical = .ok s
  defaultValue : ∀ s, fields.defaultValue = some s → ∃ node, nodes node ∧ node.canonical = .ok s
  lifecycle : ∀ m, fields.lifecycle = some m → ∃ node, nodes node ∧ node.asMap = .ok m
  providers : ∀ m, fields.providers = some m → ∃ node, nodes node ∧ node.asMap = .ok m
  count : ∀ n, fields.count = some n → ∃ node, nodes node ∧ node.wholeNumber? = some n

theorem from_none (nodes : Node → Prop) : MetaFields.none.From nodes :=
  ⟨nofun, nofun, nofun, nofun, nofun, nofun, nofun⟩

section Made

variable {nodes : Node → Prop} {kind name : String} {body : Body}

theorem note_from {arg : MetaArg} {node : Node} {fields noted : MetaFields}
    (h : arg.note node fields = .ok noted) (hfields : fields.From nodes) (hnode : nodes node) :
    noted.From nodes := by
  cases arg with
  | count =>
    obtain ⟨source, hsource, h⟩ := bind_ok h
    cases h
    exact { hfields with
      countSource := fun s hs => ⟨node, hnode, Option.some.inj hs ▸ hsource⟩
      count := fun n hn => ⟨node, hnode, hn⟩ }
  | forEach =>
    obtain ⟨source, hsource, h⟩ := bind_ok h
    cases h
    exact { hfields with forEach := fun s hs => ⟨node, hnode, Option.some.inj hs ▸ hsource⟩ }
  | value =>
    obtain ⟨source, hsource, h⟩ := bind_ok h
    cases h
    exact { hfields with value := fun s hs => ⟨node, hnode, Option.some.inj hs ▸ hsource⟩ }
  | defaultValue =>
    obtain ⟨source, hsource, h⟩ := bind_ok h
    cases h
    exact { hfields with defaultValue := fun s hs => ⟨node, hnode, Option.some.inj hs ▸ hsource⟩ }
  | lifecycle =>
    obtain ⟨values, hvalues, h⟩ := bind_ok h
    cases h
    exact { hfields with lifecycle := fun m hm => ⟨node, hnode, Option.some.inj hm ▸ hvalues⟩ }
  | providers =>
    obtain ⟨values, hvalues, h⟩ := bind_ok h
    cases h
    exact { hfields with providers := fun m hm => ⟨node, hnode, Option.some.inj hm ▸ hvalues⟩ }
  | dependsOn =>
    obtain ⟨texts, -, h⟩ := bind_ok h
    cases h
    exact { hfields with }
  | _ =>
    cases h
    exact { hfields with }

theorem supported_ok {α : Type} {result : Except UnsupportedValue α} {a : α}
    (h : supported result = .ok a) : result = .ok a := mapError_ok h

theorem toRawEntries_snoc {entries : Body} {key : String} {node : Node} {raw : Raw} :
    ∀ {raws : RawMap}, Node.toRawEntries entries = .ok raws → node.toRaw = .ok raw →
    Node.toRawEntries (entries ++ [(key, node)]) = .ok (raws ++ [(key, raw)]) := by
  induction entries with
  | nil =>
    intro raws hraws hraw
    cases hraws
    rw [List.nil_append, Node.toRawEntries, hraw]
    rfl
  | cons entry entries ih =>
    intro raws hraws hraw
    obtain ⟨first, hfirst, hraws⟩ := bind_ok hraws
    obtain ⟨rest, hrest, hraws⟩ := bind_ok hraws
    cases hraws
    rw [List.cons_append, Node.toRawEntries, hfirst, ok_bind, ih hrest hraw]
    rfl

/-- An extraction that began with some of the entries and has gone on with the others. -/
theorem extractFrom_from : ∀ (rest seen : Body) {done last : Extraction},
    extractFrom kind name done rest = .ok last →
    Node.toRawEntries (plainEntries kind seen) = .ok done.arguments → done.fields.From nodes →
    (∀ entry ∈ rest, nodes entry.2) →
    last.fields.From nodes
      ∧ Node.toRawEntries (plainEntries kind (seen ++ rest)) = .ok last.arguments
  | [], seen, _, _, h, hseen, hfields, _ => by
    cases h
    rw [List.append_nil]
    exact ⟨hfields, hseen⟩
  | (key, node) :: rest, seen, done, last, h, hseen, hfields, hnodes => by
    obtain ⟨hnode, hrest⟩ := List.forall_mem_cons.mp hnodes
    rw [List.append_cons]
    unfold extractFrom at h
    cases harg : MetaArg.ofKey? kind key with
    | none =>
      simp only [harg] at h
      obtain ⟨raw, hraw, h⟩ := bind_ok h
      refine extractFrom_from rest _ h ?_ hfields hrest
      rw [plainEntries, List.filter_append, List.filter_cons_of_pos (by simp [harg]),
        List.filter_nil]
      exact toRawEntries_snoc hseen (supported_ok hraw)
    | some arg =>
      simp only [harg] at h
      split_ifs at h
      obtain ⟨fields, hnoted, h⟩ := bind_ok h
      refine extractFrom_from rest _ h ?_ (note_from (supported_ok hnoted) hfields hnode) hrest
      rw [plainEntries, List.filter_append, List.filter_cons_of_neg (by simp [harg]),
        List.filter_nil, List.append_nil]
      exact hseen

theorem extract_from {done : Extraction} (h : extract kind name body = .ok done) :
    done.fields.From (· ∈ body.map Prod.snd)
      ∧ Node.toRawEntries (plainEntries kind body) = .ok done.arguments :=
  extractFrom_from _ [] h rfl (from_none _) fun _ => List.mem_map_of_mem

end Made

/-- The parts of an entity come from entries, which its maps hold as they are, and from the values
and maps that nodes stand for. -/
structure Entity.MadeOf (plain : Body) (nodes : List Node) (entity : Entity) : Prop where
  maps : ∀ m ∈ entity.maps, Node.toRawEntries plain = .ok m ∨ ∃ node ∈ nodes, node.asMap = .ok m
  sources : ∀ s ∈ entity.sources, ∃ node ∈ nodes, node.canonical = .ok s
  count : ∀ n, entity.count? = some n → ∃ node ∈ nodes, node.wholeNumber? = some n
  index : entity.index = .null ∨ ∃ node ∈ nodes, node.toRaw = .ok entity.index

/-- An entity is built from a body of a kind. -/
def Entity.BuiltFrom (kind : String) (body : Body) (entity : Entity) : Prop :=
  entity.MadeOf (plainEntries kind body) (body.map Prod.snd)

section Builders

variable {place : Located} {type name : String} {body : Body}

/-- The members of a list of values are the values that are there. -/
theorem forall_mem_reduceOption {α : Type} {Q : α → Prop} {values : List (Option α)}
    (h : ∀ value ∈ values, ∀ a, value = some a → Q a) : ∀ a ∈ values.reduceOption, Q a :=
  fun a ha => h (some a) (List.reduceOption_mem_iff.mp ha) a rfl

theorem builtFrom_resource {r : Resource} (h : Resource.ofBlock place type name body = .ok r) :
    (Entity.resource r).BuiltFrom "resource" body.sanitize := by
  obtain ⟨⟨fields, arguments⟩, hextract, h⟩ := bind_ok h
  obtain ⟨hfrom, harguments⟩ := extract_from hextract
  cases h
  refine ⟨forall_mem_reduceOption ?_, forall_mem_reduceOption ?_, hfrom.count, .inl rfl⟩
  · simp only [List.forall_mem_cons]
    have hstandard : ∀ m, some arguments = some m →
        Node.toRawEntries (plainEntries "resource" body.sanitize) = .ok m :=
      fun m hm => Option.some.inj hm ▸ harguments
    exact ⟨fun m hm => .inr (hfrom.lifecycle m hm), fun m hm => .inl (hstandard m hm), nofun,
      fun m hm => .inl (hstandard m hm), nofun⟩
  · simp only [List.forall_mem_cons]
    exact ⟨hfrom.countSource, hfrom.forEach, nofun⟩

theorem builtFrom_dataSource {d : DataSource}
    (h : DataSource.ofBlock place type name body = .ok d) :
    (Entity.dataSource d).BuiltFrom "data" body := by
  obtain ⟨⟨fields, arguments⟩, hextract, h⟩ := bind_ok h
  obtain ⟨hfrom, harguments⟩ := extract_from hextract
  cases h
  refine ⟨List.forall_mem_cons.mpr ⟨.inl harguments, fun m hm => ?_⟩, forall_mem_reduceOption ?_,
    hfrom.count, .inl rfl⟩
  · exact .inr (hfrom.lifecycle m (Option.mem_toList.mp hm))
  · simp only [List.forall_mem_cons]
    exact ⟨hfrom.countSource, hfrom.forEach, nofun⟩

theorem builtFrom_module {m : Module} (h : Module.ofBlock place name body = .ok m) :
    (Entity.module m).BuiltFrom "module" body := by
  obtain ⟨⟨fields, arguments⟩, hextract, h⟩ := bind_ok h
  obtain ⟨hfrom, harguments⟩ := extract_from hextract
  cases h
  refine ⟨List.forall_mem_cons.mpr ⟨.inl harguments, fun m hm => ?_⟩, forall_mem_reduceOption ?_,
    hfrom.count, .inl rfl⟩
  · exact .inr (hfrom.providers m (Option.mem_toList.mp hm))
  · simp only [List.forall_mem_cons]
    exact ⟨hfrom.countSource, hfrom.forEach, nofun⟩

theorem builtFrom_provider {p : Provider} (h : Provider.ofBlock place name body = .ok p) :
    (Entity.provider p).BuiltFrom "provider" body := by
  obtain ⟨⟨fields, arguments⟩, hextract, h⟩ := bind_ok h
  cases h
  exact ⟨List.forall_mem_cons.mpr ⟨.inl (extract_from hextract).2, nofun⟩, nofun, nofun, .inl rfl⟩

theorem builtFrom_output {o : Output} (h : Output.ofBlock place name body = .ok o) :
    (Entity.output o).BuiltFrom "output" body := by
  obtain ⟨⟨fields, arguments⟩, hextract, h⟩ := bind_ok h
  obtain ⟨hfrom, harguments⟩ := extract_from hextract
  cases h
  exact ⟨List.forall_mem_cons.mpr ⟨.inl harguments, nofun⟩,
    fun s hs => hfrom.value s (Option.mem_toList.mp hs), nofun, .inl rfl⟩

theorem builtFrom_variable {isConfig : Bool} {v : Variable}
    (h : Variable.ofBlock place name body isConfig = .ok v) :
    (Entity.variable v).BuiltFrom "variable" body := by
  obtain ⟨⟨fields, arguments⟩, hextract, h⟩ := bind_ok h
  obtain ⟨hfrom, harguments⟩ := extract_from hextract
  cases h
  refine ⟨List.forall_mem_cons.mpr ⟨.inl harguments, nofun⟩, forall_mem_reduceOption ?_, nofun,
    .inl rfl⟩
  simp only [List.forall_mem_cons]
  exact ⟨hfrom.defaultValue, hfrom.value, nofun⟩

theorem builtFrom_localValue {value : Node} {l : LocalValue} (hmem : (name, value) ∈ body)
    (h : LocalValue.ofNode place name value = .ok l) :
    (Entity.localValue l).BuiltFrom "locals" body := by
  obtain ⟨text, htext, h⟩ := bind_ok h
  cases h
  exact ⟨nofun, List.forall_mem_cons.mpr ⟨⟨value, List.mem_map_of_mem hmem, supported_ok htext⟩,
    nofun⟩, nofun, .inl rfl⟩

end Builders

end Entities

section Resources

/-- The entries that attributes are taken from: those of a map, or none where no node is. -/
inductive Taken : Option Node → Body → Prop
  | missing : Taken none []
  | map (entries : Body) : Taken (some (.map entries)) entries

/-- The node that the attributes of an instance are taken from. -/
def attributesOf (inst : Body) : Option Node :=
  (inst.present? "attributes").or (inst.present? "attributes_flat")

section Exports

variable {place : Located} {entry resource inst body : Body} {key as address : String}

theorem requireMap_cases {values : Option RawMap} (h : requireMap body key address = .ok values) :
    body.present? key = none ∧ values = none
      ∨ ∃ entries raws, body.present? key = some (.map entries) ∧ values = some raws
        ∧ Node.toRawEntries entries = .ok raws := by
  unfold requireMap at h
  split at h
  · rename_i hnone
    exact .inl ⟨hnone, (Except.ok.inj h).symm⟩
  · rename_i entries hentries
    obtain ⟨raws, hraws, hvalues⟩ := map_ok h
    exact .inr ⟨entries, raws, hentries, hvalues.symm, supported_ok hraws⟩
  · cases h

theorem taken_requireMap {values : Option RawMap} (h : requireMap body key address = .ok values) :
    ∃ source, Taken (body.present? key) source
      ∧ Node.toRawEntries source = .ok (values.getD []) := by
  obtain ⟨hnone, rfl⟩ | ⟨entries, raws, hentries, rfl, hraws⟩ := requireMap_cases h
  · exact ⟨[], hnone ▸ .missing, rfl⟩
  · exact ⟨entries, hentries ▸ .map entries, hraws⟩

theorem renamed_subset : (renamed body key as).map Prod.snd ⊆ body.map Prod.snd := by
  unfold renamed
  split
  · rename_i node hnode
    refine List.cons_subset.mpr ⟨?_, List.nil_subset _⟩
    exact List.mem_map.mpr ⟨_, mem_of_entryAt? hnode, rfl⟩
  · exact List.nil_subset _

theorem rawAt_cases {raw : Raw} (h : rawAt body key = .ok raw) :
    raw = .null ∨ ∃ node ∈ body.map Prod.snd, node.toRaw = .ok raw := by
  unfold rawAt at h
  split at h
  · rename_i node hnode
    exact .inr ⟨node, List.mem_map_of_mem (f := Prod.snd) (mem_of_entryAt? hnode), supported_ok h⟩
  · exact .inl (Except.ok.inj h).symm

/-- The parts of a planned resource come from its entry, and its arguments are the values there. -/
theorem madeOf_planned {r : Resource} (h : Resource.ofPlan place entry = .ok r) :
    ∃ source values, Taken (entry.present? "values") source
      ∧ Node.toRawEntries source = .ok values ∧ r.arguments = some values
      ∧ r.standardAttributes = some values
      ∧ (Entity.resource r).MadeOf source (entry.map Prod.snd) := by
  obtain ⟨⟨fields, arguments⟩, hextract, h⟩ := bind_ok h
  obtain ⟨values, hvalues, h⟩ := bind_ok h
  obtain ⟨index, hindex, h⟩ := bind_ok h
  obtain ⟨hfrom, -⟩ := extract_from hextract
  obtain ⟨source, htaken, hsource⟩ := taken_requireMap hvalues
  have hsub : (renamed entry "provider_name" "provider").map Prod.snd ⊆ entry.map Prod.snd :=
    renamed_subset
  cases h
  refine ⟨source, _, htaken, hsource, rfl, rfl, forall_mem_reduceOption ?_,
    forall_mem_reduceOption ?_, ?_, rawAt_cases hindex⟩
  · simp only [List.forall_mem_cons]
    exact ⟨fun m hm => .inr ((hfrom.lifecycle m hm).imp fun _ => .imp_left (@hsub _)),
      fun m hm => .inl (Option.some.inj hm ▸ hsource), nofun,
      fun m hm => .inl (Option.some.inj hm ▸ hsource), nofun⟩
  · simp only [List.forall_mem_cons]
    exact ⟨fun s hs => (hfrom.countSource s hs).imp fun _ => .imp_left (@hsub _),
      fun s hs => (hfrom.forEach s hs).imp fun _ => .imp_left (@hsub _), nofun⟩
  · exact fun n hn => (hfrom.count n hn).imp fun _ => .imp_left (@hsub _)

/-- The parts of an instance come from itself and its resource, and its attributes are those of the
instance. -/
theorem madeOf_instance {r : Resource} (h : Resource.ofInstance place resource inst = .ok r) :
    ∃ source values, Taken (attributesOf inst) source
      ∧ Node.toRawEntries source = .ok values ∧ r.attributes = some values
      ∧ r.standardAttributes = some values
      ∧ (Entity.resource r).MadeOf source (resource.map Prod.snd ++ inst.map Prod.snd) := by
  obtain ⟨index, hindex, h⟩ := bind_ok h
  obtain ⟨address, -, h⟩ := bind_ok h
  obtain ⟨⟨fields, arguments⟩, hextract, h⟩ := bind_ok h
  obtain ⟨attributes?, hattributes, h⟩ := bind_ok h
  obtain ⟨hfrom, -⟩ := extract_from hextract
  have hsub : (renamed resource "provider" "provider" ++ renamed inst "dependencies"
      "depends_on").map Prod.snd ⊆ resource.map Prod.snd ++ inst.map Prod.snd := by
    rw [List.map_append]
    exact List.append_subset.mpr ⟨List.subset_append_of_subset_left _ renamed_subset,
      List.subset_append_of_subset_right _ renamed_subset⟩
  -- the attributes are read under two keys, and all else is the same
  suffices hsource : ∃ source values, Taken (attributesOf inst) source
      ∧ Node.toRawEntries source = .ok values ∧ r = {
        place, index, address
        type := resource.textAt "type" ""
        name := resource.textAt "name" ""
        mode := State.mode resource
        count := fields.count
        countSource := fields.countSource
        forEach := fields.forEach
        dependsOn := fields.dependsOn
        provider := fields.provider
        lifecycle := fields.lifecycle
        arguments := none
        attributes := some values
        standardAttributes := some values } by
    obtain ⟨source, values, htaken, hsource, rfl⟩ := hsource
    refine ⟨source, values, htaken, hsource, rfl, rfl, forall_mem_reduceOption ?_,
      forall_mem_reduceOption ?_, ?_, ?_⟩
    · simp only [List.forall_mem_cons]
      exact ⟨fun m hm => .inr ((hfrom.lifecycle m hm).imp fun _ => .imp_left (@hsub _)), nofun,
        fun m hm => .inl (Option.some.inj hm ▸ hsource),
        fun m hm => .inl (Option.some.inj hm ▸ hsource), nofun⟩
    · simp only [List.forall_mem_cons]
      exact ⟨fun s hs => (hfrom.countSource s hs).imp fun _ => .imp_left (@hsub _),
        fun s hs => (hfrom.forEach s hs).imp fun _ => .imp_left (@hsub _), nofun⟩
    · exact fun n hn => (hfrom.count n hn).imp fun _ => .imp_left (@hsub _)
    · exact (rawAt_cases hindex).imp_right fun ⟨node, hnode, hraw⟩ =>
        ⟨node, List.mem_append_right _ hnode, hraw⟩
  unfold attributesOf
  obtain ⟨hnone, rfl⟩ | ⟨entries, raws, hentries, rfl, hraws⟩ := requireMap_cases hattributes
  · obtain ⟨flat, hflat, h⟩ := bind_ok h
    obtain ⟨source, htaken, hsource⟩ := taken_requireMap hflat
    rw [hnone, Option.none_or]
    exact ⟨source, _, htaken, hsource, (Except.ok.inj h).symm⟩
  · rw [hentries, Option.some_or]
    exact ⟨entries, raws, .map entries, hraws, (Except.ok.inj h).symm⟩

end Exports

end Resources

end TerraIndex
