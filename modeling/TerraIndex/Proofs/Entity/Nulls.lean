import TerraIndex.Proofs.Document.Conversion
import TerraIndex.Proofs.Document.Keys
import TerraIndex.Proofs.Entity.LongIndex
/-!
# Nulls in exports

A null at the top of a planned entry, a resource or an instance counts as a missing key
(`child?_withoutNulls`), but not where the entry of a key is handed on as a meta-argument: the
provider and the dependencies. There a null has not the shape it must have, and what holds it is
refused (`built_withoutNulls`), unless its index cannot be written into an address, which is found
before.
-/

namespace TerraIndex

/-- The entries of a body whose value is not null. -/
def Body.withoutNulls (body : Body) : Body := body.filter fun entry => !entry.2.isNull

def Body.IsNullAt (body : Body) (key : String) : Prop := body.child? key = some (.scalar .null)

/-- The value under a key has not the shape it must have. -/
def Body.Misfits (body : Body) (key : String) (shape : Shape) : Prop :=
  ∃ node, body.child? key = some node ∧ shape.accepts node = false

/-- The index of an instance has a text to stand in an address. -/
def Body.HasIndexText (inst : Body) : Prop :=
  ∃ index text, rawAt inst "index_key" = .ok index ∧ indexText? index = some text

theorem isNull_iff {node : Node} : node.isNull = true ↔ node = .scalar .null := by
  unfold Node.isNull
  split <;> simp_all

section Reading

variable {body : Body} (hkeys : (body.map Prod.fst).Nodup)
include hkeys

theorem child?_withoutNulls (key : String) : body.withoutNulls.child? key = body.present? key := by
  have hkept : (body.withoutNulls.map Prod.fst).Nodup :=
    hkeys.sublist (List.filter_sublist.map Prod.fst)
  rw [Body.present?]
  cases hchild : body.child? key with
  | none =>
    by_contra hkey
    obtain ⟨node, hnode⟩ := Option.ne_none_iff_exists'.mp hkey
    have hmem := (List.mem_filter.mp (mem_of_entryAt? hnode)).1
    rw [Body.child?, entryAt?_of_mem hkeys hmem] at hchild
    cases hchild
  | some node =>
    have hmem := mem_of_entryAt? hchild
    by_cases hnull : node.isNull
    · simp only [hnull, if_true]
      by_contra hkey
      obtain ⟨other, hother⟩ := Option.ne_none_iff_exists'.mp hkey
      obtain ⟨hmem', hother'⟩ := List.mem_filter.mp (mem_of_entryAt? hother)
      rw [Body.child?, entryAt?_of_mem hkeys hmem'] at hchild
      cases hchild
      simp [hnull] at hother'
    · simp only [hnull, Bool.false_eq_true, if_false]
      exact entryAt?_of_mem hkept (List.mem_filter.mpr ⟨hmem, by simpa using hnull⟩)

/-- What is read in the same way from a null and from nothing is read so from the body without its
nulls. -/
theorem read_withoutNulls {α : Type} (read : Option Node → α)
    (hnull : read (some (.scalar .null)) = read none) (key : String) :
    read (body.withoutNulls.child? key) = read (body.child? key) := by
  rw [child?_withoutNulls hkeys, Body.present?]
  cases body.child? key with
  | none => rfl
  | some node =>
    by_cases hnode : node.isNull
    · simp only [isNull_iff.mp hnode, hnull]
      rfl
    · simp [hnode]

theorem textAt_withoutNulls (key default : String) :
    body.withoutNulls.textAt key default = body.textAt key default :=
  read_withoutNulls hkeys (fun node => (node.bind Node.text?).getD default) rfl key

theorem rawAt_withoutNulls (key : String) : rawAt body.withoutNulls key = rawAt body key := by
  have hread : ∀ body : Body,
      rawAt body key = (body.child? key).elim (.ok .null) fun node => supported node.toRaw := by
    intro body
    unfold rawAt
    cases body.child? key <;> rfl
  rw [hread, hread]
  exact read_withoutNulls hkeys
    (fun node => node.elim (.ok .null) fun node => supported node.toRaw) rfl key

theorem present?_withoutNulls (key : String) :
    body.withoutNulls.present? key = body.present? key := by
  rw [Body.present?, child?_withoutNulls hkeys, Body.present?]
  cases body.child? key with
  | none => rfl
  | some node => cases hnull : node.isNull <;> simp [hnull]

theorem requireMap_withoutNulls (key address : String) :
    requireMap body.withoutNulls key address = requireMap body key address := by
  rw [requireMap, requireMap, present?_withoutNulls hkeys]

theorem address_withoutNulls_plan : Plan.address body.withoutNulls = Plan.address body := by
  simp only [Plan.address, Plan.mode, textAt_withoutNulls hkeys]

theorem address_withoutNulls_state : State.address body.withoutNulls = State.address body := by
  simp only [State.address, State.mode, textAt_withoutNulls hkeys]

theorem instanceAddress_withoutNulls (index : Raw) :
    State.instanceAddress body.withoutNulls index = State.instanceAddress body index := by
  simp only [State.instanceAddress, State.mode, textAt_withoutNulls hkeys]

theorem instances_withoutNulls : State.instances body.withoutNulls = State.instances body := by
  rw [State.instances, State.instances, present?_withoutNulls hkeys,
    address_withoutNulls_state hkeys]

theorem not_misfits_of_null {key : String} {shape : Shape} (h : body.IsNullAt key) :
    ¬ body.withoutNulls.Misfits key shape := by
  rintro ⟨node, hnode, -⟩
  rw [child?_withoutNulls hkeys, Body.present?, h] at hnode
  cases hnode

theorem renamed_withoutNulls {key as : String} (h : ¬ body.IsNullAt key) :
    renamed body.withoutNulls key as = renamed body key as := by
  rw [renamed, renamed, child?_withoutNulls hkeys, Body.present?]
  cases hchild : body.child? key with
  | none => rfl
  | some node =>
    by_cases hnull : node.isNull
    · rw [isNull_iff.mp hnull] at hchild
      exact absurd hchild h
    · simp [hnull]

end Reading

theorem exists_rawAt {P : Scalar → Prop} {body : Body} (h : (Node.map body).Holds P)
    (key : String) : ∃ raw, rawAt body key = .ok raw := by
  unfold rawAt
  cases hchild : body.child? key with
  | none => exact ⟨.null, rfl⟩
  | some node =>
    obtain ⟨raw, hraw⟩ := exists_toRaw ((valuesHold_iff body).mp h.2 _ (mem_of_entryAt? hchild))
    exact ⟨raw, by simp [hraw, supported, Except.mapError]⟩

section Refused

variable {address key other kind name : String} {shape : Shape} {place : Located}
  {entry resource inst : Body} {index : Raw} {text : List Char}

/-- The only key that a map can be refused for is its own. -/
theorem key_of_requireMap
    (h : requireMap entry key address = .error (.typeMismatch kind name other shape)) :
    other = key := by
  unfold requireMap at h
  split at h
  · cases h
  · rename_i entries _
    cases hraws : Node.toRawEntries entries <;> rw [hraws] at h <;> cases h
  · cases h
    rfl

theorem supported_ne {α : Type} (x : Except UnsupportedValue α) :
    supported x ≠ .error (.typeMismatch kind name key shape) := by
  cases x <;> simp [supported, Except.mapError]

theorem extractFrom_meta {arg : MetaArg} (hkey : MetaArg.ofKey? kind key = some arg)
    (done : Extraction) (node : Node) (rest : Body) :
    extractFrom kind name done ((key, node) :: rest)
      = if arg.shape.accepts node then
          supported (arg.note node done.fields) >>= fun fields =>
            extractFrom kind name { done with fields := fields } rest
        else .error (.typeMismatch (kindText kind) name key arg.shape) := by
  rw [extractFrom, hkey]

theorem provider_isMeta : MetaArg.ofKey? "resource" "provider" = some .provider := rfl

theorem dependsOn_isMeta : MetaArg.ofKey? "resource" "depends_on" = some .dependsOn := rfl

/-- What is handed on as a meta-argument is refused where it has not its shape. -/
theorem extractFrom_refused {arg : MetaArg} {as : String}
    (hkey : MetaArg.ofKey? "resource" as = some arg) (h : entry.Misfits key arg.shape)
    (done : Extraction) (rest : Body) :
    extractFrom "resource" address done (renamed entry key as ++ rest)
      = .error (.typeMismatch "resource" address as arg.shape) := by
  obtain ⟨node, hnode, hshape⟩ := h
  rw [renamed, hnode]
  refine (extractFrom_meta hkey _ _ _).trans (if_neg ?_)
  simp [hshape]

theorem extract_provider (h : entry.Misfits key .string) (rest : Body) :
    extract "resource" address (renamed entry key "provider" ++ rest)
      = .error (.typeMismatch "resource" address "provider" .string) :=
  extractFrom_refused provider_isMeta h _ rest

theorem extractFrom_dependsOn (h : entry.Misfits key .list) (done : Extraction) :
    extractFrom "resource" address done (renamed entry key "depends_on")
      = .error (.typeMismatch "resource" address "depends_on" .list) := by
  rw [← List.append_nil (renamed entry key _)]
  exact extractFrom_refused dependsOn_isMeta h done []

/-- A provider of the right shape is noted. -/
theorem extract_provided (h : ¬ entry.Misfits key .string) (rest : Body) :
    ∃ done, extract "resource" address (renamed entry key "provider" ++ rest)
      = extractFrom "resource" address done rest := by
  rw [renamed]
  split
  · rename_i node hnode
    have hshape : MetaArg.provider.shape.accepts node = true := by
      by_contra hshape
      exact h ⟨node, hnode, by simpa [MetaArg.shape] using hshape⟩
    exact ⟨_, (extractFrom_meta provider_isMeta _ _ _).trans (if_pos hshape)⟩
  · exact ⟨_, rfl⟩

theorem misfits_of_dependsOn (done : Extraction)
    (h : extractFrom "resource" address done (renamed entry key "depends_on")
      = .error (.typeMismatch kind name other shape)) :
    other = "depends_on" ∧ entry.Misfits key .list := by
  rw [renamed] at h
  split at h
  · rename_i node hnode
    rw [extractFrom_meta dependsOn_isMeta] at h
    split_ifs at h with hshape
    · rcases bind_error h with h | ⟨fields, -, h⟩
      · exact absurd h (supported_ne _)
      · cases h
    · cases h
      exact ⟨rfl, node, hnode, by simpa [MetaArg.shape] using hshape⟩
  · cases h

/-- A provider is refused for nothing but its own shape. -/
theorem misfits_of_extract {rest : Body}
    (h : extract "resource" address (renamed entry key "provider" ++ rest)
      = .error (.typeMismatch kind name other shape)) :
    (other = "provider" ∧ entry.Misfits key .string)
      ∨ ∃ done, extractFrom "resource" address done rest
        = .error (.typeMismatch kind name other shape) := by
  by_cases hprovider : entry.Misfits key .string
  · rw [extract_provider hprovider] at h
    cases h
    exact .inl ⟨rfl, hprovider⟩
  · obtain ⟨done, hdone⟩ := extract_provided hprovider rest
    exact .inr ⟨done, hdone.symm.trans h⟩

theorem rawAt_ne : rawAt entry key ≠ .error (.typeMismatch kind name other shape) := by
  unfold rawAt
  split
  · exact supported_ne _
  · exact nofun

/-- A planned entry is refused for its provider where that is no string. -/
theorem ofPlan_refused (h : entry.Misfits "provider_name" .string) :
    Resource.ofPlan place entry
      = .error (.typeMismatch "resource" (Plan.address entry) "provider" .string) := by
  have hextract : extract "resource" (Plan.address entry) (renamed entry "provider_name" "provider")
      = .error (.typeMismatch "resource" (Plan.address entry) "provider" .string) := by
    rw [← List.append_nil (renamed entry _ _)]
    exact extract_provider h []
  rw [Resource.ofPlan, hextract]
  rfl

theorem ofPlan_key
    (h : Resource.ofPlan place entry = .error (.typeMismatch kind name key shape)) :
    (key = "provider" ∧ entry.Misfits "provider_name" .string) ∨ key = "values" := by
  rcases bind_error h with h | ⟨done, -, h⟩
  · rw [← List.append_nil (renamed entry _ _)] at h
    rcases misfits_of_extract h with hprovider | ⟨done, h⟩
    · exact .inl hprovider
    · cases h
  rcases bind_error h with h | ⟨values, -, h⟩
  · exact .inr (key_of_requireMap h)
  rcases bind_error h with h | ⟨index, -, h⟩
  · exact absurd h rawAt_ne
  · cases h

section Instance

theorem exists_instanceAddress (htext : indexText? index = some text) (resource : Body) :
    ∃ address, State.instanceAddress resource index = .ok address := by
  rw [State.instanceAddress, instanceAddress?, htext]
  exact ⟨_, rfl⟩

variable (hindex : rawAt inst "index_key" = .ok index)
  (haddress : State.instanceAddress resource index = .ok address)
include hindex haddress

/-- An instance is refused for the provider of its resource where that is no string, -/
theorem ofInstance_provider (h : resource.Misfits "provider" .string) :
    Resource.ofInstance place resource inst
      = .error (.typeMismatch "resource" address "provider" .string) := by
  simp only [Resource.ofInstance, hindex, haddress, Json.ok_bind, extract_provider h]
  rfl

/-- and otherwise for its dependencies where they are no list. -/
theorem ofInstance_dependencies (hprovider : ¬ resource.Misfits "provider" .string)
    (h : inst.Misfits "dependencies" .list) :
    Resource.ofInstance place resource inst
      = .error (.typeMismatch "resource" address "depends_on" .list) := by
  obtain ⟨done, hdone⟩ : ∃ done, extract "resource" address
      (renamed resource "provider" "provider" ++ renamed inst "dependencies" "depends_on")
      = extractFrom "resource" address done (renamed inst "dependencies" "depends_on") :=
    extract_provided hprovider _
  simp only [Resource.ofInstance, hindex, haddress, Json.ok_bind, hdone, extractFrom_dependsOn h]
  rfl

end Instance

theorem ofInstance_key
    (h : Resource.ofInstance place resource inst = .error (.typeMismatch kind name key shape)) :
    (key = "provider" ∧ resource.Misfits "provider" .string)
      ∨ (key = "depends_on" ∧ inst.Misfits "dependencies" .list)
      ∨ key = "attributes" ∨ key = "attributes_flat" := by
  rcases bind_error h with h | ⟨index, -, h⟩
  · exact absurd h rawAt_ne
  rcases bind_error h with h | ⟨address, -, h⟩
  · unfold State.instanceAddress at h
    split at h <;> cases h
  rcases bind_error h with h | ⟨done, -, h⟩
  · rcases misfits_of_extract h with hprovider | ⟨done, h⟩
    · exact .inl hprovider
    · exact .inr (.inl (misfits_of_dependsOn done h))
  rcases bind_error h with h | ⟨attributes, -, h⟩
  · exact .inr (.inr (.inl (key_of_requireMap h)))
  cases attributes with
  | some attributes => cases h
  | none =>
    rcases bind_error h with h | ⟨flat, -, h⟩
    · exact .inr (.inr (.inr (key_of_requireMap h)))
    · cases h

end Refused

section Built

theorem misfits_of_isNullAt {body : Body} {key : String} {shape : Shape} (h : body.IsNullAt key)
    (hshape : shape.accepts (.scalar .null) = false) : body.Misfits key shape :=
  ⟨_, h, hshape⟩

section Built

variable {place : Located} {entry resource inst : Body}

theorem ofPlan_withoutNulls (hkeys : (entry.map Prod.fst).Nodup)
    (h : ¬ entry.IsNullAt "provider_name") :
    Resource.ofPlan place entry.withoutNulls = Resource.ofPlan place entry := by
  simp only [Resource.ofPlan, Plan.mode, address_withoutNulls_plan hkeys,
    textAt_withoutNulls hkeys, renamed_withoutNulls hkeys h, requireMap_withoutNulls hkeys,
    rawAt_withoutNulls hkeys]

theorem ofInstance_withoutNulls_resource (hkeys : (resource.map Prod.fst).Nodup)
    (h : ¬ resource.IsNullAt "provider") :
    Resource.ofInstance place resource.withoutNulls inst
      = Resource.ofInstance place resource inst := by
  simp only [Resource.ofInstance, State.mode, instanceAddress_withoutNulls hkeys,
    textAt_withoutNulls hkeys, renamed_withoutNulls hkeys h]

theorem ofInstance_withoutNulls_instance (hkeys : (inst.map Prod.fst).Nodup)
    (h : ¬ inst.IsNullAt "dependencies") :
    Resource.ofInstance place resource inst.withoutNulls
      = Resource.ofInstance place resource inst := by
  simp only [Resource.ofInstance, rawAt_withoutNulls hkeys, requireMap_withoutNulls hkeys,
    renamed_withoutNulls hkeys h]

theorem ofPlan_withoutNulls_iff (hkeys : (entry.map Prod.fst).Nodup) :
    Resource.ofPlan place entry.withoutNulls = Resource.ofPlan place entry
      ↔ ¬ entry.IsNullAt "provider_name" := by
  refine ⟨fun hsame hnull => ?_, ofPlan_withoutNulls hkeys⟩
  rw [ofPlan_refused (misfits_of_isNullAt hnull rfl)] at hsame
  rcases ofPlan_key hsame with ⟨-, hmisfits⟩ | hkey
  · exact not_misfits_of_null hkeys hnull hmisfits
  · exact absurd hkey (by decide)

variable {index : Raw} {text : List Char}

/-- A null provider is refused, and a missing one is not. -/
theorem ofInstance_withoutNulls_ne (hkeys : (resource.map Prod.fst).Nodup)
    (hindex : rawAt inst "index_key" = .ok index) (htext : indexText? index = some text)
    (hnull : resource.IsNullAt "provider") (other : Body) :
    Resource.ofInstance place resource.withoutNulls other
      ≠ Resource.ofInstance place resource inst := by
  intro hsame
  obtain ⟨address, haddress⟩ := exists_instanceAddress htext resource
  rw [ofInstance_provider hindex haddress (misfits_of_isNullAt hnull rfl)] at hsame
  rcases ofInstance_key hsame with ⟨-, hmisfits⟩ | ⟨hkey, -⟩ | hkey | hkey
  · exact not_misfits_of_null hkeys hnull hmisfits
  all_goals exact absurd hkey (by decide)

/-- Where the provider is refused first, the dependencies do not matter. -/
theorem ofInstance_withoutNulls_instance_iff (hkeys : (inst.map Prod.fst).Nodup)
    (hindex : rawAt inst "index_key" = .ok index) (htext : indexText? index = some text) :
    Resource.ofInstance place resource inst.withoutNulls = Resource.ofInstance place resource inst
      ↔ (inst.IsNullAt "dependencies" → resource.Misfits "provider" .string) := by
  have hindex' : rawAt inst.withoutNulls "index_key" = .ok index := by
    rw [rawAt_withoutNulls hkeys, hindex]
  obtain ⟨address, haddress⟩ := exists_instanceAddress htext resource
  constructor
  · intro hsame hnull
    by_contra hprovider
    rw [ofInstance_dependencies hindex haddress hprovider (misfits_of_isNullAt hnull rfl)] at hsame
    rcases ofInstance_key hsame with ⟨hkey, -⟩ | ⟨-, hmisfits⟩ | hkey | hkey
    · exact absurd hkey (by decide)
    · exact not_misfits_of_null hkeys hnull hmisfits
    all_goals exact absurd hkey (by decide)
  · intro h
    by_cases hnull : inst.IsNullAt "dependencies"
    · rw [ofInstance_provider hindex haddress (h hnull),
        ofInstance_provider hindex' haddress (h hnull)]
    · exact ofInstance_withoutNulls_instance hkeys hnull

end Built

/-- Without its nulls a resource of a state has the same instances, and from a planned entry, or
from a resource and an instance, the same is built, or refused with the same error, exactly where
no null is handed on: none for a provider, and none for the dependencies unless the provider is
refused before them. Where the index of an instance cannot be written, which is found first, the
nulls make no difference. -/
theorem built_withoutNulls (place : Located) {entry resource inst : Body}
    (hentry : (Node.map entry).Holds Scalar.IsOwn)
    (hresource : (Node.map resource).Holds Scalar.IsOwn)
    (hinst : (Node.map inst).Holds Scalar.IsOwn) :
    (Resource.ofPlan place entry.withoutNulls = Resource.ofPlan place entry
      ↔ ¬ entry.IsNullAt "provider_name")
    ∧ State.instances resource.withoutNulls = State.instances resource
    ∧ (Resource.ofInstance place resource.withoutNulls inst
        = Resource.ofInstance place resource inst
      ↔ (inst.HasIndexText → ¬ resource.IsNullAt "provider"))
    ∧ (Resource.ofInstance place resource inst.withoutNulls
        = Resource.ofInstance place resource inst
      ↔ (inst.HasIndexText → inst.IsNullAt "dependencies" → resource.Misfits "provider" .string))
    ∧ (Resource.ofInstance place resource.withoutNulls inst.withoutNulls
        = Resource.ofInstance place resource inst
      ↔ (inst.HasIndexText → ¬ resource.IsNullAt "provider"
        ∧ (inst.IsNullAt "dependencies" → resource.Misfits "provider" .string))) := by
  obtain ⟨index, hindex⟩ := exists_rawAt hinst "index_key"
  refine ⟨ofPlan_withoutNulls_iff hentry.1, instances_withoutNulls hresource.1, ?_⟩
  cases htext : indexText? index with
  | none =>
    have hindex' : rawAt inst.withoutNulls "index_key" = .ok index := by
      rw [rawAt_withoutNulls hinst.1, hindex]
    have hwritten : ¬ inst.HasIndexText := by
      rintro ⟨other, text, hother, hshown⟩
      obtain rfl := Except.ok.inj (hindex.symm.trans hother)
      cases htext.symm.trans hshown
    simp only [ofInstance_longIndex.mpr ⟨index, hindex, htext⟩,
      ofInstance_longIndex.mpr ⟨index, hindex', htext⟩, hwritten, false_imp_iff, and_self]
  | some text =>
    have hwritten : inst.HasIndexText := ⟨index, text, hindex, htext⟩
    have hprovider : resource.IsNullAt "provider" → ∀ other,
        Resource.ofInstance place resource.withoutNulls other
          ≠ Resource.ofInstance place resource inst :=
      ofInstance_withoutNulls_ne hresource.1 hindex htext
    have hdependencies : Resource.ofInstance place resource inst.withoutNulls
        = Resource.ofInstance place resource inst
          ↔ (inst.IsNullAt "dependencies" → resource.Misfits "provider" .string) :=
      ofInstance_withoutNulls_instance_iff hinst.1 hindex htext
    simp only [hwritten, true_imp_iff]
    refine ⟨⟨fun hsame hnull => hprovider hnull inst hsame,
      ofInstance_withoutNulls_resource hresource.1⟩, hdependencies, ?_⟩
    by_cases hnull : resource.IsNullAt "provider"
    · exact ⟨fun hsame => absurd hsame (hprovider hnull _), fun h => absurd hnull h.1⟩
    · rw [ofInstance_withoutNulls_resource hresource.1 hnull, hdependencies, and_iff_right hnull]

end Built

namespace Queue

/-- A planned entry, most of whose values are null. -/
def planned (provider : Node) : Body := [("type", .scalar (.text "aws_sqs_queue")),
  ("address", .scalar .null), ("name", .scalar (.text "jobs")), ("mode", .scalar .null),
  ("provider_name", provider), ("values", .scalar .null), ("index", .scalar .null)]

def resource : Body := [("type", .scalar (.text "aws_sqs_queue")), ("module", .scalar .null),
  ("name", .scalar (.text "jobs")), ("provider", .scalar (.text "aws")),
  ("instances", .scalar .null)]

def inst : Body := [("index_key", .scalar .null), ("dependencies", .scalar .null),
  ("attributes", .scalar .null), ("attributes_flat", .map [("id", .scalar (.text "q-1"))])]

theorem built_withoutNulls_queue :
    (Node.map (planned (.scalar (.text "aws")))).Holds Scalar.IsOwn
      ∧ (Node.map resource).Holds Scalar.IsOwn ∧ (Node.map inst).Holds Scalar.IsOwn
      ∧ Resource.ofPlan default (planned (.scalar (.text "aws"))).withoutNulls
        = Resource.ofPlan default (planned (.scalar (.text "aws")))
      ∧ State.instances resource.withoutNulls = State.instances resource
      ∧ Resource.ofInstance default resource.withoutNulls inst
        = Resource.ofInstance default resource inst
      ∧ Resource.ofInstance default resource inst.withoutNulls
        ≠ Resource.ofInstance default resource inst := by
  have hplanned : (Node.map (planned (.scalar (.text "aws")))).Holds Scalar.IsOwn := by
    simp [planned, Node.Holds, valuesHold, Scalar.IsOwn]
  have hresource : (Node.map resource).Holds Scalar.IsOwn := by
    simp [resource, Node.Holds, valuesHold, Scalar.IsOwn]
  have hinst : (Node.map inst).Holds Scalar.IsOwn := by
    simp [inst, Node.Holds, valuesHold, Scalar.IsOwn]
  obtain ⟨hplan, hinstances, hstate, hnulls, -⟩ :=
    built_withoutNulls default hplanned hresource hinst
  refine ⟨hplanned, hresource, hinst, hplan.mpr ?_, hinstances, hstate.mpr ?_, fun hsame => ?_⟩
  · rintro ⟨⟩
  · rintro - ⟨⟩
  · obtain ⟨_, ⟨⟩, hshape⟩ := hnulls.mp hsame ⟨.null, [], rfl, rfl⟩ rfl
    cases hshape

/-- A null provider and null dependencies are refused, and without them a resource is built. -/
theorem refused_for_null : ∃ r r' : Resource,
    Resource.ofPlan default (planned (.scalar .null))
        = .error (.typeMismatch "resource" "aws_sqs_queue.jobs" "provider" .string)
      ∧ Resource.ofPlan default (planned (.scalar .null)).withoutNulls = .ok r
      ∧ Resource.ofInstance default resource inst
        = .error (.typeMismatch "resource" "aws_sqs_queue.jobs" "depends_on" .list)
      ∧ Resource.ofInstance default resource inst.withoutNulls = .ok r' :=
  ⟨_, _, rfl, rfl, rfl, rfl⟩

end Queue

end TerraIndex
