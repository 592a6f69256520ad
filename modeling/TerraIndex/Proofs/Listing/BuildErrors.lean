import TerraIndex.Proofs.Entity.LongIndex
import TerraIndex.Proofs.Entity.TypedRows
import TerraIndex.Proofs.File.Outcome
import TerraIndex.Proofs.Listing.Origins
/-!
# The only build error is a mismatch

Whatever a listing takes from the tree of a file that was loaded, nothing in it lacks a text or a
value: loading refuses the values that do (`writable_of_load`), and a part of a tree is as good as
the tree. So a builder that is given such a part makes an entity or reports an argument of the wrong
shape, and a listing ends with no other error from a builder (`builders_settle`).

A tree that a value was converted to can be written if no integer of the value is too long. Where
one is, it has no canonical text, and no entity is built that would show it (`builders_refuse`).
-/

namespace TerraIndex

section Builders

/-- Every builder that takes the body settles, with the meta-arguments of the body in its row. -/
structure Body.SettledIn (tree : Node) (body : Body) : Prop where
  extract : ∀ kind name,
    Settles (fun done => TypedRow kind body (done.fields.row kind)) (extract kind name body)
  resource : ∀ place type name,
    Settles (fun r => TypedRow "resource" body (Resource.row r))
      (Resource.ofBlock place type name body)
  dataSource : ∀ place type name,
    Settles (fun d => TypedRow "data" body (DataSource.row d))
      (DataSource.ofBlock place type name body)
  module : ∀ place name,
    Settles (fun m => TypedRow "module" body (Module.row m)) (Module.ofBlock place name body)
  provider : ∀ place name,
    Settles (fun p => TypedRow "provider" body (Provider.row p)) (Provider.ofBlock place name body)
  output : ∀ place name,
    Settles (fun o => TypedRow "output" body (Output.row o)) (Output.ofBlock place name body)
  «variable» : ∀ place name withValidation,
    Settles (fun v => TypedRow "variable" body (Variable.row v))
      (Variable.ofBlock place name body withValidation)
  planned : ∀ place,
    Settles (fun r => TypedRow "resource" (plannedBody body) (Resource.row r))
      (Resource.ofPlan place body)
  instances :
    Settles (fun instances => ∀ inst ∈ instances, tree.HasPart (.map inst)) (State.instances body)
  stateInstance : ∀ place inst, tree.HasPart (.map inst) →
    Settles (fun r => TypedRow "resource" (instanceBody body inst) (Resource.row r))
      (Resource.ofInstance place body inst)

section Parts

variable {tree : Node}

theorem instances_settle {resource : Body} (h : tree.HasPart (.map resource)) :
    Settles (fun instances => ∀ inst ∈ instances, tree.HasPart (.map inst))
      (State.instances resource) := by
  cases hinstances : State.instances resource with
  | ok instances => exact .ok (instances_part h hinstances)
  | error e =>
    unfold State.instances at hinstances
    split at hinstances
    · cases hinstances
    · cases hinstances
    · cases hinstances
      exact .mismatch ⟨_, _, _, _, rfl⟩

variable (htree : tree.Writable)
include htree

theorem writable_entries {body : Body} (h : tree.HasPart (.map body)) :
    ∀ entry ∈ body, entry.2.Writable :=
  writable_map.mp (h.writable htree)

theorem settledIn_part {body : Body} (h : tree.HasPart (.map body)) : body.SettledIn tree := by
  have hbody := writable_entries htree h
  exact {
    extract := fun kind name => extract_settles kind name hbody
    resource := fun place type name => resource_settles place type name hbody
    dataSource := fun place type name => dataSource_settles place type name hbody
    module := fun place name => module_settles place name hbody
    provider := fun place name => provider_settles place name hbody
    output := fun place name => output_settles place name hbody
    «variable» := fun place name => variable_settles place name hbody
    planned := fun place => planned_settles place hbody
    instances := instances_settle h
    stateInstance := fun place _ hinst =>
      instance_settles place hbody (writable_entries htree hinst) }

theorem localValue_ok {node : Node} (h : tree.HasPart node) (place : Located) (name : String) :
    ∃ l, LocalValue.ofNode place name node = .ok l := by
  obtain ⟨text, htext⟩ := (h.writable htree).exists_canonical
  exact ⟨⟨place, name, text⟩, by rw [LocalValue.ofNode, htext]; rfl⟩

end Parts

end Builders

section Attempts

/-- The body that the meta-arguments of a site are read from. A local value has none. -/
def Site.metaBody : Site → Body
  | .block b => b.body
  | .localEntry _ _ _ => []
  | .planned entry => plannedBody entry
  | .stateInstance resource inst => instanceBody resource inst
  | .noInstances _ => []
  | .exported _ body => body

namespace SourceFile

variable {file : SourceFile} {kind : ListKind}

theorem tries_settles {tree : Node} {site : Site} {attempt : Attempt} (htree : tree.Writable)
    (hsite : site.PartOf tree) (h : file.Tries kind site attempt) :
    Settles (fun entity => TypedRow kind.blockType site.metaBody entity.row) attempt := by
  cases h with
  | resource => exact ((settledIn_part htree hsite).resource _ _ _).map fun _ hr => hr
  | dataSource => exact ((settledIn_part htree hsite).dataSource _ _ _).map fun _ hd => hd
  | module => exact ((settledIn_part htree hsite).module _ _).map fun _ hm => hm
  | provider => exact ((settledIn_part htree hsite).provider _ _).map fun _ hp => hp
  | output => exact ((settledIn_part htree hsite).output _ _).map fun _ ho => ho
  | «variable» => exact ((settledIn_part htree hsite).variable _ _ _).map fun _ hv => hv
  | localValue =>
    obtain ⟨l, hl⟩ := localValue_ok htree hsite _ _
    rw [hl]
    exact .ok fun _ harg => by cases harg
  | planned => exact ((settledIn_part htree hsite).planned _).map fun _ hr => hr
  | stateInstance =>
    exact ((settledIn_part htree hsite.1).stateInstance _ _ hsite.2).map fun _ hr => hr
  | noInstances => exact .mismatch ⟨_, _, _, _, rfl⟩
  | exportedOutput => exact ((settledIn_part htree hsite).output _ _).map fun _ ho => ho
  | exportedVariable => exact ((settledIn_part htree hsite).variable _ _ _).map fun _ hv => hv

/-- An attempt of a listing is made on parts of the tree, and it settles. -/
theorem attempt_settles {attempt : Attempt} (htree : (Node.map file.tree).Writable)
    (h : .ok attempt ∈ file.steps kind) :
    ∃ site ∈ file.sites kind, site.PartOf (.map file.tree)
      ∧ Settles (fun entity => TypedRow kind.blockType site.metaBody entity.row) attempt := by
  obtain ⟨site, hsite, htries⟩ := exists_site h
  have hpart := parts_sites kind site hsite
  exact ⟨site, hsite, hpart, tries_settles htree hpart htries⟩

theorem isMismatch_of_step {e : BuildError} (htree : (Node.map file.tree).Writable)
    (h : .ok (.error e) ∈ file.steps kind) : e.IsMismatch := by
  obtain ⟨_, -, -, hsettles⟩ := attempt_settles htree h
  exact hsettles.isMismatch

end SourceFile

end Attempts

section Errors

/-- The build error that a listing ends with is the first one, or one of an attempt. -/
theorem buildError_ofSteps {kind : ListKind} {path : String} {e : BuildError} :
    ∀ {steps : List Step} {first : Option BuildError},
    (Listing.ofSteps kind path first steps).failure = some (.build e) →
    first = some e ∨ .ok (.error e) ∈ steps
  | [], first, h => by
    obtain ⟨found, hfirst, hfound⟩ := Option.map_eq_some_iff.mp h
    cases hfound
    exact .inl hfirst
  | .error _ :: _, _, h => by cases h
  | .ok (.ok _) :: steps, first, h => by
    rw [Listing.ofSteps] at h
    exact (buildError_ofSteps h).imp_right (List.mem_cons_of_mem _)
  | .ok (.error other) :: steps, first, h => by
    rw [Listing.ofSteps] at h
    rcases buildError_ofSteps h with hfirst | hstep
    · rcases Option.or_eq_some_iff.mp hfirst with hfirst | ⟨-, hother⟩
      · exact .inl hfirst
      · cases hother
        exact .inr (List.mem_cons_self ..)
    · exact .inr (List.mem_cons_of_mem _ hstep)

/-- Every record of a listing is about an attempt that failed. -/
theorem records_ofSteps {kind : ListKind} {path : String} {record : LogRecord} :
    ∀ {steps : List Step} {first : Option BuildError},
    record ∈ (Listing.ofSteps kind path first steps).records →
    ∃ e, record = .buildFailed kind path e ∧ .ok (.error e) ∈ steps
  | [], _, h => absurd h List.not_mem_nil
  | .error _ :: _, _, h => absurd h List.not_mem_nil
  | .ok (.ok _) :: steps, first, h => by
    rw [Listing.ofSteps] at h
    obtain ⟨e, hrecord, hstep⟩ := records_ofSteps h
    exact ⟨e, hrecord, List.mem_cons_of_mem _ hstep⟩
  | .ok (.error other) :: steps, first, h => by
    rw [Listing.ofSteps] at h
    rcases List.mem_cons.mp h with rfl | h
    · exact ⟨other, rfl, List.mem_cons_self ..⟩
    · obtain ⟨e, hrecord, hstep⟩ := records_ofSteps h
      exact ⟨e, hrecord, List.mem_cons_of_mem _ hstep⟩

/-- The tree of a file that was loaded can be written. The numbers of lines are among the integers
of a configuration, so that must not be too long. -/
theorem writable_of_load {store : FileStore} {item : FileItem} {file : SourceFile}
    (hshort : file.kind = .config → store.IsShort) (h : load store item = .ok file) :
    (Node.map file.tree).Writable := by
  by_cases hconfig : file.kind = .config
  · exact writable_of_value _ (sound_load (hshort hconfig) h).tree
  · exact writable_of_value _ (holds_of_export hconfig h)

/-- **The only build error is a mismatch.** Every part of a tree that a value was converted to has a
value. If no integer of the value is too long, it has a canonical text and a plain text too, and a
local value is made of it. Then every builder makes of a body in the tree an entity whose row shows
the meta-arguments of the body in columns of their types, or it reports a mismatch, and so does
every attempt of a listing, which is made on parts of the tree. The tree of a file that was loaded
can be written, and so the errors and the records of a listing hold nothing but mismatches. -/
theorem builders_settle {raw : Raw} {tree : Node} (htree : Node.ofRaw raw = .ok tree) :
    (∀ node, tree.HasPart node → ∃ value, node.toRaw = .ok value)
      ∧ (raw.IsShort →
        (∀ node, tree.HasPart node →
          (∃ text, node.canonical = .ok text) ∧ (∃ text, node.plainText = .ok text)
            ∧ ∀ place name, ∃ l, LocalValue.ofNode place name node = .ok l)
        ∧ (∀ body : Body, tree.HasPart (.map body) → body.SettledIn tree)
        ∧ ∀ (file : SourceFile) kind attempt, Node.map file.tree = tree →
          .ok attempt ∈ file.steps kind → ∃ site ∈ file.sites kind, site.PartOf tree
            ∧ Settles (fun entity => TypedRow kind.blockType site.metaBody entity.row) attempt)
      ∧ ∀ store item file, (file.kind = .config → store.IsShort) →
        load store item = .ok file →
        (Node.map file.tree).Writable
          ∧ ∀ kind, (∀ e, (list kind store item).failure = some (.build e) → e.IsMismatch)
            ∧ ∀ record ∈ (list kind store item).records,
              ∃ e, record = .buildFailed kind file.path e ∧ e.IsMismatch := by
  refine ⟨fun node hnode => hnode.exists_toRaw ⟨_, (toRaw_ofRaw htree)⟩, fun hraw => ?_,
    fun store item file hshort hload => ?_⟩
  · have hwritable := writable_of_ofRaw hraw htree
    refine ⟨fun node hnode => ?_, fun body hbody => settledIn_part hwritable hbody,
      fun file kind attempt hfile hattempt => ?_⟩
    · have hpart := hnode.writable hwritable
      exact ⟨hpart.exists_canonical, hpart.exists_plainText, localValue_ok hwritable hnode⟩
    · subst hfile
      exact SourceFile.attempt_settles hwritable hattempt
  · have hloaded := writable_of_load hshort hload
    refine ⟨hloaded, fun kind => ⟨fun e he => ?_, fun record hrecord => ?_⟩⟩
    · rw [list_of_load hload] at he
      exact SourceFile.isMismatch_of_step hloaded ((buildError_ofSteps he).resolve_left nofun)
    · rw [list_of_load hload] at hrecord
      obtain ⟨e, rfl, hstep⟩ := records_ofSteps hrecord
      exact ⟨e, rfl, SourceFile.isMismatch_of_step hloaded hstep⟩

/-- A configuration of one resource, with a count that is a float, a tuple of dependencies that are
not all strings, and a number for its provider. -/
def serverFarm : Raw := .map [("resource", .list [.map [("aws_instance", .map [("web", .map [
  ("count", .float two), ("depends_on", .tuple [.text "aws_vpc.main", .int 3]),
  ("lifecycle", .list [.map [("prevent_destroy", .bool true)]]), ("provider", .int 1)])])]])]

/-- The body of that resource. -/
def webServer : Body := [("count", .scalar (.float two)),
  ("depends_on", .list [.scalar (.text "aws_vpc.main"), .scalar (.int 3)]),
  ("lifecycle", .list [.map [("prevent_destroy", .scalar (.bool true))]]),
  ("provider", .scalar (.int 1))]

theorem isShort_serverFarm : serverFarm.IsShort := by
  have hleaves : serverFarm.leaves
      = [.float two, .text "aws_vpc.main", .int 3, .bool true, .int 1] := rfl
  intro n hn
  rw [hleaves] at hn
  obtain rfl | rfl : n = 3 ∨ n = 1 := by simpa using hn
  · exact Nat.le_of_ble_eq_true rfl
  · exact Nat.le_of_ble_eq_true rfl

theorem builders_settle_serverFarm : ∃ tree, Node.ofRaw serverFarm = .ok tree
    ∧ serverFarm.IsShort ∧ tree.HasPart (.map webServer) ∧ Body.SettledIn tree webServer := by
  have htree : Node.ofRaw serverFarm = .ok (.map [("resource",
    .list [.map [("aws_instance", .map [("web", .map webServer)])]])]) := rfl
  refine ⟨_, htree, isShort_serverFarm, ?_,
    ((builders_settle htree).2.1 isShort_serverFarm).2.1 _ ?_⟩ <;>
    exact .value (.value (.item (.value .whole (List.mem_singleton_self _))
      (List.mem_singleton_self _)) (List.mem_singleton_self _)) (List.mem_singleton_self _)

/-- A local value of ten to the power of 4300, and the instance of a state with that index. -/
theorem builders_refuse :
    let long := tenTo 4300
    let place : Located := ⟨"terraform.tfstate", .empty⟩
    Node.ofRaw (.map [("index_key", .int long)]) = .ok (.map [("index_key", .scalar (.int long))])
      ∧ (Node.scalar (.int long)).canonical = .error ⟨"int"⟩
      ∧ LocalValue.ofNode place "big" (.scalar (.int long)) = .error (.unsupportedValue ⟨"int"⟩)
      ∧ Resource.ofInstance place [] [("index_key", .scalar (.int long))] = .error .longIndex := by
  have hcanonical : (Node.scalar (.int (tenTo 4300))).canonical = .error ⟨"int"⟩ :=
    canonical_tenTo (Nat.le_refl _)
  have hindex : indexText? (.int (tenTo 4300)) = none :=
    indexText?_int_long (length_repr_tenTo 4300)
  refine ⟨rfl, hcanonical, ?_, ofInstance_longIndex.mpr ⟨.int (tenTo 4300), rfl, hindex⟩⟩
  rw [LocalValue.ofNode, hcanonical]
  rfl

end Errors

end TerraIndex
