import TerraIndex.Proofs.Entity.LongIndex
import TerraIndex.Proofs.Entity.TypedRows
import TerraIndex.Proofs.File.Loaded
import TerraIndex.Proofs.Hcl.Parts
import TerraIndex.Proofs.Listing.Exports
import TerraIndex.Proofs.Listing.Sites
/-!
# The attempts of a listing

A listing tries every site of a file, whatever became of those before it: it delivers the entities
of the attempts that succeed, notes an error for each that fails, and ends with the error of the
first of these (`list_tries`).

Only the lines of `locals` blocks are read one by one, so only they have to lie within the file for
a listing to go on to its end (`locateAttribute_within`). An index that cannot be written would stop
it too, but there is none in a tree that can be written (`SourceFile.isNoted_attempts`).
-/

namespace TerraIndex

namespace SourceFile

/-- The attempt that listing a kind makes on a site. -/
inductive Tries (file : SourceFile) : ListKind → Site → Attempt → Prop
  | resource {block : ConfigBlock} {type name : String} (hlabels : block.labels = [type, name]) :
    Tries file .resource (.block block)
      (.resource <$> Resource.ofBlock (file.blockPlace "resource" block) type name block.body)
  | dataSource {block : ConfigBlock} {type name : String} (hlabels : block.labels = [type, name]) :
    Tries file .dataSource (.block block)
      (.dataSource <$> DataSource.ofBlock (file.blockPlace "data" block) type name block.body)
  | module {block : ConfigBlock} {name : String} (hlabels : block.labels = [name]) :
    Tries file .module (.block block)
      (.module <$> Module.ofBlock (file.blockPlace "module" block) name block.body)
  | provider {block : ConfigBlock} {name : String} (hlabels : block.labels = [name]) :
    Tries file .provider (.block block)
      (.provider <$> Provider.ofBlock (file.blockPlace "provider" block) name block.body)
  | output {block : ConfigBlock} {name : String} (hlabels : block.labels = [name]) :
    Tries file .output (.block block)
      (.output <$> Output.ofBlock (file.blockPlace "output" block) name block.body)
  | variable {block : ConfigBlock} {name : String} (hlabels : block.labels = [name]) :
    Tries file .variable (.block block)
      (.variable <$> Variable.ofBlock (file.blockPlace "variable" block) name block.body true)
  | localValue {block : ConfigBlock} {name : String} {value : Node} {span : Span}
    (hspan : file.configText.locateAttribute
      (file.configText.locate "locals" [] block.occurrence) name = .ok span) :
    Tries file .localValue (.localEntry block name value)
      (.localValue <$> LocalValue.ofNode ⟨file.path, span⟩ name value)
  | planned {entry : Body} :
    Tries file .resource (.planned entry)
      (.resource <$> Resource.ofPlan
        (file.exportPlace "resource" [Plan.address entry, entry.textAt "type" ""]) entry)
  | stateInstance {resource inst : Body} :
    Tries file .resource (.stateInstance resource inst)
      (.resource <$> Resource.ofInstance
        (file.exportPlace "resource" [resource.textAt "type" "", resource.textAt "name" "",
          resource.textAt "mode" "", resource.textAt "module" ""]) resource inst)
  | noInstances {resource : Body} :
    Tries file .resource (.noInstances resource)
      (.error (.typeMismatch "resource" (State.address resource) "instances" .list))
  | exportedOutput {name : String} {body : Body} :
    Tries file .output (.exported name body)
      (.output <$> Output.ofBlock (file.exportPlace "output" [name]) name body)
  | exportedVariable {name : String} {body : Body} :
    Tries file .variable (.exported name body)
      (.variable <$> Variable.ofBlock (file.exportPlace "variable" [name]) name body false)

/-- The lines that the blocks of a configuration note lie within the file, as far as they are read
one by one. -/
def LinesWithin (file : SourceFile) : Prop :=
  file.kind = .config → ∀ body ∈ file.configText.matchingBodies "locals" [],
    lineNumber body Hcl.endKey ≤ file.configText.lines.length

end SourceFile

/-- The errors of the attempts that failed. -/
def failures (attempts : List Attempt) : List BuildError :=
  attempts.filterMap fun attempt =>
    match attempt with
    | .ok _ => none
    | .error e => some e

/-- The entities that were built, an error for each attempt that failed, and the first of these. -/
def Listing.ofAttempts (kind : ListKind) (path : String) (attempts : List Attempt) : Listing where
  entities := attempts.filterMap Except.toOption
  records := (failures attempts).map (.buildFailed kind path)
  failure := (failures attempts).head?.map .build

theorem Attempt.step_eq {attempt : Attempt} (h : IsNoted attempt) : attempt.step = .ok attempt := by
  unfold step
  split
  · exact absurd rfl h
  · rfl

/-- Attempts that are all noted end no listing early. -/
theorem ofSteps_attempts (kind : ListKind) (path : String) : ∀ (attempts : List Attempt)
    (first : Option BuildError), (∀ attempt ∈ attempts, IsNoted attempt) →
    Listing.ofSteps kind path first (attempts.map Attempt.step)
      = { Listing.ofAttempts kind path attempts with
          failure := (first.or (failures attempts).head?).map .build }
  | [], first, _ => by
    rw [failures, List.filterMap_nil, List.head?_nil, Option.or_none]
    rfl
  | .ok entity :: attempts, first, h => by
    obtain ⟨hattempt, hattempts⟩ := List.forall_mem_cons.mp h
    rw [List.map_cons, Attempt.step_eq hattempt, Listing.ofSteps,
      ofSteps_attempts kind path attempts first hattempts]
    rfl
  | .error e :: attempts, first, h => by
    obtain ⟨hattempt, hattempts⟩ := List.forall_mem_cons.mp h
    rw [List.map_cons, Attempt.step_eq hattempt, Listing.ofSteps,
      ofSteps_attempts kind path attempts (first.or (some e)) hattempts, Option.or_assoc]
    rfl

namespace ConfigText

/-- Brackets are counted to the limit at most, and the lines go on up to there. -/
theorem attributeEnd_within (limit : Int) : ∀ (depth line : Int) (lines : List (List Char)),
    limit < line + lines.length → ∃ last, attributeEnd limit depth line lines = .ok last
  | depth, line, [], h => by
    rw [List.length_nil, Int.natCast_zero, Int.add_zero] at h
    exact ⟨limit, by rw [attributeEnd, if_pos h]⟩
  | depth, line, text :: rest, h => by
    rw [List.length_cons] at h
    unfold attributeEnd
    split_ifs
    · exact ⟨limit, rfl⟩
    · dsimp only
      split_ifs
      · exact ⟨line, rfl⟩
      · exact attributeEnd_within limit _ (line + 1) rest (by omega)

theorem attributeLines_within (name : List Char) (limit : Int) :
    ∀ (depth line : Int) (lines : List (List Char)), limit < line + lines.length →
    ∃ found, attributeLines name limit depth line lines = .ok found
  | depth, line, [], h => by
    rw [List.length_nil, Int.natCast_zero, Int.add_zero] at h
    exact ⟨none, by rw [attributeLines, if_pos h]⟩
  | depth, line, text :: rest, h => by
    have hrest := h
    rw [List.length_cons] at hrest
    unfold attributeLines
    split_ifs
    · exact ⟨none, rfl⟩
    · dsimp only
      split_ifs
      · obtain ⟨last, hlast⟩ := attributeEnd_within limit 0 line (text :: rest) h
        exact ⟨some (line, last), by rw [hlast]; rfl⟩
      · exact attributeLines_within name limit _ (line + 1) rest (by omega)

/-- Within a block that ends in the text, an attribute is found or not, but no line is missing. -/
theorem locateAttribute_within {text : ConfigText} {block : Span} (name : String)
    (h : block.found = true → block.endLine ≤ text.lines.length) :
    ∃ span, text.locateAttribute block name = .ok span := by
  unfold locateAttribute
  cases hfound : block.found with
  | false => exact ⟨.empty, rfl⟩
  | true =>
    have hend := h hfound
    have hstart : 0 < block.startLine := of_decide_eq_true hfound
    have hlimit : block.endLine
        < block.startLine + (text.lines.drop (block.startLine.toNat - 1)).length := by
      rw [List.length_drop]
      omega
    obtain ⟨found, hlines⟩ := attributeLines_within name.toList block.endLine 0 block.startLine _
      hlimit
    simp only [hlines, Json.ok_bind]
    cases found with
    | none => exact ⟨.empty, rfl⟩
    | some lines => exact ⟨_, rfl⟩

/-- A span that was located is one that a matching body notes. -/
theorem endLine_locate {text : ConfigText} {kind : String} {labels : List String} {limit : Int}
    (occurrence : Int)
    (hlimit : ∀ body ∈ text.matchingBodies kind labels, lineNumber body Hcl.endKey ≤ limit)
    (h : (text.locate kind labels occurrence).found = true) :
    (text.locate kind labels occurrence).endLine ≤ limit := by
  unfold locate at h ⊢
  split at h
  · exact absurd h (by decide)
  · rename_i count _
    split_ifs at h ⊢
    · exact absurd h (by decide)
    · split at h
      · rename_i body hbody
        have hmem := hlimit body (List.mem_of_getElem? hbody)
        simp only [spanOf] at h ⊢
        split_ifs at h ⊢
        · exact absurd h (by decide)
        · exact hmem
      · exact absurd h (by decide)

end ConfigText

section EverySite

theorem length_configBlock {tree : Body} {kind : String} {depth : Nat} {block : ConfigBlock}
    (h : block ∈ configBlocks tree kind depth) : block.labels.length = depth := by
  rw [configBlocks_eq] at h
  have hnumbers := numberBlocks_matching (labelledBodies tree kind depth)
  obtain ⟨n, hn, rfl⟩ := List.mem_iff_getElem.mp h
  have hsource := (List.forall₂_iff_get.mp hnumbers).2 n hn
    (by rw [← hnumbers.length_eq]; exact hn)
  rw [List.get_eq_getElem] at hsource
  rw [hsource.labels]
  exact length_labels hsource.mem

/-- If every block is made into an attempt, the attempts are those on all blocks. -/
theorem forall₂_filterMap {R : Site → Attempt → Prop} {f : ConfigBlock → Option Attempt} :
    ∀ {blocks : List ConfigBlock}, (∀ block ∈ blocks, ∃ attempt, f block = some attempt
      ∧ R (.block block) attempt) →
    List.Forall₂ R (blocks.map .block) (blocks.filterMap f)
  | [], _ => .nil
  | block :: blocks, h => by
    obtain ⟨⟨attempt, hattempt, htries⟩, hrest⟩ := List.forall_mem_cons.mp h
    rw [List.filterMap_cons_some hattempt]
    exact .cons htries (forall₂_filterMap hrest)

namespace SourceFile

variable {file : SourceFile} {kind : ListKind}

theorem labelledAttempts_tries {type : String} {build : Located → String → Body → Attempt}
    (h : ∀ {block : ConfigBlock} {name : String}, block.labels = [name] →
      file.Tries kind (.block block) (build (file.blockPlace type block) name block.body)) :
    List.Forall₂ (file.Tries kind) ((configBlocks file.tree type 1).map .block)
      (file.labelledAttempts type build) := by
  refine forall₂_filterMap fun block hblock => ?_
  obtain ⟨name, hlabels⟩ := List.length_eq_one_iff.mp (length_configBlock hblock)
  exact ⟨_, by rw [hlabels], h hlabels⟩

theorem typedAttempts_tries {type : String} {build : Located → String → String → Body → Attempt}
    (h : ∀ {block : ConfigBlock} {label name : String}, block.labels = [label, name] →
      file.Tries kind (.block block) (build (file.blockPlace type block) label name block.body)) :
    List.Forall₂ (file.Tries kind) ((configBlocks file.tree type 2).map .block)
      (file.typedAttempts type build) := by
  refine forall₂_filterMap fun block hblock => ?_
  obtain ⟨label, name, hlabels⟩ := List.length_eq_two.mp (length_configBlock hblock)
  exact ⟨_, by rw [hlabels], h hlabels⟩

theorem entryAttempts_tries {type : String} {node : Option Node}
    {build : Located → String → Body → Attempt}
    (h : ∀ {name : String} {body : Body},
      file.Tries kind (.exported name body) (build (file.exportPlace type [name]) name body)) :
    List.Forall₂ (file.Tries kind) ((namedEntries node).map fun (name, body) => .exported name body)
      (file.entryAttempts type node build) :=
  forall₂_map_map fun _ _ => h

theorem planAttempts_tries :
    List.Forall₂ (file.Tries .resource) ((Plan.entries file.tree).map .planned)
      file.planAttempts :=
  forall₂_map_map fun _ _ => .planned

theorem instanceAttempts_tries (resource : Body) :
    List.Forall₂ (file.Tries .resource) (State.sites resource)
      (instanceAttempts (file.exportPlace "resource" [resource.textAt "type" "",
        resource.textAt "name" "", resource.textAt "mode" "", resource.textAt "module" ""])
        resource) := by
  unfold instanceAttempts State.instances State.sites
  cases resource.present? "instances" with
  | none => exact .nil
  | some node =>
    cases node with
    | list items => exact forall₂_map_map fun _ _ => .stateInstance
    | scalar | map | stray => exact .cons .noInstances .nil

theorem stateAttempts_tries :
    List.Forall₂ (file.Tries .resource) ((State.resources file.tree).flatMap State.sites)
      file.stateAttempts := by
  unfold stateAttempts
  induction State.resources file.tree with
  | nil => exact .nil
  | cons resource resources ih =>
    rw [List.flatMap_cons, List.flatMap_cons]
    exact List.rel_append (instanceAttempts_tries resource) ih

/-- Only an attempt on an instance of a state can be one that is not noted. -/
theorem isNoted_of_tries {site : Site} {attempt : Attempt} (h : file.Tries kind site attempt)
    (hsite : ∀ resource inst, site = .stateInstance resource inst →
      ∀ place, IsNoted (Resource.ofInstance place resource inst)) : IsNoted attempt := by
  cases h with
  | planned => exact (isNoted_planned _ _).map
  | stateInstance => exact (hsite _ _ rfl _).map
  | noInstances => exact nofun
  | localValue =>
    refine IsNoted.map (IsNoted.bind (.supported _) fun _ => ?_)
    exact nofun
  | _ =>
    refine IsNoted.map (IsNoted.bind (isNoted_extract _ _ _) fun _ => ?_)
    exact nofun

/-- A step that is the attempt on a site. -/
def TriesStep (file : SourceFile) (kind : ListKind) (site : Site) (step : Step) : Prop :=
  ∃ attempt, file.Tries kind site attempt ∧ step = attempt.step

theorem triesStep_step {sites : List Site} {attempts : List Attempt}
    (h : List.Forall₂ (file.Tries kind) sites attempts) :
    List.Forall₂ (file.TriesStep kind) sites (attempts.map Attempt.step) :=
  List.forall₂_map_right_iff.mpr (h.imp fun _ attempt htries => ⟨attempt, htries, rfl⟩)

/-- Attempts on anything but resources are all noted. -/
theorem triesStep_map (hkind : kind ≠ .resource) {sites : List Site} {attempts : List Attempt}
    (h : List.Forall₂ (file.Tries kind) sites attempts) :
    List.Forall₂ (file.TriesStep kind) sites (attempts.map .ok) := by
  refine List.forall₂_map_right_iff.mpr (h.imp fun site attempt htries => ⟨attempt, htries, ?_⟩)
  refine (Attempt.step_eq (isNoted_of_tries htries ?_)).symm
  rintro resource inst rfl
  cases htries
  exact absurd rfl hkind

/-- No step on a `locals` block whose lines are there ends the listing. -/
theorem localSteps_tries (hlines : ∀ body ∈ file.configText.matchingBodies "locals" [],
    lineNumber body Hcl.endKey ≤ file.configText.lines.length) (block : ConfigBlock) :
    List.Forall₂ (file.TriesStep .localValue)
      (block.body.map fun (name, value) => .localEntry block name value)
      (file.localSteps block) := by
  refine forall₂_map_map fun (name, value) _ => ?_
  obtain ⟨span, hspan⟩ := ConfigText.locateAttribute_within name
    (ConfigText.endLine_locate block.occurrence hlines)
  refine ⟨_, .localValue hspan, ?_⟩
  have htries : file.Tries .localValue (.localEntry block name value) _ := .localValue hspan
  rw [Attempt.step_eq (isNoted_of_tries htries nofun)]
  simp only [hspan]
  rfl

theorem localValueSteps_tries (hlines : ∀ body ∈ file.configText.matchingBodies "locals" [],
    lineNumber body Hcl.endKey ≤ file.configText.lines.length) (blocks : List ConfigBlock) :
    List.Forall₂ (file.TriesStep .localValue)
      (blocks.flatMap fun block =>
        block.body.map fun (name, value) => .localEntry block name value)
      (blocks.flatMap file.localSteps) := by
  induction blocks with
  | nil => exact .nil
  | cons block blocks ih =>
    rw [List.flatMap_cons, List.flatMap_cons]
    exact List.rel_append (localSteps_tries hlines block) ih

/-- Only the steps on local values need the lines of their blocks to be there. -/
theorem configSteps_tries (hconfig : file.kind = .config) :
    ∀ kind, (kind = .localValue → file.LinesWithin) →
      List.Forall₂ (file.TriesStep kind) (file.configSites kind) (file.steps kind)
  | .resource, _ => by
    rw [steps, resourceAttempts, hconfig]
    exact triesStep_step (typedAttempts_tries .resource)
  | .dataSource, _ => by
    simp only [steps, if_pos hconfig]
    exact triesStep_map (by decide) (typedAttempts_tries .dataSource)
  | .module, _ => by
    simp only [steps, if_pos hconfig]
    exact triesStep_map (by decide) (labelledAttempts_tries .module)
  | .output, _ => by
    simp only [steps, outputAttempts, if_pos hconfig]
    exact triesStep_map (by decide) (labelledAttempts_tries .output)
  | .variable, _ => by
    simp only [steps, variableAttempts, if_pos hconfig, decide_eq_true hconfig]
    exact triesStep_map (by decide) (labelledAttempts_tries .variable)
  | .provider, _ => by
    simp only [steps, if_pos hconfig]
    exact triesStep_map (by decide) (labelledAttempts_tries .provider)
  | .localValue, hlines => by
    simp only [steps, if_pos hconfig]
    exact localValueSteps_tries (hlines rfl hconfig) _

theorem exportSteps_tries (hexport : file.kind ≠ .config) :
    ∀ kind, List.Forall₂ (file.TriesStep kind) (file.exportSites kind) (file.steps kind)
  | .resource => by
    rw [steps, resourceAttempts, exportSites]
    cases hkind : file.kind with
    | config => exact absurd hkind hexport
    | plan => exact triesStep_step planAttempts_tries
    | state => exact triesStep_step stateAttempts_tries
  | .output => by
    simp only [steps, outputAttempts, if_neg hexport]
    exact triesStep_map (by decide) (entryAttempts_tries .exportedOutput)
  | .variable => by
    simp only [steps, variableAttempts, if_neg hexport, decide_eq_false hexport]
    exact triesStep_map (by decide) (entryAttempts_tries .exportedVariable)
  | .dataSource | .module | .provider | .localValue => by
    simp only [steps, if_neg hexport]
    exact .nil

theorem steps_tries (kind : ListKind) (hlines : file.LinesWithin) :
    List.Forall₂ (file.TriesStep kind) (file.sites kind) (file.steps kind) := by
  unfold sites
  split_ifs with hconfig
  · exact configSteps_tries hconfig kind fun _ => hlines
  · exact exportSteps_tries hconfig kind

theorem attempts_of_triesStep : ∀ {sites : List Site} {steps : List Step},
    List.Forall₂ (file.TriesStep kind) sites steps →
    ∃ attempts, List.Forall₂ (file.Tries kind) sites attempts ∧ steps = attempts.map Attempt.step
  | _, _, .nil => ⟨[], .nil, rfl⟩
  | _, _, .cons ⟨attempt, htries, hstep⟩ hrest => by
    obtain ⟨attempts, hattempts, hsteps⟩ := attempts_of_triesStep hrest
    exact ⟨attempt :: attempts, .cons htries hattempts, by rw [hstep, hsteps]; rfl⟩

/-- What is tried in a tree that can be written is noted where it fails. -/
theorem isNoted_attempts {attempts : List Attempt}
    (htree : file.kind ≠ .config → (Node.map file.tree).Writable)
    (h : List.Forall₂ (file.Tries kind) (file.sites kind) attempts) :
    ∀ attempt ∈ attempts, IsNoted attempt := by
  intro attempt hattempt
  obtain ⟨site, hsite, htries⟩ := forall₂_mem_right h hattempt
  refine isNoted_of_tries htries ?_
  rintro resource inst rfl place hlong
  have hexport : file.kind ≠ .config := fun hconfig => by
    rw [sites, if_pos hconfig] at hsite
    cases kind <;> simp [configSites] at hsite
  obtain ⟨hresource, hinst⟩ : Site.PartOf (.map file.tree) (.stateInstance resource inst) :=
    parts_sites kind _ hsite
  have hsettles : Settles _ (Resource.ofInstance place resource inst) :=
    instance_settles place (writable_map.mp (hresource.writable (htree hexport)))
      (writable_map.mp (hinst.writable (htree hexport)))
  rw [hlong] at hsettles
  obtain ⟨_, _, _, _, hmismatch⟩ := hsettles.isMismatch
  cases hmismatch

/-- Steps that are all tried come to what the attempts come to. -/
theorem ofSteps_tries (hsteps : List.Forall₂ (file.TriesStep kind) (file.sites kind)
      (file.steps kind)) (htree : file.kind ≠ .config → (Node.map file.tree).Writable) :
    ∃ attempts, List.Forall₂ (file.Tries kind) (file.sites kind) attempts
      ∧ Listing.ofSteps kind file.path none (file.steps kind)
        = Listing.ofAttempts kind file.path attempts := by
  obtain ⟨attempts, htries, hsteps⟩ := attempts_of_triesStep hsteps
  refine ⟨attempts, htries, ?_⟩
  rw [hsteps, ofSteps_attempts _ _ attempts none (isNoted_attempts htree htries), Option.none_or]
  rfl

/-- In a configuration nothing is tried that could fail without being noted. -/
theorem ofSteps_config (kind : ListKind) (hconfig : file.kind = .config)
    (hlines : kind = .localValue → file.LinesWithin) :
    ∃ attempts, List.Forall₂ (file.Tries kind) (file.configSites kind) attempts
      ∧ Listing.ofSteps kind file.path none (file.steps kind)
        = Listing.ofAttempts kind file.path attempts := by
  have hsites : file.sites kind = file.configSites kind := if_pos hconfig
  rw [← hsites]
  refine ofSteps_tries ?_ (absurd hconfig)
  rw [hsites]
  exact configSteps_tries hconfig kind hlines

end SourceFile

end EverySite

namespace Hcl

/-- A name that stands for itself is the value of an attribute. -/
theorem parseExpr_word (n line : Nat) (name : String) (rest : Tokens) :
    parseExpr (n + 4) (⟨.word name, line⟩ :: ⟨.newline, line⟩ :: rest)
      = some (.word name, ⟨.newline, line⟩ :: rest) := by
  simp only [parseExpr, parseOperand, parseTerm, parsePrimary, parseAccess, parseOperators,
    Option.bind_eq_bind, Option.bind_some]

theorem parseBody_attribute {n line : Nat} {name word : String} {items : List Item}
    {rest left : Tokens} (hrest : parseBody (n + 5) rest = some (items, left)) :
    parseBody (n + 6) (⟨.word name, line⟩ :: ⟨.mark .assign, line⟩ :: ⟨.word word, line⟩
        :: ⟨.newline, line⟩ :: rest)
      = some (.attribute name (.word word) :: items, left) := by
  rw [parseBody, skipNewlines]
  · simp only [parseItem, parseExpr_word, parseBody_newline, hrest, Option.bind_eq_bind,
      Option.bind_some, Option.pure_def]
  · intro _ _ h
    cases h

end Hcl

/-- A text that no value of an export begins is no plan. -/
theorem isPlanText_of_no_value {c : Char} {rest : List Char}
    (hblank : Json.skipBlanks (c :: rest) = c :: rest) (horder : c ≠ '\ufeff')
    (hmark : c ≠ '"' ∧ c ≠ '[' ∧ c ≠ '\x7b') (hword : Json.scanWord? (c :: rest) = none)
    (hnumber : Json.scanNumber (c :: rest) = .error ⟨.expectingValue, c :: rest⟩) :
    isPlanText (c :: rest) = false := by
  have hvalue : Json.decodeFirst (c :: rest) = .error ⟨.expectingValue, c :: rest⟩ := by
    rw [Json.decodeFirst, List.length_cons, Json.scanValue, hword, hnumber]
    all_goals simp [hmark]
  rw [isPlanText, Json.decode, Json.decodeWhole, hblank, hvalue]
  · rfl
  · simp [horder]

theorem classify_l (rest : List Char) :
    (FileItem.ofPath "main.tf").classify ('l' :: rest) = .config := by
  rw [FileItem.classify, isPlanText_of_no_value rfl (by decide) (by decide) (by rfl) rfl]
  rfl

theorem classify_v (rest : List Char) :
    (FileItem.ofPath "main.tf").classify ('v' :: rest) = .config := by
  rw [FileItem.classify, isPlanText_of_no_value rfl (by decide) (by decide) (by rfl) rfl]
  rfl

namespace BrokenOutput

/-- One of the outputs depends on something that is no list. -/
def text : List Char :=
  "locals \x7b\n  a = b\n\x7d\noutput x \x7b\n  depends_on = a\n\x7d\noutput y \x7b\n\x7d\n".toList

def soundTokens : Hcl.Tokens := [⟨.word "output", 7⟩, ⟨.word "y", 7⟩, ⟨.mark .openBrace, 7⟩,
  ⟨.newline, 7⟩, ⟨.mark .closeBrace, 8⟩, ⟨.newline, 8⟩, ⟨.newline, 9⟩]

def brokenTokens : Hcl.Tokens :=
  ⟨.word "output", 4⟩ :: ⟨.word "x", 4⟩ :: ⟨.mark .openBrace, 4⟩ :: ⟨.newline, 4⟩
    :: ⟨.word "depends_on", 5⟩ :: ⟨.mark .assign, 5⟩ :: ⟨.word "a", 5⟩ :: ⟨.newline, 5⟩
    :: ⟨.mark .closeBrace, 6⟩ :: ⟨.newline, 6⟩ :: soundTokens

def tokens : Hcl.Tokens :=
  ⟨.word "locals", 1⟩ :: ⟨.mark .openBrace, 1⟩ :: ⟨.newline, 1⟩ :: ⟨.word "a", 2⟩
    :: ⟨.mark .assign, 2⟩ :: ⟨.word "b", 2⟩ :: ⟨.newline, 2⟩ :: ⟨.mark .closeBrace, 3⟩
    :: ⟨.newline, 3⟩ :: brokenTokens

def items : List Hcl.Item := [
  .block "locals" [] [.attribute "a" (.word "b")] 1 3,
  .block "output" ["x"] [.attribute "depends_on" (.word "a")] 4 6,
  .block "output" ["y"] [] 7 8]

open Hcl in
theorem parse_tokens : parseBody 216 tokens = some (items, []) := by
  have hend : parseBody 213 [⟨.newline, 8⟩, ⟨.newline, 9⟩] = some ([], []) := by
    rw [parseBody_newline, parseBody_newline, parseBody]
    rfl
  have hsound : parseBody 214 soundTokens = some ([.block "output" ["y"] [] 7 8], []) :=
    parseBody_block rfl (by simp) (parseBody_newline 211 7 _ ▸ parseBody_closing 211 8 _) hend
  have hbroken : parseBody 215 brokenTokens = some ([
      .block "output" ["x"] [.attribute "depends_on" (.word "a")] 4 6,
      .block "output" ["y"] [] 7 8], []) :=
    parseBody_block rfl (by simp)
      (parseBody_newline 212 4 _ ▸ parseBody_attribute (parseBody_closing 211 6 _))
      (parseBody_newline 213 6 _ ▸ hsound)
  exact parseBody_block rfl (by simp)
    (parseBody_newline 213 1 _ ▸ parseBody_attribute (parseBody_closing 212 3 _))
    (parseBody_newline 214 3 _ ▸ hbroken)

set_option maxRecDepth 20000 in
theorem parse_text : Hcl.parse text = some items := by
  have htokens : Hcl.tokenize (text ++ ['\n']) = some tokens := by rfl
  have hparse := parse_tokens
  rw [Hcl.parse, htokens]
  rw [show (216 : Nat) = 8 * tokens.length + 8 from rfl] at hparse
  simp only [Option.bind_eq_bind, Option.bind_some, hparse]

def root : List (String × Raw) :=
  let lines (first last : Int) := [(Hcl.startKey, .int first), (Hcl.endKey, .int last)]
  [("locals", .list [.map (("a", .text "$\x7bb\x7d") :: lines 1 3)]),
    ("output", .list [.map [("x", .map (("depends_on", .text "$\x7ba\x7d") :: lines 4 6))],
      .map [("y", .map (lines 7 8))]])]

def tree : Body :=
  let lines (first last : Int) :=
    [(Hcl.startKey, .scalar (.int first)), (Hcl.endKey, .scalar (.int last))]
  [("locals", .list [.map (("a", .scalar (.text "$\x7bb\x7d")) :: lines 1 3)]),
    ("output", .list [
      .map [("x", .map (("depends_on", .scalar (.text "$\x7ba\x7d")) :: lines 4 6))],
      .map [("y", .map (lines 7 8))]])]

theorem decode_text : Hcl.decode text = some (.map root) := by
  have hitems : Hcl.Item.addItems [] [] items = some root := by rfl
  rw [Hcl.decode, parse_text]
  simp only [Option.bind_eq_bind, Option.bind_some, hitems]
  rfl

theorem parseConfig_text : parseConfig Hcl.decode "main.tf" text = .ok tree := by
  have hnode : Node.ofRaw (.map root) = .ok (.map tree) := by rfl
  simp only [parseConfig, decode_text, documentOf, hnode]

def store : FileStore := .ofText "main.tf" text

def file : SourceFile := ⟨"main.tf", String.ofList text, .config, tree⟩

theorem classify_text : (FileItem.ofPath "main.tf").classify text = .config :=
  classify_l (text.drop 1)

/-- Any store with the usual stack that has the text under this path holds it. -/
theorem holds_of_reads {store : FileStore} (hreads : (FileItem.ofPath "main.tf").Reads store text)
    (hstack : store.stack = .usual) (hparser : store.parser = Hcl.decode) :
    (FileItem.ofPath "main.tf").Holds store text := by
  refine FileItem.holds_config hreads hstack classify_text (by decide) ?_
  rw [hparser, decode_text]
  rfl

theorem holds_text : (FileItem.ofPath "main.tf").Holds store text :=
  holds_of_reads (FileItem.reads_ofText (by rfl) (by decide)) rfl rfl

theorem load_of_holds {store : FileStore} (hholds : (FileItem.ofPath "main.tf").Holds store text)
    (hparser : store.parser = Hcl.decode) : load store (.ofPath "main.tf") = .ok file := by
  have hpath : (FileItem.ofPath "main.tf").path = "main.tf" := rfl
  rw [load_holds hholds, hparser, classify_text, parseAs, hpath, parseConfig_text]
  rfl

theorem load_text : load store (.ofPath "main.tf") = .ok file :=
  load_of_holds holds_text rfl

theorem linesWithin : file.LinesWithin := by
  intro _
  decide

end BrokenOutput

namespace BrokenExport

open Json

/-- Of the three outputs one depends on something that is no list, and one is no map. -/
def root : List (String × Raw) := [("outputs", .map [("x", .map [("depends_on", .bool true)]),
  ("y", .map []), ("z", .bool false)])]

def text : List Char := (Indent.ascii 1).text (.map root)

def store : FileStore := .ofText "terraform.tfstate" text

def tree : Body := [("outputs", .map [("x", .map [("depends_on", .scalar (.bool true))]),
  ("y", .map []), ("z", .scalar (.bool false))])]

def file : SourceFile := ⟨"terraform.tfstate", String.ofList text, .state, tree⟩

theorem isDocument_root : (Raw.map root).IsDocument := by
  simp [root, Raw.IsDocument, entriesAreDocuments]

theorem classify_text : (FileItem.ofPath "terraform.tfstate").classify text = .state := rfl

theorem holds_text : (FileItem.ofPath "terraform.tfstate").Holds store text :=
  FileItem.holds_text (FileItem.reads_ofText (by rfl) (by decide)) rfl isDocument_root nofun
    (by decide) (by decide)

theorem load_text : load store (.ofPath "terraform.tfstate") = .ok file := by
  have hparse : parseExport "terraform.tfstate" text = .ok tree :=
    (parseExport_iff _ tree isDocument_root).mpr rfl
  rw [load_holds holds_text, classify_text]
  show (parseExport "terraform.tfstate" text >>= _) = _
  rw [hparse]
  rfl

theorem linesWithin : file.LinesWithin := nofun

end BrokenExport

end TerraIndex
