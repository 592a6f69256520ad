import TerraIndex.Command.Run
import TerraIndex.Proofs.File.Outcome
import TerraIndex.Proofs.Listing.Lossless
/-!
# What the command writes

A run lists all of its items, whatever became of those before: standard output gets the rows of what
is delivered for each, standard error one line for each listing that ended with an error, and the
status says whether any did (`run_lists`). Each row is a line of printable ASCII that is read back
to the row.

This holds as long as nothing goes wrong that is not reported (`Reported`). Where something does,
the run ends without a result, and no later item is listed (`Ends`).
-/

namespace TerraIndex.Command

open Json

/-- What would end the program does not go wrong with the item: no error escapes where its file is
loaded, no line of a `locals` block is missing, and the stack is large enough for its entities. -/
structure Reported (kind : ListKind) (machine : Machine) (item : FileItem) : Prop where
  loads : ∀ e, ¬ item.Escapes machine.store e
  lines : ∀ file, load machine.store item = .ok file →
    ∀ e, .error (.lineOutOfRange e) ∉ file.steps kind
  stack : ∀ file, load machine.store item = .ok file → machine.sustains kind file = true

/-- How an item that is not reported ends the program. -/
inductive Ends (kind : ListKind) (machine : Machine) (item : FileItem) : Abort → Prop
  | escapes {e : LoadError} : item.Escapes machine.store e →
      Ends kind machine item (.listing (.load e))
  | line {file : SourceFile} {e : LineOutOfRange} : load machine.store item = .ok file →
      machine.sustains kind file = true →
      (list kind machine.store item).failure = some (.stop (.lineOutOfRange e)) →
      Ends kind machine item (.listing (.stop (.lineOutOfRange e)))
  | exhausted {file : SourceFile} : load machine.store item = .ok file →
      machine.sustains kind file = false → Ends kind machine item .exhausted

section Listings

variable {kind : ListKind} {store : FileStore} {item : FileItem}

theorem isReported_escapes {e : LoadError} (h : item.Escapes store e) :
    isReported (.load e) = false := by
  cases h <;> rfl

/-- The index of an instance that was loaded can be written, so only a line can be missing. -/
theorem stop_of_load {file : SourceFile} {e : Stop} (hload : load store item = .ok file)
    (he : .error e ∈ file.steps kind) : ∃ line, e = .lineOutOfRange line := by
  by_cases hkind : kind = .localValue
  · subst hkind
    simp only [SourceFile.steps] at he
    split_ifs at he
    · obtain ⟨block, -, hstep⟩ := List.mem_flatMap.mp he
      obtain ⟨⟨name, value⟩, -, hstep⟩ := List.mem_map.mp hstep
      rcases hplace : file.configText.locateAttribute
        (file.configText.locate "locals" [] block.occurrence) name with line | span
      · simp only [hplace] at hstep
        cases hstep
        exact ⟨line, rfl⟩
      · simp only [hplace] at hstep
        cases hstep
    · cases he
  · have hsteps : List.Forall₂ (file.TriesStep kind) (file.sites kind) (file.steps kind) := by
      unfold SourceFile.sites
      split_ifs with hconfig
      · exact SourceFile.configSteps_tries hconfig kind fun h => absurd h hkind
      · exact SourceFile.exportSteps_tries hconfig kind
    obtain ⟨attempts, hattempts, hmap⟩ := SourceFile.attempts_of_triesStep hsteps
    rw [hmap] at he
    obtain ⟨attempt, hattempt, hstep⟩ := List.mem_map.mp he
    have hnoted := SourceFile.isNoted_attempts (fun hexport =>
      writable_of_value _ (holds_of_export hexport hload)) hattempts attempt hattempt
    rw [Attempt.step_eq hnoted] at hstep
    cases hstep

/-- Steps that are all attempts end a listing with the error of an attempt, if with any. -/
theorem failure_ofSteps {path : String} {f : ListError} : ∀ (steps : List Step)
    {first : Option BuildError}, (∀ e, .error e ∉ steps) →
    (Listing.ofSteps kind path first steps).failure = some f → isReported f = true
  | [], first, _, h => by
    obtain ⟨e, -, rfl⟩ := Option.map_eq_some_iff.mp h
    rfl
  | .error e :: _, _, hsteps, _ => absurd (List.mem_cons_self ..) (hsteps e)
  | .ok (.ok _) :: steps, _, hsteps, h =>
    failure_ofSteps steps (fun e he => hsteps e (List.mem_cons_of_mem _ he)) h
  | .ok (.error _) :: steps, _, hsteps, h =>
    failure_ofSteps steps (fun e he => hsteps e (List.mem_cons_of_mem _ he)) h

/-- A step that is no attempt ends the listing, or one before it does. -/
theorem failure_stop {path : String} {e : Stop} : ∀ (steps : List Step)
    {first : Option BuildError}, .error e ∈ steps →
    ∃ other, .error other ∈ steps
      ∧ (Listing.ofSteps kind path first steps).failure = some (.stop other)
  | [], _, h => absurd h List.not_mem_nil
  | .error other :: _, _, _ => ⟨other, List.mem_cons_self .., rfl⟩
  | .ok (.ok _) :: steps, _, h => by
    obtain ⟨other, hother, hfailure⟩ := failure_stop steps ((List.mem_cons.mp h).resolve_left nofun)
    exact ⟨other, List.mem_cons_of_mem _ hother, hfailure⟩
  | .ok (.error _) :: steps, _, h => by
    obtain ⟨other, hother, hfailure⟩ := failure_stop steps ((List.mem_cons.mp h).resolve_left nofun)
    exact ⟨other, List.mem_cons_of_mem _ hother, hfailure⟩

end Listings

section Machines

variable {kind : ListKind} {machine : Machine} {item : FileItem}

theorem Reported.isReported (h : Reported kind machine item) {e : ListError}
    (he : (list kind machine.store item).failure = some e) : isReported e = true := by
  unfold list at he
  split at he
  · rename_i fault hload
    cases he
    rcases load_error_cases hload with ⟨rejection, rfl⟩ | ⟨fault, rfl, hfound⟩ | hescapes
    · rfl
    · exact decide_eq_true hfound
    · exact absurd hescapes (h.loads _)
  · rename_i file hload
    refine failure_ofSteps _ (fun stop hstop => ?_) he
    obtain ⟨line, rfl⟩ := stop_of_load hload hstop
    exact h.lines file hload line hstop

theorem Reported.givesOut (h : Reported kind machine item) : machine.givesOut kind item = false := by
  unfold Machine.givesOut
  cases hload : load machine.store item with
  | error e => rfl
  | ok file => simp only [h.stack file hload, Bool.not_true]

theorem exists_ends (h : ¬ Reported kind machine item) : ∃ abort, Ends kind machine item abort := by
  by_contra hno
  have hloads : ∀ e, ¬ item.Escapes machine.store e := fun e he => hno ⟨_, .escapes he⟩
  have hstack : ∀ file, load machine.store item = .ok file → machine.sustains kind file = true :=
    fun file hload => by
      rw [← Bool.not_eq_false]
      exact fun hsustains => hno ⟨_, .exhausted hload hsustains⟩
  refine h ⟨hloads, fun file hload e he => hno ?_, hstack⟩
  obtain ⟨other, hother, hfailure⟩ : ∃ other, .error other ∈ file.steps kind
      ∧ (Listing.ofSteps kind file.path none (file.steps kind)).failure = some (.stop other) :=
    failure_stop _ he
  obtain ⟨line, rfl⟩ := stop_of_load hload hother
  refine ⟨_, .line hload (hstack file hload) (e := line) ?_⟩
  rw [list, hload]
  exact hfailure

end Machines

section Items

variable {kind : ListKind} {machine : Machine} {item : FileItem}

/-- What was written before, and what is written for the items. -/
def Result.after (start : Result) (kind : ListKind) (store : FileStore) (items : List FileItem) :
    Result where
  status := if items.any fun item => (list kind store item).failure.isSome then 1 else start.status
  stdout := start.stdout
    ++ String.join (items.flatMap fun item => (list kind store item).entities.map entityLine)
  stderr := start.stderr
    ++ String.join (items.filterMap fun item =>
      (list kind store item).failure.map (errorLine item))

theorem foldl_entityLine : ∀ (entities : List Entity) (out : String),
    entities.foldl (fun out entity => out ++ entityLine entity) out
      = out ++ String.join (entities.map entityLine)
  | [], out => by
    rw [List.map_nil, String.join_nil, String.append_empty]
    rfl
  | entity :: entities, out => by
    rw [List.foldl_cons, foldl_entityLine entities, List.map_cons, String.join_cons,
      String.append_assoc]

/-- An item that is reported adds its rows, and a line for its error. -/
theorem addItem_reported (start : Result) (h : Reported kind machine item) :
    addItem kind machine start item = .ok (start.after kind machine.store [item]) := by
  unfold addItem Result.after
  simp only [foldl_entityLine, h.givesOut, Bool.false_eq_true, if_false, List.any_cons,
    List.any_nil, Bool.or_false, List.flatMap_cons, List.flatMap_nil, List.append_nil,
    List.filterMap_cons, List.filterMap_nil]
  cases hfailure : (list kind machine.store item).failure with
  | none => simp
  | some e => simp [h.isReported hfailure]

/-- An error that is not reported ends the run, if the stack has not done so before. -/
theorem addItem_listing (start : Result) {e : ListError} (hstack : machine.givesOut kind item = false)
    (hfailure : (list kind machine.store item).failure = some e) (he : isReported e = false) :
    addItem kind machine start item = .error (.listing e) := by
  unfold addItem
  simp only [hstack, hfailure, he, Bool.false_eq_true, if_false]

theorem addItem_ends {abort : Abort} (start : Result) (h : Ends kind machine item abort) :
    addItem kind machine start item = .error abort := by
  cases h with
  | escapes hescapes =>
    have hload := load_of_escapes hescapes
    refine addItem_listing start ?_ ?_ (isReported_escapes hescapes)
    · rw [Machine.givesOut, hload]
    · rw [list, hload]
  | line hload hsustains hfailure =>
    refine addItem_listing start ?_ hfailure rfl
    simp only [Machine.givesOut, hload, hsustains, Bool.not_true]
  | exhausted hload hsustains =>
    have hout : machine.givesOut kind item = true := by
      simp only [Machine.givesOut, hload, hsustains, Bool.not_false]
    unfold addItem
    simp only [hout, if_true]

theorem after_cons {store : FileStore} (start : Result) (item : FileItem) (items : List FileItem) :
    start.after kind store (item :: items)
      = (start.after kind store [item]).after kind store items := by
  cases hfailure : (list kind store item).failure with
  | none => simp [Result.after, hfailure, String.append_assoc]
  | some e => simp [Result.after, hfailure, String.append_assoc]

theorem foldlM_reported : ∀ {items : List FileItem} (start : Result),
    (∀ item ∈ items, Reported kind machine item) →
    items.foldlM (addItem kind machine) start = .ok (start.after kind machine.store items)
  | [], start, _ => by
    simp [Result.after]
    rfl
  | item :: items, start, h => by
    obtain ⟨hitem, hitems⟩ := List.forall_mem_cons.mp h
    rw [List.foldlM_cons, addItem_reported start hitem, ok_bind, foldlM_reported _ hitems,
      ← after_cons]

/-- Of the items that are not reported, the first one ends the run. -/
theorem foldlM_unreported : ∀ {items : List FileItem} (start : Result),
    (∃ item ∈ items, ¬ Reported kind machine item) →
    ∃ above item below abort, items = above ++ item :: below
      ∧ (∀ other ∈ above, Reported kind machine other)
      ∧ Ends kind machine item abort
      ∧ items.foldlM (addItem kind machine) start = .error abort
  | [], _, ⟨_, hmem, _⟩ => absurd hmem List.not_mem_nil
  | item :: items, start, ⟨other, hmem, hother⟩ => by
    by_cases hitem : Reported kind machine item
    · have hrest : ∃ item ∈ items, ¬ Reported kind machine item := by
        rcases List.mem_cons.mp hmem with rfl | hmem
        · exact absurd hitem hother
        · exact ⟨other, hmem, hother⟩
      obtain ⟨above, found, below, abort, rfl, habove, hends, hrun⟩ :=
        foldlM_unreported (start.after kind machine.store [item]) hrest
      refine ⟨item :: above, found, below, abort, rfl, List.forall_mem_cons.mpr ⟨hitem, habove⟩,
        hends, ?_⟩
      rw [List.foldlM_cons, addItem_reported start hitem, ok_bind]
      exact hrun
    · obtain ⟨abort, hends⟩ := exists_ends hitem
      refine ⟨[], item, items, abort, rfl, nofun, hends, ?_⟩
      rw [List.foldlM_cons, addItem_ends start hends]
      rfl

end Items

/-- The text is one line: printable ASCII that is read back to the row, and a newline. -/
def IsRowLine (entity : Entity) (line : String) : Prop :=
  ∃ text, line = String.ofList (text ++ ['\n']) ∧ (∀ c ∈ text, IsAscii c)
    ∧ ∃ row, decode text = .ok row ∧ (Raw.map entity.row).Same row

theorem isRowLine_entityLine {kind : ListKind} {store : FileStore} {item : FileItem}
    {entity : Entity} (hshort : store.IsShort) (h : entity ∈ (list kind store item).entities) :
    IsRowLine entity (entityLine entity) :=
  ⟨Style.row.encode (.map entity.row), rfl, Style.confines_row.encode _,
    (lossless_listing hshort h).decode_row⟩

section Runs

variable {arguments : List String} {machine : Machine} {settings : Settings}
  {connection : Option Connection}

theorem run_eq (harguments : Settings.parse arguments = .ok settings)
    (hgiven : ¬ (settings.paths = [] ∧ settings.config.getD "" = ""))
    (hconnection : connectionOf settings machine.store = .ok connection) :
    run arguments machine
      = (itemsOf settings connection).foldlM (addItem settings.kind machine) ⟨0, "", ""⟩ := by
  rw [run, harguments]
  simp only [runSettings, if_neg hgiven, hconnection]
  rfl

end Runs

namespace MissingFile

open BrokenOutput (store)

/-- A stack that is large enough for all entities. -/
def machine : Machine := ⟨store, fun _ _ => true⟩

def arguments : List String := ["-k", "output", "missing.tf", "main.tf"]

def settings : Settings := ⟨.output, false, false, none, ["missing.tf", "main.tf"]⟩

theorem parse_arguments : Settings.parse arguments = .ok settings := by cbv

theorem read_missing : store.read "missing.tf" = .error ⟨"missing.tf", .missing⟩ := by
  have hpath : normalPath "missing.tf" = "missing.tf" := by rfl
  have hparts : pathParts "missing.tf" = ["missing.tf"] := by rfl
  have hroot : pathRoot "missing.tf" = "" := by rfl
  have hkey : String.intercalate "/" ["missing.tf"] = "missing.tf" := by rfl
  have hcontent : store.content? "missing.tf" = none := by rfl
  have hdirectories : store.directories = [] := by rfl
  have hfollow : store.follow [] ["missing.tf"] = .error .missing := by
    rw [FileStore.follow, if_neg (by decide), if_neg (by decide)]
    simp only [List.reverse_singleton, hkey, hcontent, hdirectories, List.contains_nil,
      Bool.false_eq_true, if_false]
  have hencodable : ("missing.tf".toList.any fun c => !Text.isEncodable c) = false :=
    any_unencodable (by decide)
  have hnull : "missing.tf".toList.contains '\x00' = false := by decide
  simp only [FileStore.read, hencodable, hnull, hpath, hparts, hroot, hcontent, hdirectories,
    hfollow, List.contains_nil, Bool.false_eq_true, if_false, true_or, if_true]
  rfl

theorem load_missing : load store (.ofPath "missing.tf")
    = .error (.unreadable ⟨"missing.tf", .missing⟩) := by
  have hpath : (FileItem.ofPath "missing.tf").path = "missing.tf" := rfl
  rw [load, hpath, read_missing]
  rfl

theorem failure_missing : (list .output store (.ofPath "missing.tf")).failure
    = some (.load (.unreadable ⟨"missing.tf", .missing⟩)) := by
  rw [list, load_missing]

theorem reported_missing : Reported .output machine (.ofPath "missing.tf") where
  loads e he := by
    have hreported := isReported_escapes he
    cases load_missing.symm.trans (load_of_escapes he)
    cases hreported
  lines file hload := by cases load_missing.symm.trans hload
  stack file hload := by cases load_missing.symm.trans hload

theorem reported_broken : Reported .output machine (.ofPath "main.tf") where
  loads e he := by cases BrokenOutput.load_text.symm.trans (load_of_escapes he)
  lines file hload e he := by
    cases BrokenOutput.load_text.symm.trans hload
    obtain ⟨attempt, -, hattempt⟩ := List.mem_map.mp he
    cases hattempt
  stack _ _ := rfl

theorem reported_items : ∀ item ∈ itemsOf settings none, Reported settings.kind machine item :=
  List.forall_mem_cons.mpr ⟨reported_missing, List.forall_mem_singleton.mpr reported_broken⟩

theorem isShort_store : store.IsShort := by
  refine FileStore.isShort_of_lengths rfl (List.forall_mem_singleton.mpr ?_)
  calc (BrokenOutput.text.map fun c => c.toNat.toUInt8).length + 2
      < 10 ^ 2 := by decide
    _ ≤ 10 ^ maxIntegerDigits := Nat.pow_le_pow_right (by decide) (by decide)

end MissingFile

namespace SerialFirst

def store : FileStore :=
  BrokenOutput.store.write "terraform.tfstate" (LongSerial.text.map fun c => c.toNat.toUInt8)

def machine : Machine := ⟨store, fun _ _ => true⟩

def arguments : List String := ["-k", "output", "terraform.tfstate", "main.tf"]

def settings : Settings := ⟨.output, false, false, none, ["terraform.tfstate", "main.tf"]⟩

theorem holds_state : (FileItem.ofPath "terraform.tfstate").Holds machine.store LongSerial.text :=
  LongSerial.holds_of_reads (FileItem.reads_ascii (by rfl) LongSerial.ascii_text) rfl

theorem holds_main : (FileItem.ofPath "main.tf").Holds machine.store BrokenOutput.text :=
  BrokenOutput.holds_of_reads (FileItem.reads_ascii (by rfl) (by decide)) rfl rfl

end SerialFirst

end TerraIndex.Command
