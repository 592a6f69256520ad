import TerraIndex.Connection
import TerraIndex.Proofs.Document.Canonical
/-!
# The paths of a connection

A mapping makes a connection when all of its keys are known and each stands for a list of strings,
for null or for nothing (`ofEntries_ok_iff`). The items of the connection are the paths of these
lists, each under its classification (`items_ofRaw`).

A connection that is empty has no items. The converse holds as long as no path is overruled: an
empty list under `paths` wins over the paths of the configurations, and then nothing is listed,
although the connection does not count as empty (`not_empty_without_items`).
-/

namespace TerraIndex.Connection

/-- The paths that a mapping gives under a key, where a null counts as missing. -/
inductive Gives (entries : RawMap) (key : String) : Option (List String) → Prop
  | missing : entryAt? entries key = none → Gives entries key none
  | null : entryAt? entries key = some .null → Gives entries key none
  | paths {ps : List String} : entryAt? entries key = some (.list (ps.map .text)) →
      Gives entries key (some ps)

section ReadingMapping

theorem texts?_eq_some_iff : ∀ {items : List Raw} {ps : List String},
    texts? items = some ps ↔ items = ps.map .text
  | [], ps => by
    rw [texts?, Option.some.injEq, eq_comm, eq_comm (a := []), List.map_eq_nil_iff]
  | item :: items, ps => by
    cases item with
    | text s =>
      rw [texts?, Option.map_eq_some_iff]
      constructor
      · rintro ⟨rest, hrest, rfl⟩
        rw [texts?_eq_some_iff.mp hrest, List.map_cons]
      · intro h
        obtain ⟨first, rest, rfl, hfirst, hrest⟩ := List.map_eq_cons_iff.mp h.symm
        rw [Raw.text.inj hfirst]
        exact ⟨rest, texts?_eq_some_iff.mpr hrest.symm, rfl⟩
    | _ => cases ps <;> simp [texts?]

theorem pathsAt_ok_iff {entries : RawMap} {key : String} {paths : Option (List String)} :
    pathsAt entries key = .ok paths ↔ Gives entries key paths := by
  constructor
  · intro h
    unfold pathsAt at h
    split at h
    · rename_i hentry
      cases h
      exact .missing hentry
    · rename_i hentry
      cases h
      exact .null hentry
    · rename_i items hentry
      split at h
      · rename_i ps hps
        cases h
        exact .paths (texts?_eq_some_iff.mp hps ▸ hentry)
      · cases h
    · cases h
  · intro h
    cases h with
    | missing h => rw [pathsAt, h]
    | null h => rw [pathsAt, h]
    | paths h =>
      rw [pathsAt, h]
      simp only [texts?_eq_some_iff.mpr rfl]

theorem unknownKeys_eq_nil_iff {found : List String} :
    unknownKeys found = [] ↔ ∀ key ∈ found, key ∈ keys := by
  have hsorted : ∀ unknown : List (String × Unit), sortEntries unknown = [] ↔ unknown = [] :=
    fun unknown => by
      rw [← List.length_eq_zero_iff, (sortEntries_perm unknown).length_eq, List.length_eq_zero_iff]
  have hunique : ∀ unknown : List String, unknown.eraseDups = [] ↔ unknown = [] := by
    intro unknown
    cases unknown with
    | nil => simp
    | cons key unknown => simp [List.eraseDups_cons]
  rw [unknownKeys, List.map_eq_nil_iff, hsorted, List.map_eq_nil_iff, hunique,
    List.filter_eq_nil_iff]
  simp

/-- A mapping makes a connection if and only if it has known keys only and each gives paths or
nothing. Nothing counts as no paths for plans and states. -/
theorem ofEntries_ok_iff {entries : RawMap} {c : Connection} :
    ofEntries entries = .ok c ↔
      (∀ key ∈ entries.map Prod.fst, key ∈ keys) ∧ Gives entries "paths" c.paths
        ∧ Gives entries "configuration_file_paths" c.configurationPaths
        ∧ (∃ plans, Gives entries "plan_file_paths" plans ∧ c.planPaths = plans.getD [])
        ∧ ∃ states, Gives entries "state_file_paths" states ∧ c.statePaths = states.getD [] := by
  simp only [← pathsAt_ok_iff, ← unknownKeys_eq_nil_iff]
  unfold ofEntries
  constructor
  · intro h
    by_cases hunknown : unknownKeys (entries.map Prod.fst) = []
    · simp only [hunknown, ne_eq, not_true, if_false] at h
      obtain ⟨paths, hpaths, h⟩ := bind_ok h
      obtain ⟨configurations, hconfigurations, h⟩ := bind_ok h
      obtain ⟨plans, hplans, h⟩ := bind_ok h
      obtain ⟨states, hstates, h⟩ := bind_ok h
      cases h
      exact ⟨hunknown, hpaths, hconfigurations, ⟨plans, hplans, rfl⟩, states, hstates, rfl⟩
    · simp only [hunknown, ne_eq, not_false_eq_true, if_true] at h
      cases h
  · rintro ⟨hunknown, hpaths, hconfigurations, ⟨plans, hplans, hplan⟩, states, hstates, hstate⟩
    simp only [hunknown, ne_eq, not_true, if_false, hpaths, hconfigurations, hplans, hstates,
      Json.ok_bind, ← hplan, ← hstate]
    rfl

end ReadingMapping

section Items

theorem isSome_eq_false_iff {paths : Option (List String)} :
    isSome paths = false ↔ paths.getD [] = [] := by
  simp [isSome]

theorem isEmpty_iff {c : Connection} :
    c.isEmpty = true ↔ c.paths.getD [] = [] ∧ c.configurationPaths.getD [] = []
      ∧ c.planPaths = [] ∧ c.statePaths = [] := by
  simp only [isEmpty, Bool.not_eq_true', Bool.or_eq_false_iff, isSome_eq_false_iff,
    decide_eq_false_iff_not, ne_eq, not_not, and_assoc]

theorem items_eq_nil_iff {c : Connection} :
    c.items = [] ↔ c.effectivePaths = [] ∧ c.planPaths = [] ∧ c.statePaths = [] := by
  simp only [items, List.append_eq_nil_iff, List.map_eq_nil_iff, and_assoc]

theorem effectivePaths_eq (c : Connection) :
    c.effectivePaths = (c.paths.or c.configurationPaths).getD [] := by
  unfold effectivePaths
  cases c.paths <;> rfl

/-- An empty list under `paths` wins over paths of configurations. -/
def Overruled (c : Connection) : Prop := c.paths = some [] ∧ c.configurationPaths.getD [] ≠ []

/-- Without items a connection is empty, unless paths are overruled. -/
theorem isEmpty_iff_items {c : Connection} :
    c.isEmpty = true ↔ c.items = [] ∧ ¬ c.Overruled := by
  rw [isEmpty_iff, items_eq_nil_iff, effectivePaths_eq, Overruled]
  cases c.paths with
  | none => simp
  | some paths =>
    simp only [Option.some_or, Option.getD_some, Option.some.injEq]
    tauto

/-- **The items of a connection** are the configurations, then the plans, then the states, each
list of the mapping in its order under its own classification. A connection is empty if and only if
it has no items and no paths that are overruled. -/
theorem items_ofRaw {entries : RawMap} {c : Connection} (h : ofRaw (.map entries) = .ok c) :
    ∃ paths configurations plans states,
      Gives entries "paths" paths ∧ Gives entries "configuration_file_paths" configurations
        ∧ Gives entries "plan_file_paths" plans ∧ Gives entries "state_file_paths" states
        ∧ c.items = ((paths.or configurations).getD []).map (⟨·, false, false⟩)
            ++ (plans.getD []).map (⟨·, true, false⟩) ++ (states.getD []).map (⟨·, false, true⟩)
        ∧ (c.isEmpty = true
          ↔ c.items = [] ∧ ¬ (paths = some [] ∧ configurations.getD [] ≠ [])) := by
  obtain ⟨-, hpaths, hconfigurations, ⟨plans, hplans, hplan⟩, states, hstates, hstate⟩ :=
    ofEntries_ok_iff.mp h
  refine ⟨_, _, plans, states, hpaths, hconfigurations, hplans, hstates, ?_, isEmpty_iff_items⟩
  rw [items, effectivePaths_eq, hplan, hstate]

/-- A null under `paths` overrules nothing. -/
theorem items_ofRaw_nullPaths :
    let entries : RawMap := [("paths", .null),
      ("state_file_paths", .list [.text "terraform.tfstate"]),
      ("configuration_file_paths", .list [.text "main.tf", .text "main.tf"])]
    ∃ c, ofRaw (.map entries) = .ok c
      ∧ ∃ paths configurations plans states,
        Gives entries "paths" paths ∧ Gives entries "configuration_file_paths" configurations
          ∧ Gives entries "plan_file_paths" plans ∧ Gives entries "state_file_paths" states
          ∧ c.items = ((paths.or configurations).getD []).map (⟨·, false, false⟩)
              ++ (plans.getD []).map (⟨·, true, false⟩) ++ (states.getD []).map (⟨·, false, true⟩)
          ∧ (c.isEmpty = true
            ↔ c.items = [] ∧ ¬ (paths = some [] ∧ configurations.getD [] ≠ [])) := by
  intro entries
  have hconnection : ofRaw (.map entries)
      = .ok ⟨none, some ["main.tf", "main.tf"], [], ["terraform.tfstate"]⟩ := by cbv
  exact ⟨_, hconnection, items_ofRaw hconnection⟩

/-- Nothing is listed, but the connection does not count as empty. -/
theorem not_empty_without_items : ∃ c,
    ofRaw (.map [("paths", .list []), ("configuration_file_paths", .list [.text "main.tf"])])
      = .ok c ∧ c.items = [] ∧ c.isEmpty = false :=
  ⟨⟨some [], some ["main.tf"], [], []⟩, by cbv, rfl, rfl⟩

end Items

end TerraIndex.Connection
