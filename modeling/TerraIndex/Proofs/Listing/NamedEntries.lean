import TerraIndex.Proofs.Listing.Exports
import TerraIndex.Proofs.Source.NamedChild
/-!
# Where the outputs and variables of an export come from

A plan or a state holds its outputs and its variables as the named entries of one map, which a fixed
path leads to (`EntryKind.part?`). The search for an entry goes by the text alone: it takes the
first map of that name in any container of that key, and the name has to be written as the search
spells it. So an entry is found in its own lines exactly when its name is spelled that way and no
entry of another container stands above it under the same name (`listed_from_own_entry`).
-/

namespace TerraIndex

open Json Json.Indent

section Maps

theorem mapsUnder_sublist (q : String → Bool) (entries : List (String × Raw)) (n : Nat) :
    (mapsUnder q n entries).Sublist ((placedEntries n entries).map Prod.snd) := by
  induction entries generalizing n with
  | nil => exact .slnil
  | cons entry entries ih =>
    rw [mapsUnder, placedEntries, List.map_cons]
    split_ifs
    · exact (ih (n + entry.2.height)).cons_cons _
    · exact (ih (n + entry.2.height)).cons _

theorem mapsUnder_contents_sublist (q : String → Bool) (p : Placed) :
    (p.mapsUnder q).Sublist p.contents := by
  obtain ⟨n, v⟩ := p
  cases v with
  | map entries => exact mapsUnder_sublist q entries (n + 1)
  | _ => exact List.nil_sublist _

theorem childrenUnder_sorted (container name : String → Bool) (v : Raw) :
    (childrenUnder container name v).Pairwise Placed.Below := by
  have hsublist : (childrenUnder container name v).Sublist (elementsUnder container v) := by
    rw [childrenUnder, elementsUnder]
    induction occurrences container 0 v with
    | nil => exact .slnil
    | cons p parts ih =>
      rw [List.flatMap_cons, List.flatMap_cons]
      exact (mapsUnder_contents_sublist name p).append ih
  exact (elementsUnder_sorted container v).sublist hsublist

theorem mem_mapsUnder {name : String} {p : Placed} (hmap : p.value.isMap = true) :
    ∀ {entries : List (String × Raw)} (n : Nat), entryAt? (placedEntries n entries) name = some p →
    p ∈ mapsUnder (· == name) n entries
  | [], _, h => by simp [placedEntries, entryAt?] at h
  | (key, value) :: entries, n, h => by
    rw [placedEntries, entryAt?] at h
    rw [mapsUnder, List.mem_append]
    split_ifs at h with hkey
    · have hp : ⟨n, value⟩ = p := Option.some.inj h
      rw [← hp] at hmap ⊢
      left
      rw [hkey, beq_self_eq_true, Bool.true_and, hmap, if_pos rfl]
      exact List.mem_singleton_self _
    · exact .inr (mem_mapsUnder hmap _ h)

/-- A map under a name in a container is among the children of that name. -/
theorem mem_childrenUnder {container name : String} {v : Raw} {c p : Placed}
    (hc : c ∈ occurrences (· == container) 0 v) (hp : c.child? name = some p)
    (hmap : p.value.isMap = true) : p ∈ childrenUnder (· == container) (· == name) v := by
  refine List.mem_flatMap.mpr ⟨c, hc, ?_⟩
  obtain ⟨n, value⟩ := c
  cases value with
  | map entries => exact mem_mapsUnder hmap (n + 1) hp
  | _ => simp [Placed.child?] at hp

/-- Of parts in order, the first is the given one exactly if none stands above it. -/
theorem head?_above {parts : List Placed} {p found : Placed}
    (hsorted : parts.Pairwise Placed.Below) (hp : p ∈ parts) (hfound : parts.head? = some found) :
    found = p ↔ ∀ other ∈ parts, ¬ other.above < p.above := by
  have hfind : parts.find? (fun _ => true) = some found := by
    rw [← hfound]
    cases parts <;> rfl
  have h := find?_above hsorted hp rfl hfind
  simpa using h

end Maps

namespace Json.Indent

variable {style : Indent} {name : String}

/-- The style writes the name as the search for it spells it. -/
def Spells (style : Indent) (name : String) : Prop :=
  style.quote name.toList = Text.quoteMinimal name.toList

theorem writesKey_iff {key : String} :
    style.writesKey name key = true ↔ key = name ∧ style.Spells name := by
  rw [writesKey, beq_iff_eq]
  constructor
  · intro hquote
    have hkey := style.quoted key.toList
    rw [hquote] at hkey
    obtain rfl := String.toList_injective (quoted_injective hkey (quoted_minimal name.toList))
    exact ⟨rfl, hquote⟩
  · rintro ⟨rfl, hspells⟩
    exact hspells

/-- A name that is spelled otherwise is found nowhere. -/
theorem childrenUnder_not_spelled {container : String → Bool} {v : Raw} (h : ¬ style.Spells name) :
    childrenUnder container (style.writesKey name) v = [] := by
  have hkey : ∀ key, style.writesKey name key = false := fun key =>
    Bool.eq_false_iff.mpr fun hwrites => h (writesKey_iff.mp hwrites).2
  refine List.flatMap_eq_nil_iff.mpr fun p _ => ?_
  obtain ⟨n, value⟩ := p
  have hentries : ∀ (entries : List (String × Raw)) (m : Nat),
      mapsUnder (style.writesKey name) m entries = [] := by
    intro entries
    induction entries with
    | nil => exact fun _ => rfl
    | cons entry entries ih =>
      intro m
      rw [mapsUnder, hkey, ih]
      rfl
  cases value with
  | map entries => exact hentries entries (n + 1)
  | _ => rfl

/-- The child that the search finds is the given one exactly if its name is spelled as the search
spells it and no child of that name stands above it. -/
theorem locate_own {container : String} {v : Raw} {p : Placed} (hcontainer : style.Spells container)
    (hp : p ∈ childrenUnder (· == container) (· == name) v) :
    ((⟨container, name⟩ : NamedChild).locate (style.text v) = p.span (style.text v)
        ↔ style.Spells name ∧ ∀ other ∈ childrenUnder (· == container) (· == name) v,
          ¬ other.above < p.above)
      ∧ (((⟨container, name⟩ : NamedChild).locate (style.text v)).found = true
        ↔ style.Spells name) := by
  rw [NamedChild.locate_indented, writesKey_eq style hcontainer]
  by_cases hname : style.Spells name
  · rw [writesKey_eq style hname]
    have hsorted := childrenUnder_sorted (· == container) (· == name) v
    cases hhead : (childrenUnder (· == container) (· == name) v).head? with
    | none => exact absurd hp (List.head?_eq_none_iff.mp hhead ▸ List.not_mem_nil)
    | some found =>
      have habove := head?_above hsorted hp hhead
      refine ⟨?_, iff_of_true (found.found_span _) hname⟩
      constructor
      · intro hspan
        have heq := eq_of_above_eq hsorted (List.mem_of_head? hhead) hp
          (Placed.above_of_span hspan)
        exact ⟨hname, habove.mp heq⟩
      · rintro ⟨-, hothers⟩
        rw [habove.mpr hothers]
  · rw [childrenUnder_not_spelled hname]
    refine ⟨iff_of_false (fun hspan => ?_) fun h => hname h.1,
      iff_of_false Bool.false_ne_true hname⟩
    have hspanFound := p.found_span (style.text v)
    rw [← hspan] at hspanFound
    exact Bool.false_ne_true hspanFound

end Json.Indent

section Entries

/-- What a plan or a state keeps under names. -/
inductive EntryKind
  | output
  | variable

namespace EntryKind

def listKind : EntryKind → ListKind
  | .output => .output
  | .variable => .variable

def blockKind : EntryKind → String
  | .output => "output"
  | .variable => "variable"

/-- The key of the map that holds the entries. -/
def container : EntryKind → String
  | .output => "outputs"
  | .variable => "variables"

/-- The attempt to build what an entry stands for. -/
def build : EntryKind → Located → String → Body → Attempt
  | .output, place, name, body => .output <$> Output.ofBlock place name body
  | .variable, place, name, body => .variable <$> Variable.ofBlock place name body false

/-- The part of a document that holds the entries: a plan has its outputs among the planned values,
and all else stands at the top. -/
def part? (kind : EntryKind) (fileKind : FileKind) (root : List (String × Raw)) : Option Placed :=
  match kind, fileKind with
  | .output, .plan =>
    ((⟨0, .map root⟩ : Placed).child? "planned_values").bind (·.child? "outputs")
  | kind, _ => (⟨0, .map root⟩ : Placed).child? kind.container

/-- The node of a file that holds the entries. -/
def node? (kind : EntryKind) (file : SourceFile) : Option Node :=
  match kind with
  | .output => file.outputsNode
  | .variable => file.tree.child? "variables"

variable {kind : EntryKind} {file : SourceFile} {root : List (String × Raw)}

theorem steps_entries (kind : EntryKind) (hexport : file.kind ≠ .config) :
    file.steps kind.listKind
      = (file.entryAttempts kind.blockKind (kind.node? file) kind.build).map .ok := by
  match kind with
  | .output =>
    simp only [listKind, SourceFile.steps, SourceFile.outputAttempts, if_neg hexport]
    rfl
  | .variable =>
    simp only [listKind, SourceFile.steps, SourceFile.variableAttempts, if_neg hexport,
      decide_eq_false hexport]
    rfl

theorem place_build {place : Located} {name : String} {body : Body} {entity : Entity}
    (h : kind.build place name body = .ok entity) : entity.place = place := by
  match kind with
  | .output =>
    obtain ⟨o, ho, rfl⟩ := map_ok h
    unfold Output.ofBlock at ho
    obtain ⟨_, -, ho⟩ := bind_ok ho
    rw [← Except.ok.inj ho]
    rfl
  | .variable =>
    obtain ⟨v, hv, rfl⟩ := map_ok h
    unfold Variable.ofBlock at hv
    obtain ⟨_, -, hv⟩ := bind_ok hv
    rw [← Except.ok.inj hv]
    rfl

/-- A node under a key of a map is read from the part under that key. -/
theorem child?_read {entries : List (String × Raw)} {body : Body} {key : String} {node : Node}
    (n : Nat) (hdoc : (Raw.map entries).IsDocument) (hbody : (Raw.map entries).body? = some body)
    (h : body.child? key = some node) :
    ∃ p, (⟨n, .map entries⟩ : Placed).child? key = some p ∧ p.value.read = .ok node
      ∧ p.value.IsDocument := by
  rcases child?_cases n key hdoc hbody with ⟨hnone, -⟩ | ⟨other, p, hother, hp, hread, hvalue⟩
  · rw [hnone] at h
    exact absurd h nofun
  · rw [h, Option.some.injEq] at hother
    exact ⟨p, hp, hother ▸ hread, hvalue⟩

/-- The node that holds the entries is read from the part that holds them. -/
theorem node?_read {node : Node} (hdoc : (Raw.map root).IsDocument)
    (hbody : (Raw.map root).body? = some file.tree) (h : kind.node? file = some node) :
    ∃ p, kind.part? file.kind root = some p ∧ p.value.read = .ok node ∧ p.value.IsDocument := by
  match kind with
  | .variable => exact child?_read 0 hdoc hbody h
  | .output =>
    rw [node?, SourceFile.outputsNode] at h
    cases hkind : file.kind with
    | config | state =>
      rw [hkind] at h
      exact child?_read 0 hdoc hbody h
    | plan =>
      rw [hkind] at h
      simp only [] at h
      split at h
      · rename_i planned hplanned
        obtain ⟨⟨n, v⟩, hp, hread, hvalue⟩ := child?_read 0 hdoc hbody hplanned
        rcases read_cases hvalue hread with ⟨_, _, _, hnode, _⟩ | ⟨entries, body, rfl, hnode, hv⟩ |
          ⟨_, _, hnode⟩
        · exact absurd hnode nofun
        · rw [Node.map.injEq] at hnode
          rw [hnode] at h
          obtain ⟨p, hchild, hp'⟩ := child?_read n hvalue (body?_map hv) h
          refine ⟨p, ?_, hp'⟩
          rw [part?, hp, Option.bind_some, hchild]
        · exact absurd hnode nofun
      · exact absurd h nofun

theorem mem_occurrences {c : Placed} {fileKind : FileKind}
    (h : kind.part? fileKind root = some c) :
    c ∈ occurrences (· == kind.container) 0 (.map root) := by
  have htop : ∀ {key : String}, (⟨0, .map root⟩ : Placed).child? key = some c →
      c ∈ occurrences (· == key) 0 (.map root) := fun h =>
    occurrencesEntries_key (by exact beq_self_eq_true _) 1 h
  match kind, fileKind with
  | .variable, _ => exact htop h
  | .output, .config => exact htop h
  | .output, .state => exact htop h
  | .output, .plan =>
    obtain ⟨⟨n, v⟩, hplanned, hc⟩ := Option.bind_eq_some_iff.mp h
    refine occurrences_child 0 (by decide) hplanned c ?_
    cases v with
    | map entries => exact occurrencesEntries_key (by decide) (n + 1) hc
    | _ => simp [Placed.child?] at hc

/-- A named entry is read from the part under its name. -/
theorem namedEntries_read {c : Placed} {node : Node} {name : String} {body : Body}
    (hdoc : c.value.IsDocument) (hread : c.value.read = .ok node)
    (h : (name, body) ∈ namedEntries (some node)) :
    ∃ p, c.child? name = some p ∧ p.value.body? = some body := by
  obtain ⟨n, v⟩ := c
  rcases read_cases hdoc hread with ⟨_, _, _, rfl, _⟩ | ⟨entries, nodes, rfl, rfl, hnodes⟩ |
    ⟨_, _, rfl⟩
  · exact absurd h List.not_mem_nil
  · obtain ⟨⟨key, child⟩, hmem, hchild⟩ := List.mem_filterMap.mp h
    obtain ⟨found, hfound, heq⟩ := Option.map_eq_some_iff.mp hchild
    obtain ⟨rfl, rfl⟩ := Prod.mk.inj heq
    have hkeys : (nodes.map Prod.fst).Nodup := by
      rw [map_fst_ofRawEntries hnodes, map_fst_readBackEntries]
      exact hdoc.1
    obtain ⟨p, hp, hvalue, -⟩ :=
      child?_read n hdoc (body?_map hnodes) (entryAt?_of_mem hkeys hmem)
    refine ⟨p, hp, ?_⟩
    rw [Raw.body?, hvalue]
    exact hfound
  · exact absurd h List.not_mem_nil

/-- An entry is placed where the search of the text finds its name. -/
theorem exportPlace_entry {style : Indent} (kind : EntryKind) (name : String) (hroot : root ≠ [])
    (hcontent : file.content.toList = style.text (.map root)) :
    file.exportPlace kind.blockKind [name]
      = ⟨file.path, (⟨kind.container, name⟩ : NamedChild).locate (style.text (.map root))⟩ := by
  have hlines : ¬ (Text.scanLines (style.text (.map root))).length ≤ 1 :=
    Nat.not_le_of_lt (style.length_scanLines_map hroot)
  have hselect : Locator.select ⟨kind.blockKind, [name]⟩ file.kind (style.text (.map root))
      = .ok (.namedChild ⟨kind.container, name⟩) := by
    rw [Locator.select, decide_eq_false hlines]
    cases kind <;> rfl
  rw [SourceFile.exportPlace, hcontent, hselect]
  rfl

end EntryKind

/-- Each output or variable listed from a plan or a state is built from an entry of the map that
holds them there. It has the lines of that entry exactly when its name is written as the search
spells it and no map of that name in another container of that key stands above the entry. -/
theorem listed_from_own_entry (kind : EntryKind) {style : Indent} {width : Nat} {store : FileStore}
    {item : FileItem} {root : List (String × Raw)} {text : List Char}
    (hstyle : style = .ascii width ∨ style = .minimal width) (htext : text = style.text (.map root))
    (hdoc : (Raw.map root).IsDocument) (hreads : item.Reads store text)
    (hexport : item.classify text ≠ .config) :
    ∀ entity ∈ (list kind.listKind store item).entities,
      ∃ entries p name body, kind.part? (item.classify text) root = some entries
        ∧ entries.child? name = some p ∧ style.StandsIn text p ∧ p.value.body? = some body
        ∧ kind.build entity.place name body = .ok entity
        ∧ (entity.place.span.found = true ↔ style.Spells name)
        ∧ (entity.place.span = p.span text ↔ style.Spells name
          ∧ ∀ other ∈ childrenUnder (· == kind.container) (· == name) (.map root),
            ¬ other.above < p.above) := by
  subst htext
  intro entity hentity
  obtain ⟨file, hpath, hcontent, hfile, hparse, hmem⟩ := mem_list hreads hentity
  have hcontent : file.content.toList = style.text (.map root) := by
    rw [hcontent, String.toList_ofList]
  rw [← hfile] at hexport
  rw [parseAs_export _ _ _ hexport] at hparse
  have hbody := (parseExport_iff file.path file.tree hdoc).mp hparse
  rw [kind.steps_entries hexport] at hmem
  obtain ⟨⟨name, body⟩, hentry, hattempt⟩ := List.mem_map.mp (mem_attempts hmem)
  obtain ⟨node, hnode⟩ : ∃ node, kind.node? file = some node := by
    cases hnode : kind.node? file with
    | none =>
      rw [hnode] at hentry
      exact absurd hentry List.not_mem_nil
    | some node => exact ⟨node, rfl⟩
  rw [hnode] at hentry
  obtain ⟨entries, hpart, hread, hvalue⟩ := EntryKind.node?_read hdoc hbody hnode
  obtain ⟨p, hp, hpbody⟩ := EntryKind.namedEntries_read hvalue hread hentry
  have hroot : root ≠ [] := by
    rintro rfl
    exact absurd (EntryKind.mem_occurrences hpart) List.not_mem_nil
  simp only [] at hattempt
  rw [kind.exportPlace_entry name hroot hcontent] at hattempt
  have hplace := EntryKind.place_build hattempt
  have hcontainer : style.Spells kind.container := by
    rcases hstyle with rfl | rfl <;> cases kind <;> rfl
  have hchild : p ∈ childrenUnder (· == kind.container) (· == name) (.map root) := by
    obtain ⟨values, hvalues⟩ := map_of_body? hpbody
    exact mem_childrenUnder (EntryKind.mem_occurrences hpart) hp (by rw [hvalues]; rfl)
  obtain ⟨hspan, hfound⟩ := locate_own hcontainer hchild
  have hstands : style.StandsIn (style.text (.map root)) p :=
    standsIn_within style (childrenUnder_within _ _ hchild)
  rw [hfile] at hpart
  refine ⟨entries, p, name, body, hpart, hp, hstands, hpbody, ?_, ?_, ?_⟩
  · rwa [hplace]
  · rw [hplace]
    exact hfound
  · rw [hplace]
    exact hspan

end Entries

section Plan

/-- The configuration has an output of the name of a planned one, and the name of another is not in
ASCII. -/
def outputsTwice : List (String × Raw) := [("format_version", .text "1.2"),
  ("resource_changes", .list []),
  ("configuration", .map [("root_module",
    .map [("outputs", .map [("url", .map [("expression", .map [])])])])]),
  ("planned_values", .map [("outputs", .map [
    ("url", .map [("sensitive", .bool false), ("value", .text "https://example.org")]),
    ("größe", .map [("value", .bool true)])])])]

def outputsTwiceText : List Char := (Indent.ascii 1).text (.map outputsTwice)

def outputsTwiceStore : FileStore := .ofText "plan.json" outputsTwiceText

theorem isDocument_outputsTwice : (Raw.map outputsTwice).IsDocument := by
  simp [outputsTwice, Raw.IsDocument, entriesAreDocuments, itemsAreDocuments]

set_option maxRecDepth 20000 in
theorem reads_outputsTwice :
    (FileItem.ofPath "plan.json").Reads outputsTwiceStore outputsTwiceText :=
  ⟨_, by rfl, by rfl⟩

theorem classify_outputsTwice :
    (FileItem.ofPath "plan.json").classify outputsTwiceText = .plan := by
  have hdecode := (Indent.ascii 1).decode_text isDocument_outputsTwice
  rw [← outputsTwiceText] at hdecode
  simp only [FileItem.classify, FileItem.ofPath, isPlanText, hdecode]
  rfl

set_option maxRecDepth 20000 in
theorem holds_outputsTwice :
    (FileItem.ofPath "plan.json").Holds outputsTwiceStore outputsTwiceText := by
  refine FileItem.holds_text reads_outputsTwice rfl isDocument_outputsTwice ?_ (by decide)
    (by decide)
  rw [← outputsTwiceText, classify_outputsTwice]
  decide

/-- One output is placed at that of the configuration and the other one nowhere. -/
theorem spans_outputsTwice :
    (list .output outputsTwiceStore (.ofPath "plan.json")).entities.map
      (fun entity => (entity.place.span.startLine, entity.place.span.endLine))
        = [(7, 9), (0, 0)] := by
  have hbody : (Raw.map outputsTwice).body? = some ((Raw.map outputsTwice).body?.getD []) := rfl
  rw [list_export isDocument_outputsTwice holds_outputsTwice
    (by rw [← outputsTwiceText, classify_outputsTwice]; decide) hbody,
    ← outputsTwiceText, classify_outputsTwice]
  generalize hfile : (⟨(FileItem.ofPath "plan.json").path, String.ofList outputsTwiceText,
    .plan, (Raw.map outputsTwice).body?.getD []⟩ : SourceFile) = file
  have hcontent : file.content.toList = (Indent.ascii 1).text (.map outputsTwice) := by
    subst hfile
    exact String.toList_ofList
  have hroot : outputsTwice ≠ [] := by simp [outputsTwice]
  have hurl : file.exportPlace "output" ["url"] = ⟨file.path,
      (⟨6, .map [("expression", .map [])]⟩ : Placed).span outputsTwiceText⟩ := by
    have hplace := EntryKind.output.exportPlace_entry "url" hroot hcontent
    rw [NamedChild.locate_indented] at hplace
    exact hplace
  have hsize : file.exportPlace "output" ["größe"] = ⟨file.path, .empty⟩ := by
    have hplace := EntryKind.output.exportPlace_entry "größe" hroot hcontent
    rw [NamedChild.locate_indented] at hplace
    exact hplace
  have hsteps : file.steps .output = [
      .ok (.output <$> Output.ofBlock (file.exportPlace "output" ["url"]) "url"
        [("sensitive", .scalar (.bool false)), ("value", .scalar (.text "https://example.org"))]),
      .ok (.output <$> Output.ofBlock (file.exportPlace "output" ["größe"]) "größe"
        [("value", .scalar (.bool true))])] := by
    subst hfile
    rfl
  rw [hsteps, hurl, hsize]
  rfl

theorem listed_from_own_entry_outputsTwice :
    (Indent.ascii 1 = .ascii 1 ∨ Indent.ascii 1 = .minimal 1)
      ∧ outputsTwiceText = (Indent.ascii 1).text (.map outputsTwice)
      ∧ (Raw.map outputsTwice).IsDocument
      ∧ (FileItem.ofPath "plan.json").Reads outputsTwiceStore outputsTwiceText
      ∧ (FileItem.ofPath "plan.json").classify outputsTwiceText ≠ .config
      ∧ (list .output outputsTwiceStore (.ofPath "plan.json")).entities.map
          (fun entity => (entity.place.span.startLine, entity.place.span.endLine))
            = [(7, 9), (0, 0)]
      ∧ ∀ entity ∈ (list .output outputsTwiceStore (.ofPath "plan.json")).entities,
        ∃ entries p name body,
          EntryKind.output.part? ((FileItem.ofPath "plan.json").classify outputsTwiceText)
              outputsTwice = some entries
            ∧ entries.child? name = some p ∧ (Indent.ascii 1).StandsIn outputsTwiceText p
            ∧ p.value.body? = some body
            ∧ EntryKind.output.build entity.place name body = .ok entity
            ∧ (entity.place.span.found = true ↔ (Indent.ascii 1).Spells name)
            ∧ (entity.place.span = p.span outputsTwiceText ↔ (Indent.ascii 1).Spells name
              ∧ ∀ other ∈ childrenUnder (· == "outputs") (· == name) (.map outputsTwice),
                ¬ other.above < p.above) := by
  have hexport : (FileItem.ofPath "plan.json").classify outputsTwiceText ≠ .config := by
    rw [classify_outputsTwice]
    decide
  exact ⟨.inl rfl, rfl, isDocument_outputsTwice, reads_outputsTwice, hexport, spans_outputsTwice,
    listed_from_own_entry .output (.inl rfl) rfl isDocument_outputsTwice reads_outputsTwice hexport⟩

/-- The two planned outputs are written on lines 15 to 18 and 19 to 21. One is listed with lines 7
to 9 and the other one without lines. -/
theorem listed_from_other_output :
    (Raw.map outputsTwice).IsDocument
      ∧ (FileItem.ofPath "plan.json").Reads outputsTwiceStore outputsTwiceText
      ∧ (FileItem.ofPath "plan.json").classify outputsTwiceText = .plan
      ∧ ((EntryKind.output.part? .plan outputsTwice).map Placed.contents).map
          (·.map Placed.lines) = some [(15, 18), (19, 21)]
      ∧ (list .output outputsTwiceStore (.ofPath "plan.json")).entities.map
          (fun entity => (entity.place.span.startLine, entity.place.span.endLine))
            = [(7, 9), (0, 0)] :=
  ⟨isDocument_outputsTwice, reads_outputsTwice, classify_outputsTwice, rfl, spans_outputsTwice⟩

end Plan

end TerraIndex
