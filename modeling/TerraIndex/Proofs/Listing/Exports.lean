import TerraIndex.Listing
import TerraIndex.Proofs.Document.Bodies
import TerraIndex.Proofs.File.Reading
import TerraIndex.Proofs.Source.IndentedList
/-!
# Listing the resources of an export

Where the file of an item holds the indented text of a document and counts as an export, every
resource that is listed comes from an attempt on the body read from the document
(`mem_resourceAttempts`). The place of an attempt is that of the first element under a key
`resources` that passes the test for its labels (`exportPlace_resource`).
-/

namespace TerraIndex

open Json Json.Indent

/-- What is delivered was built by a step. -/
theorem mem_ofSteps {kind : ListKind} {path : String} {entity : Entity} :
    ∀ {steps : List Step} {first : Option BuildError},
    entity ∈ (Listing.ofSteps kind path first steps).entities → .ok (.ok entity) ∈ steps
  | [], _, h => absurd h List.not_mem_nil
  | .error _ :: _, _, h => absurd h List.not_mem_nil
  | .ok (.ok other) :: steps, first, h => by
    rw [Listing.ofSteps] at h
    rcases List.mem_cons.mp h with rfl | h
    · exact List.mem_cons_self ..
    · exact List.mem_cons_of_mem _ (mem_ofSteps h)
  | .ok (.error e) :: steps, first, h => by
    rw [Listing.ofSteps] at h
    exact List.mem_cons_of_mem _ (mem_ofSteps h)

theorem Attempt.of_step {attempt other : Attempt} (h : attempt.step = .ok other) :
    attempt = other := by
  unfold Attempt.step at h
  split at h
  · cases h
  · exact Except.ok.inj h

section Attempts

variable {kind : ListKind} {path : String} {entity : Entity} {attempts : List Attempt}
  {first : Option BuildError}

/-- A listing whose steps are all attempts delivers only what an attempt built. -/
theorem mem_attempts
    (h : entity ∈ (Listing.ofSteps kind path first (attempts.map .ok)).entities) :
    .ok entity ∈ attempts := by
  obtain ⟨attempt, hattempt, heq⟩ := List.mem_map.mp (mem_ofSteps h)
  exact Except.ok.inj heq ▸ hattempt

theorem mem_attempts_step
    (h : entity ∈ (Listing.ofSteps kind path first (attempts.map Attempt.step)).entities) :
    .ok entity ∈ attempts := by
  obtain ⟨attempt, hattempt, heq⟩ := List.mem_map.mp (mem_ofSteps h)
  exact Attempt.of_step heq ▸ hattempt

end Attempts

/-- What is listed comes from a step on the text as it was parsed. -/
theorem mem_list {kind : ListKind} {store : FileStore} {item : FileItem} {text : List Char}
    {entity : Entity} (hreads : item.Reads store text)
    (h : entity ∈ (list kind store item).entities) :
    ∃ file : SourceFile, file.path = item.path ∧ file.content = String.ofList text
      ∧ file.kind = item.classify text
      ∧ parseAs store.parser file.kind file.path text = .ok file.tree
      ∧ entity ∈ (Listing.ofSteps kind file.path none (file.steps kind)).entities := by
  unfold list at h
  split at h
  · exact absurd h List.not_mem_nil
  · rename_i file hload
    obtain ⟨hholds, hpath, hkind, hparse⟩ := holds_of_load hload
    obtain rfl := hreads.unique hholds.reads
    exact ⟨file, hpath, String.ofList_toList.symm, hkind, hpath ▸ hparse, h⟩

/-- A configuration is listed by the tree it is parsed to. -/
theorem list_config {kind : ListKind} {store : FileStore} {item : FileItem} {text : List Char}
    {tree : Body} (hholds : item.Holds store text) (hconfig : item.classify text = .config)
    (hparse : parseConfig store.parser item.path text = .ok tree) :
    list kind store item = Listing.ofSteps kind item.path none
      (SourceFile.steps ⟨item.path, String.ofList text, .config, tree⟩ kind) := by
  rw [list, load_holds hholds, hconfig, parseAs, hparse]
  rfl

/-- A configuration with few brackets does not exhaust the usual stack. -/
theorem FileItem.holds_config {store : FileStore} {item : FileItem} {text : List Char}
    (hreads : item.Reads store text) (hstack : store.stack = .usual)
    (hconfig : item.classify text = .config)
    (hbrackets : text.countP isOpening ≤ Stack.usual.classifying)
    (hflat : ((store.parser text).any fun raw => raw.overflows Stack.usual.converting) = false) :
    item.Holds store text where
  reads := hreads
  fits := by
    have hconverted : Stack.usual.converting? store.parser .config text = none :=
      if_neg (Bool.eq_false_iff.mp hflat)
    rw [hstack, Stack.exhaustion?, hconfig, hconverted,
      Stack.classifying?_eq_none fun _ _ => hbrackets]
    rfl

section Export

variable {style : Indent} {root : List (String × Raw)}

/-- An export is parsed to the body that is read from its document. -/
theorem parseExport_iff {v : Raw} (path : String) (tree : Body) (hdoc : v.IsDocument) :
    parseExport path (style.text v) = .ok tree ↔ v.body? = some tree := by
  rw [parseExport, style.decode_text hdoc]
  unfold documentOf Raw.body? Raw.read
  cases hnode : Node.ofRaw v.readBack with
  | error e => simp [hnode]
  | ok node => cases node <;> simp [hnode, Node.map?]

/-- An export is listed by the body that is read from its document. -/
theorem list_export {kind : ListKind} {store : FileStore} {item : FileItem} {tree : Body}
    (hdoc : (Raw.map root).IsDocument) (hholds : item.Holds store (style.text (.map root)))
    (hkind : item.classify (style.text (.map root)) ≠ .config)
    (hbody : (Raw.map root).body? = some tree) :
    list kind store item = Listing.ofSteps kind item.path none
      (SourceFile.steps ⟨item.path, String.ofList (style.text (.map root)),
        item.classify (style.text (.map root)), tree⟩ kind) := by
  have hparse : parseExport item.path (style.text (.map root)) = .ok tree :=
    (parseExport_iff item.path tree hdoc).mpr hbody
  rw [list, load_holds hholds, parseAs_export _ _ _ hkind, hparse]
  rfl

/-- A document with few brackets does not exhaust the usual stack. -/
theorem FileItem.holds_text {store : FileStore} {item : FileItem} {v : Raw}
    (hreads : item.Reads store (style.text v)) (hstack : store.stack = .usual)
    (hdoc : v.IsDocument) (hkind : item.classify (style.text v) ≠ .config)
    (hbrackets : (style.text v).countP isOpening ≤ Stack.usual.classifying)
    (hnesting : v.readBack.nesting ≤ Stack.usual.converting) : item.Holds store (style.text v) where
  reads := hreads
  fits := by
    rw [hstack]
    refine Stack.Suffices.exhaustion?_eq_none ⟨fun _ _ => hbrackets, fun _ => ?_,
      fun hconfig => absurd hconfig hkind, fun raw hraw => ?_⟩
    · exact Nat.le_trans hbrackets (by decide)
    · have hdecode : decodeAs? store.parser (item.classify (style.text v)) (style.text v)
          = some v.readBack := by
        rw [decodeAs?_export _ _ hkind, style.decode_text hdoc]
        rfl
      rw [← Option.some.inj (hdecode.symm.trans hraw)]
      exact hnesting

/-- A body has a key where its part has it, and the child is read from that part. -/
theorem child?_cases {entries : List (String × Raw)} {body : Body} (n : Nat) (key : String)
    (hdoc : (Raw.map entries).IsDocument) (h : (Raw.map entries).body? = some body) :
    (body.child? key = none ∧ (⟨n, .map entries⟩ : Placed).child? key = none)
      ∨ ∃ node p, body.child? key = some node ∧ (⟨n, .map entries⟩ : Placed).child? key = some p
        ∧ p.value.read = .ok node ∧ p.value.IsDocument := by
  rcases hpart : (⟨n, .map entries⟩ : Placed).child? key with _ | p
  · have hplaced := entryAt?_placedEntries (n + 1) entries key
    have hnone : entryAt? (placedEntries (n + 1) entries) key = none := hpart
    rw [hnone, Option.map_none] at hplaced
    exact .inl ⟨child?_none h hplaced.symm, rfl⟩
  · have hentry := child?_value hpart
    obtain ⟨node, hnode, hread⟩ := child?_some h hentry
    have hvalue := hereditary_isDocument.map hdoc _ (mem_of_entryAt? hentry)
    exact .inr ⟨node, p, hnode, rfl, hread, hvalue⟩

theorem mem_resourceAttempts {store : FileStore} {item : FileItem} {entity : Entity}
    (hdoc : (Raw.map root).IsDocument) (hreads : item.Reads store (style.text (.map root)))
    (hkind : item.classify (style.text (.map root)) ≠ .config)
    (h : entity ∈ (list .resource store item).entities) :
    ∃ file : SourceFile, file.path = item.path ∧ file.content.toList = style.text (.map root)
      ∧ file.kind = item.classify (style.text (.map root)) ∧ (Raw.map root).body? = some file.tree
      ∧ .ok entity ∈ file.resourceAttempts := by
  obtain ⟨file, hpath, hcontent, hfile, hparse, hmem⟩ := mem_list hreads h
  refine ⟨file, hpath, ?_, hfile, ?_, mem_attempts_step hmem⟩
  · rw [hcontent, String.toList_ofList]
  · rw [hfile, parseAs_export _ _ _ hkind] at hparse
    exact (parseExport_iff file.path file.tree hdoc).mp hparse

theorem writesKey_resources (width : Nat) :
    (Indent.ascii width).writesKey "resources" = (· == "resources") :=
  writesKey_eq _ (by rfl)

/-- A resource is placed at the first element that passes the test for its labels. -/
theorem exportPlace_resource {file : SourceFile} {labels : List String} {test : ElementTest}
    {found : Placed} {width : Nat} (hdoc : (Raw.map root).IsDocument) (hroot : root ≠ [])
    (hcontent : file.content.toList = (Indent.ascii width).text (.map root))
    (htest : Locator.testOf file.kind labels = .ok test)
    (hfound : (elementsUnder (· == "resources") (.map root)).find?
      (fun p => test.accepts p.value) = some found) :
    file.exportPlace "resource" labels
      = ⟨file.path, found.span ((Indent.ascii width).text (.map root))⟩ := by
  have hlines : ¬ (Text.scanLines ((Indent.ascii width).text (.map root))).length ≤ 1 :=
    Nat.not_le_of_lt ((Indent.ascii width).length_scanLines_map hroot)
  have hselect : Locator.select ⟨"resource", labels⟩ file.kind
      ((Indent.ascii width).text (.map root)) = .ok (.resourceList ⟨"resources", test⟩) := by
    rw [Locator.select, htest, decide_eq_false hlines]
    rfl
  have hlocate := (⟨"resources", test⟩ : ResourceList).locate_indented (Indent.ascii width) hdoc
  rw [writesKey_resources, hfound] at hlocate
  rw [SourceFile.exportPlace, hcontent, hselect]
  exact congrArg _ hlocate

end Export

end TerraIndex
