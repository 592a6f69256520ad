import TerraIndex.Proofs.File.Reading
import TerraIndex.Proofs.Hcl.Literals
/-!
# Files that were loaded

The tree of a file that was loaded holds nothing but values: strings, finite numbers, integers with
no more digits than are read, and maps with distinct keys (`sound_load`). The numbers of the lines
are among the integers, so the file must not have too many of them.
-/

namespace TerraIndex

/-- No file is so long that the number of one of its lines has more digits than are read, and what
the parser makes of a text that is no longer than that has nothing but values that a document can
have. -/
structure FileStore.IsShort (store : FileStore) : Prop where
  lengths : ∀ file ∈ store.files, file.2.length + 2 < 10 ^ maxIntegerDigits
  documents : ∀ text raw, text.length + 2 < 10 ^ maxIntegerDigits → store.parser text = some raw →
    raw.IsDocument

/-- The tree is a document, and the lines of the file are not too many. -/
structure SourceFile.Sound (file : SourceFile) : Prop where
  tree : (Node.map file.tree).Holds Scalar.IsValue
  size : file.content.toList.length + 2 < 10 ^ maxIntegerDigits

namespace FileStore

variable {store : FileStore} {bytes : List UInt8}

theorem content?_mem {key : String} (h : store.content? key = some bytes) :
    ∃ file ∈ store.files, file.2 = bytes := by
  obtain ⟨file, hfile, rfl⟩ := Option.map_eq_some_iff.mp h
  exact ⟨file, List.mem_of_find?_eq_some hfile, rfl⟩

theorem follow_mem : ∀ {parts above : List String}, store.follow above parts = .ok bytes →
    ∃ file ∈ store.files, file.2 = bytes
  | [], _, h => by
    rw [follow] at h
    cases h
  | part :: rest, above, h => by
    unfold follow at h
    split_ifs at h
    · split at h
      · cases h
      · cases h
      · exact follow_mem h
    · simp only at h
      split at h
      · rename_i hcontent
        cases h
        exact content?_mem hcontent
      · cases h
      · split_ifs at h
        exact follow_mem h

/-- What is read is the content of a stored file. -/
theorem read_mem {path : String} (h : store.read path = .ok bytes) :
    ∃ file ∈ store.files, file.2 = bytes := by
  have h := mapError_ok h
  split at h
  · cases h
  split at h
  · cases h
  split at h
  · rename_i hcontent
    cases h
    exact content?_mem hcontent
  · split_ifs at h
    exact follow_mem h

end FileStore

theorem Text.Utf8.length_decodeFrom : ∀ {bytes : List UInt8} {position : Nat}
    {pending : Option Pending} {text : List Char}, decodeFrom position pending bytes = .ok text →
    text.length ≤ bytes.length
  | [], _, none, _, h => by
    cases h
    exact Nat.le_refl 0
  | [], _, some _, _, h => by cases h
  | b :: bytes, position, none, _, h => by
    rw [decodeFrom] at h
    split_ifs at h
    · obtain ⟨text, htext, rfl⟩ := map_ok h
      exact Nat.succ_le_succ (length_decodeFrom htext)
    · split at h
      · exact Nat.le_succ_of_le (length_decodeFrom h)
      · cases h
  | b :: bytes, position, some p, _, h => by
    rw [decodeFrom] at h
    simp only at h
    split_ifs at h
    · obtain ⟨text, htext, rfl⟩ := map_ok h
      exact Nat.succ_le_succ (length_decodeFrom htext)
    · exact Nat.le_succ_of_le (length_decodeFrom h)

theorem Text.length_unifyNewlines (text : List Char) :
    (unifyNewlines text).length ≤ text.length := by
  fun_induction unifyNewlines text with
  | case1 => exact Nat.le_refl 0
  | case2 cs ih =>
    simp only [List.length_cons]
    omega
  | case3 c cs hpair ih =>
    simp only [List.length_cons]
    omega

theorem length_decodeText {bytes : List UInt8} {text : List Char}
    (h : decodeText bytes = .ok text) : text.length ≤ bytes.length := by
  obtain ⟨plain, hplain, rfl⟩ := map_ok h
  exact Nat.le_trans (Text.length_unifyNewlines plain) (Text.Utf8.length_decodeFrom hplain)

/-- The parser of the configuration language makes documents. -/
theorem FileStore.isShort_of_lengths {store : FileStore} (hparser : store.parser = Hcl.decode)
    (hlengths : ∀ file ∈ store.files, file.2.length + 2 < 10 ^ maxIntegerDigits) : store.IsShort where
  lengths := hlengths
  documents _ _ hsize hraw := Hcl.isDocument_decode hsize (hparser ▸ hraw)

section Trees

theorem documentOf_holds {path : String} {raw : Raw} {tree : Body} (hdoc : raw.IsDocument)
    (h : documentOf path raw = .ok tree) : (Node.map tree).Holds Scalar.IsValue := by
  unfold documentOf at h
  split at h
  · cases h
  · rename_i entries hnode
    cases h
    exact ofRaw_holds hdoc hnode
  · cases h

theorem parseExport_holds {path : String} {content : List Char} {tree : Body}
    (h : parseExport path content = .ok tree) : (Node.map tree).Holds Scalar.IsValue := by
  unfold parseExport at h
  split at h
  · split_ifs at h
  · rename_i raw hraw
    exact documentOf_holds (isDocument_decode hraw) h

theorem parseAs_holds {parser : ConfigParser} {kind : FileKind} {path : String}
    {content : List Char} {tree : Body}
    (hdocument : kind = .config → ∀ raw, parser content = some raw → raw.IsDocument)
    (h : parseAs parser kind path content = .ok tree) :
    (Node.map tree).Holds Scalar.IsValue := by
  cases kind with
  | config =>
    rw [parseAs, parseConfig] at h
    split at h
    · cases h
    · rename_i raw hraw
      exact documentOf_holds (hdocument rfl raw hraw) h
  | plan => exact parseExport_holds h
  | state => exact parseExport_holds h

/-- The tree of an export is a document, however long the file. -/
theorem holds_of_export {store : FileStore} {item : FileItem} {file : SourceFile}
    (hexport : file.kind ≠ .config) (h : load store item = .ok file) :
    (Node.map file.tree).Holds Scalar.IsValue :=
  parseAs_holds (fun hconfig => absurd hconfig hexport) (holds_of_load h).2.2.2

theorem sound_load {store : FileStore} {item : FileItem} {file : SourceFile}
    (hshort : store.IsShort) (h : load store item = .ok file) : file.Sound := by
  obtain ⟨⟨⟨bytes, hbytes, hcontent⟩, -⟩, -, -, htree⟩ := holds_of_load h
  obtain ⟨stored, hstored, rfl⟩ := store.read_mem hbytes
  have hsize : file.content.toList.length + 2 < 10 ^ maxIntegerDigits :=
    Nat.lt_of_le_of_lt (Nat.add_le_add_right (length_decodeText hcontent) 2) (hshort.lengths stored hstored)
  exact ⟨parseAs_holds (fun _ raw => hshort.documents _ raw hsize) htree, hsize⟩

end Trees

end TerraIndex
