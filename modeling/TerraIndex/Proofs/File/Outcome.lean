import TerraIndex.Proofs.File.Reading
import TerraIndex.Proofs.Json.LongNumbers
/-!
# What loading a file can end with

A file is loaded exactly when its text can be read, the stack is large enough for it, and the parser
of its kind takes it for an object in which every leaf can stand in a document. An error is a
rejection that carries the path of the file, or a failure to read it, but for those that escape
(`FileItem.Escapes`): a path that cannot be handed to the system, a number in an export that is too
long to be read, and lists and maps that are nested too deep for the stack (`load_outcome`).

A path or text is a sequence of characters, so the half of a surrogate pair stands in it as the
character that is set aside for it (`Text.halfChar`).
-/

namespace TerraIndex

/-- The parser for files of the kind takes the text for the value; exports are read as JSON. -/
def FileKind.Parses (kind : FileKind) (parser : ConfigParser) (content : List Char) (raw : Raw) :
    Prop :=
  match kind with
  | .config => parser content = some raw
  | _ => Json.decode content = .ok raw

/-- The errors of an item that say neither that its file is rejected nor that it cannot be read. -/
inductive FileItem.Escapes (item : FileItem) (store : FileStore) : LoadError → Prop
  | unencodable {c : Char} : c ∈ item.path.toList → Text.isEncodable c = false →
      Escapes item store (.unreadable ⟨normalPath item.path, .unencodable⟩)
  | null : (∀ c ∈ item.path.toList, Text.isEncodable c = true) → '\x00' ∈ item.path.toList →
      Escapes item store (.unreadable ⟨normalPath item.path, .nullCharacter⟩)
  | exhausted {text : List Char} {e : Exhaustion} : item.Reads store text →
      store.stack.exhaustion? store.parser item text = some e → Escapes item store (.exhausted e)
  | digits {text : List Char} {fault : Json.Fault} : item.Holds store text →
      item.classify text ≠ .config → Json.decode text = .error fault →
      fault.problem.isSyntax = false → Escapes item store (.tooManyDigits fault)

section Paths

variable {store : FileStore} {path : String} {fault : ReadFault}

/-- A fault that is not in the path itself. -/
def ReadFault.IsFound (fault : ReadFault) : Prop :=
  fault ≠ .nullCharacter ∧ fault ≠ .unencodable

theorem isFound_follow : ∀ {parts above : List String}, store.follow above parts = .error fault →
    fault.IsFound
  | [], _, h => by
    rw [FileStore.follow] at h
    cases h
    exact ⟨nofun, nofun⟩
  | part :: rest, above, h => by
    unfold FileStore.follow at h
    split_ifs at h
    · cases h
      exact ⟨nofun, nofun⟩
    · split at h
      · cases h
        exact ⟨nofun, nofun⟩
      · cases h
        exact ⟨nofun, nofun⟩
      · exact isFound_follow h
    · simp only at h
      split at h
      · cases h
      · cases h
        exact ⟨nofun, nofun⟩
      · split_ifs at h
        · exact isFound_follow h
        · cases h
          exact ⟨nofun, nofun⟩

theorem read_unencodable {c : Char} (hc : c ∈ path.toList) (h : Text.isEncodable c = false) :
    store.read path = .error ⟨normalPath path, .unencodable⟩ := by
  have hany : (path.toList.any fun c => !Text.isEncodable c) = true :=
    List.any_eq_true.mpr ⟨c, hc, by rw [h]; rfl⟩
  unfold FileStore.read
  simp only [hany, if_true]
  rfl

theorem any_unencodable (h : ∀ c ∈ path.toList, Text.isEncodable c = true) :
    (path.toList.any fun c => !Text.isEncodable c) = false :=
  List.any_eq_false.mpr fun c hc => by simp [h c hc]

theorem read_null (h : ∀ c ∈ path.toList, Text.isEncodable c = true) (hnull : '\x00' ∈ path.toList) :
    store.read path = .error ⟨normalPath path, .nullCharacter⟩ := by
  unfold FileStore.read
  simp only [any_unencodable h, List.contains_iff_mem.mpr hnull, Bool.false_eq_true, if_false,
    if_true]
  rfl

theorem isFound_read {e : ReadError} (h : ∀ c ∈ path.toList, Text.isEncodable c = true)
    (hnull : '\x00' ∉ path.toList) (he : store.read path = .error e) : e.fault.IsFound := by
  unfold FileStore.read at he
  simp only [any_unencodable h, if_neg (mt List.contains_iff_mem.mp hnull), Bool.false_eq_true,
    if_false] at he
  split at he
  · cases he
  · split_ifs at he
    · cases he
      exact ⟨nofun, nofun⟩
    · cases hfollow : store.follow [] (pathParts path) with
      | ok bytes =>
        rw [hfollow] at he
        cases he
      | error fault =>
        rw [hfollow] at he
        cases he
        exact isFound_follow hfollow
    · cases he
      exact ⟨nofun, nofun⟩

end Paths

section Files

theorem raw_of_ofRaw_map {raw : Raw} {tree : Body} (h : Node.ofRaw raw = .ok (.map tree)) :
    ∃ entries, raw = .map entries := by
  cases raw with
  | map entries => exact ⟨entries, rfl⟩
  | float x =>
    rw [Node.ofRaw] at h
    split_ifs at h
    cases h
  | list items =>
    obtain ⟨nodes, -, hnode⟩ := map_ok h
    cases hnode
  | tuple items =>
    obtain ⟨nodes, -, hnode⟩ := map_ok h
    cases hnode
  | _ => cases h

theorem documentOf_ok_iff {path : String} {raw : Raw} {tree : Body} :
    documentOf path raw = .ok tree ↔ Node.ofRaw raw = .ok (.map tree) := by
  unfold documentOf
  cases Node.ofRaw raw with
  | error e => simp
  | ok node => cases node <;> simp

theorem parseAs_ok_iff {parser : ConfigParser} {kind : FileKind} {path : String}
    {content : List Char} {tree : Body} :
    parseAs parser kind path content = .ok tree ↔
      ∃ raw, kind.Parses parser content raw ∧ Node.ofRaw raw = .ok (.map tree) := by
  have hexport : parseExport path content = .ok tree ↔
      ∃ raw, Json.decode content = .ok raw ∧ Node.ofRaw raw = .ok (.map tree) := by
    unfold parseExport
    cases Json.decode content with
    | error fault => cases hproblem : fault.problem.isSyntax <;> simp [hproblem]
    | ok raw => simp [documentOf_ok_iff]
  cases kind with
  | config =>
    simp only [parseAs, parseConfig, FileKind.Parses]
    cases parser content with
    | none => simp
    | some raw => simp [documentOf_ok_iff]
  | plan => exact hexport
  | state => exact hexport

theorem documentOf_error {path : String} {raw : Raw} {e : LoadError}
    (h : documentOf path raw = .error e) : ∃ rejection, e = .rejected path rejection := by
  unfold documentOf at h
  split at h
  · cases h
    exact ⟨_, rfl⟩
  · cases h
  · cases h
    exact ⟨_, rfl⟩

theorem parseAs_error {parser : ConfigParser} {kind : FileKind} {path : String} {text : List Char}
    {e : LoadError} (h : parseAs parser kind path text = .error e) :
    (∃ rejection, e = .rejected path rejection)
      ∨ kind ≠ .config ∧ ∃ fault, Json.decode text = .error fault ∧ fault.problem.isSyntax = false
        ∧ e = .tooManyDigits fault := by
  by_cases hkind : kind = .config
  · rw [hkind, parseAs, parseConfig] at h
    split at h
    · cases h
      exact .inl ⟨_, rfl⟩
    · exact .inl (documentOf_error h)
  · rw [parseAs_export parser path text hkind, parseExport] at h
    split at h
    · rename_i fault hfault
      split_ifs at h with hproblem
      · cases h
        exact .inl ⟨_, rfl⟩
      · cases h
        exact .inr ⟨hkind, fault, hfault, Bool.eq_false_iff.mpr hproblem, rfl⟩
    · exact .inl (documentOf_error h)

section Load

variable {store : FileStore} {item : FileItem} {e : LoadError}

theorem load_ok_iff {file : SourceFile} :
    load store item = .ok file ↔
      file.path = item.path ∧ item.Holds store file.content.toList
        ∧ file.kind = item.classify file.content.toList
        ∧ parseAs store.parser file.kind item.path file.content.toList = .ok file.tree := by
  constructor
  · intro h
    obtain ⟨hholds, hpath, hkind, htree⟩ := holds_of_load h
    exact ⟨hpath, hholds, hkind, htree⟩
  · rintro ⟨hpath, hholds, hkind, htree⟩
    rw [load_holds hholds, ← hkind, htree, ← hpath, String.ofList_toList]
    rfl

theorem load_of_escapes (h : item.Escapes store e) : load store item = .error e := by
  cases h with
  | unencodable hc hencodable =>
    rw [load, read_unencodable hc hencodable]
    rfl
  | null hencodable hnull =>
    rw [load, read_null hencodable hnull]
    rfl
  | exhausted hreads he => exact load_exhausted hreads he
  | digits hholds hkind hfault hproblem =>
    rw [load_holds hholds, parseAs_export _ _ _ hkind, parseExport, hfault]
    simp only [hproblem, Bool.false_eq_true, if_false]
    rfl

theorem escapes_or_isFound {fault : ReadError} (h : store.read item.path = .error fault) :
    fault.fault.IsFound ∨ item.Escapes store (.unreadable fault) := by
  by_cases hencodable : ∀ c ∈ item.path.toList, Text.isEncodable c = true
  · by_cases hnull : '\x00' ∈ item.path.toList
    · cases (read_null hencodable hnull).symm.trans h
      exact .inr (.null hencodable hnull)
    · exact .inl (isFound_read hencodable hnull h)
  · push Not at hencodable
    obtain ⟨c, hc, hne⟩ := hencodable
    have hfalse := Bool.eq_false_iff.mpr hne
    cases (read_unencodable hc hfalse).symm.trans h
    exact .inr (.unencodable hc hfalse)

/-- An error that does not escape is a rejection or a failure to find or to open the file. -/
theorem load_error_cases (h : load store item = .error e) :
    (∃ rejection, e = .rejected item.path rejection)
      ∨ (∃ fault : ReadError, e = .unreadable fault ∧ fault.fault.IsFound)
      ∨ item.Escapes store e := by
  cases hread : store.read item.path with
  | error fault =>
    rw [load, hread] at h
    cases h
    exact .inr ((escapes_or_isFound hread).imp_left fun hfound => ⟨fault, rfl, hfound⟩)
  | ok bytes =>
    cases htext : decodeText bytes with
    | error fault =>
      simp only [load, hread, htext, Except.mapError, Json.ok_bind] at h
      cases h
      exact .inl ⟨_, rfl⟩
    | ok text =>
      have hreads : item.Reads store text := ⟨bytes, hread, htext⟩
      cases hfits : store.stack.exhaustion? store.parser item text with
      | some exhaustion =>
        cases (load_exhausted hreads hfits).symm.trans h
        exact .inr (.inr (.exhausted hreads hfits))
      | none =>
        have hholds : item.Holds store text := ⟨hreads, hfits⟩
        rw [load_holds hholds] at h
        cases hparse : parseAs store.parser (item.classify text) item.path text with
        | ok tree =>
          rw [hparse] at h
          cases h
        | error other =>
          rw [hparse] at h
          cases h
          rcases parseAs_error hparse with hrejected | ⟨hkind, fault, hfault, hproblem, rfl⟩
          · exact .inl hrejected
          · exact .inr (.inr (.digits hholds hkind hfault hproblem))

end Load

end Files

namespace LongSerial

open Json

/-- The digits of ten to the power of 4300. -/
def digits : List Char := '1' :: List.replicate 4300 '0'

def text : List Char :=
  '\x7b' :: '"' :: ("serial".toList ++ '"' :: ':' :: ' ' :: (digits ++ ['\x7d']))

def store : FileStore := .ofText "terraform.tfstate" text

theorem whole_digits : Whole digits :=
  .digits (by decide) (List.forall_mem_cons.mpr ⟨by decide, fun c hc =>
    List.eq_of_mem_replicate hc ▸ (by decide)⟩)

theorem length_digits : digits.length = 4301 := by
  rw [digits, List.length_cons, List.length_replicate]

/-- A member whose value cannot be read ends the reading of an object. -/
theorem scanMembers_halt {fuel : Nat} (entries : List (String × Raw)) {key t rest : List Char}
    {halt : Halt} (hkey : StringBody key t)
    (hvalue : scanValue fuel (skipBlanks rest) = .error halt) :
    scanMembers (fuel + 1) entries ('"' :: (t ++ '"' :: ':' :: rest)) = .error halt := by
  have hcolon : skipBlanks (':' :: rest) = ':' :: rest := rfl
  simp only [scanMembers, scanString_body _ _ hkey, ok_bind, hcolon, hvalue]
  rfl

theorem scanValue_halt {fuel : Nat} {cs : List Char} {halt : Halt}
    (h : scanMembers fuel [] ('"' :: cs) = .error halt) :
    scanValue (fuel + 1) ('\x7b' :: '"' :: cs) = .error halt := by
  have hskip : skipBlanks ('"' :: cs) = '"' :: cs := rfl
  rw [scanValue, hskip]
  show (scanMembers fuel [] ('"' :: cs) >>= _) = _
  rw [h]
  rfl

theorem decode_text : ∃ fault, decode text = .error fault ∧ fault.problem.isSyntax = false := by
  have hends : Ends ['\x7d'] := by simp [Ends]
  have hbody : StringBody "serial".toList "serial".toList := stringBody_minimal "serial".toList
  have hlong : maxIntegerDigits < digits.length := by
    rw [length_digits]
    decide
  have hsize : 2 * text.length + 2 = 2 * text.length - 1 + 1 + 1 + 1 := by
    simp only [text, List.length_cons]
    omega
  have hvalue := scanValue_long (2 * text.length - 1) false whole_digits hlong hends
  have hskip : skipBlanks (' ' :: (digits ++ ['\x7d'])) = digits ++ ['\x7d'] := rfl
  have hmembers := scanMembers_halt [] hbody (hskip ▸ hvalue)
  have hfirst : decodeFirst text = .error ⟨.tooManyDigits digits.length, digits ++ ['\x7d']⟩ := by
    rw [decodeFirst, hsize]
    exact scanValue_halt hmembers
  exact ⟨_, decode_error (by decide) (by decide) hfirst, rfl⟩

theorem countP_text : text.countP isOpening = 1 := by
  have hdigits : digits.countP isOpening = 0 := by
    rw [digits, List.countP_cons_of_neg (by decide), List.countP_replicate, if_neg (by decide)]
  have hfront : ("\x7b\"serial\": ".toList).countP isOpening = 1 := by decide
  have hsplit : text = "\x7b\"serial\": ".toList ++ (digits ++ ['\x7d']) := rfl
  rw [hsplit, List.countP_append, List.countP_append, hdigits, hfront]
  decide

theorem ascii_text : ∀ c ∈ text, c.toNat < 128 ∧ c ≠ '\r' := by
  have hdigits : ∀ c ∈ digits, c.toNat < 128 ∧ c ≠ '\r' :=
    List.forall_mem_cons.mpr ⟨by decide, fun c hc => List.eq_of_mem_replicate hc ▸ (by decide)⟩
  have hbehind : ∀ c ∈ digits ++ ['\x7d'], c.toNat < 128 ∧ c ≠ '\r' :=
    List.forall_mem_append.mpr ⟨hdigits, by decide⟩
  have hfront : ∀ c ∈ "\x7b\"serial\": ".toList, c.toNat < 128 ∧ c ≠ '\r' := by decide
  exact List.forall_mem_append.mpr ⟨hfront, hbehind⟩

theorem classify_text : (FileItem.ofPath "terraform.tfstate").classify text ≠ .config := nofun

/-- The text fits on the usual stack: it opens one map, and cannot be decoded. -/
theorem holds_of_reads {store : FileStore}
    (hreads : (FileItem.ofPath "terraform.tfstate").Reads store text)
    (hstack : store.stack = .usual) : (FileItem.ofPath "terraform.tfstate").Holds store text := by
  obtain ⟨fault, hfault, -⟩ := decode_text
  refine ⟨hreads, Stack.Suffices.exhaustion?_eq_none ?_⟩
  rw [hstack]
  refine ⟨fun _ _ => ?_, fun _ => ?_, fun hkind => absurd hkind classify_text, fun raw hraw => ?_⟩
  · rw [countP_text]
    decide
  · rw [countP_text]
    decide
  · rw [decodeAs?_export _ _ classify_text, hfault] at hraw
    cases hraw

theorem escapes_of_holds {store : FileStore}
    (hholds : (FileItem.ofPath "terraform.tfstate").Holds store text) :
    ∃ fault, (FileItem.ofPath "terraform.tfstate").Escapes store (.tooManyDigits fault) := by
  obtain ⟨fault, hfault, hproblem⟩ := decode_text
  exact ⟨fault, .digits hholds classify_text hfault hproblem⟩

theorem holds_text : (FileItem.ofPath "terraform.tfstate").Holds store text :=
  holds_of_reads (FileItem.reads_ofText (by rfl) ascii_text) rfl

end LongSerial

end TerraIndex
