import TerraIndex.File.Load
import TerraIndex.Proofs.Document.Conversion
/-!
# Files that are read

What becomes of a file whose text can be read is a matter of that text and of the stack
(`load_reads`). The stack is too small only for a text that has more opening brackets, or a value
that nests deeper, than there is room for (`Stack.Suffices`), and in an export every value that
nests deeper is too much for it (`exists_exhaustion`).
-/

namespace TerraIndex

open Json

section Nesting

mutual

/-- How many lists and maps of a value stand one inside the other. -/
def Raw.nesting : Raw → Nat
  | .list items => itemsNesting items + 1
  | .tuple items => itemsNesting items + 1
  | .map entries => entriesNesting entries + 1
  | _ => 0

def itemsNesting : List Raw → Nat
  | [] => 0
  | item :: rest => max item.nesting (itemsNesting rest)

def entriesNesting : List (String × Raw) → Nat
  | [] => 0
  | (_, value) :: rest => max value.nesting (entriesNesting rest)

end

theorem lt_succ_of_overflows {n room : Nat} {inside : Bool} (hinside : inside = true → room - 1 < n)
    (h : (room == 0 || inside) = true) : room < n + 1 := by
  rw [Bool.or_eq_true, beq_iff_eq] at h
  rcases h with rfl | h
  · exact Nat.succ_pos n
  · have hn := hinside h
    omega

theorem overflows_of_lt_succ {n room : Nat} {inside : Bool} (hinside : room - 1 < n → inside = true)
    (h : room < n + 1) : (room == 0 || inside) = true := by
  rw [Bool.or_eq_true, beq_iff_eq]
  by_cases hroom : room = 0
  · exact .inl hroom
  · exact .inr (hinside (by omega))

mutual

/-- A value is too deep to be converted only if it nests deeper than there is room. -/
theorem nesting_of_overflows : ∀ {raw : Raw} {room : Nat}, raw.overflows room = true →
    room < raw.nesting
  | .list _, _, h => lt_succ_of_overflows nesting_of_itemsOverflow h
  | .tuple _, _, h => lt_succ_of_overflows nesting_of_itemsOverflow h
  | .map _, _, h => lt_succ_of_overflows nesting_of_entriesOverflow h

theorem nesting_of_itemsOverflow : ∀ {items : List Raw} {room : Nat},
    Raw.itemsOverflow items room = true → room < itemsNesting items
  | _ :: _, _, h => by
    rw [Raw.itemsOverflow, Bool.or_eq_true, Bool.and_eq_true] at h
    rw [itemsNesting, lt_max_iff]
    exact h.imp nesting_of_overflows fun h => nesting_of_itemsOverflow h.2

theorem nesting_of_entriesOverflow : ∀ {entries : List (String × Raw)} {room : Nat},
    Raw.entriesOverflow entries room = true → room < entriesNesting entries
  | _ :: _, _, h => by
    rw [Raw.entriesOverflow, Bool.or_eq_true, Bool.and_eq_true] at h
    rw [entriesNesting, lt_max_iff]
    exact h.imp nesting_of_overflows fun h => nesting_of_entriesOverflow h.2

end

mutual

/-- A value that nests deeper is too deep, unless a leaf is refused before. -/
theorem overflows_of_nesting : ∀ {raw : Raw} {node : Node} {room : Nat},
    Node.ofRaw raw = .ok node → room < raw.nesting → raw.overflows room = true
  | .list _, _, _, h, hroom => by
    obtain ⟨_, hnodes, -⟩ := map_ok h
    exact overflows_of_lt_succ (itemsOverflow_of_nesting hnodes) hroom
  | .tuple _, _, _, h, hroom => by
    obtain ⟨_, hnodes, -⟩ := map_ok h
    exact overflows_of_lt_succ (itemsOverflow_of_nesting hnodes) hroom
  | .map _, _, _, h, hroom => by
    obtain ⟨_, hnodes, -⟩ := map_ok h
    exact overflows_of_lt_succ (entriesOverflow_of_nesting hnodes) hroom

theorem itemsOverflow_of_nesting : ∀ {items : List Raw} {nodes : List Node} {room : Nat},
    Node.ofRawList items = .ok nodes → room < itemsNesting items →
    Raw.itemsOverflow items room = true
  | _ :: _, _, _, h, hroom => by
    obtain ⟨_, hnode, h⟩ := bind_ok h
    obtain ⟨_, hnodes, -⟩ := bind_ok h
    rw [itemsNesting, lt_max_iff] at hroom
    rw [Raw.itemsOverflow, Bool.or_eq_true, Bool.and_eq_true, hnode]
    exact hroom.imp (overflows_of_nesting hnode) fun h => ⟨rfl, itemsOverflow_of_nesting hnodes h⟩

theorem entriesOverflow_of_nesting : ∀ {entries : List (String × Raw)} {nodes : Body} {room : Nat},
    Node.ofRawEntries entries = .ok nodes → room < entriesNesting entries →
    Raw.entriesOverflow entries room = true
  | _ :: _, _, _, h, hroom => by
    obtain ⟨_, hnode, h⟩ := bind_ok h
    obtain ⟨_, hnodes, -⟩ := bind_ok h
    rw [entriesNesting, lt_max_iff] at hroom
    rw [Raw.entriesOverflow, Bool.or_eq_true, Bool.and_eq_true, hnode]
    exact hroom.imp (overflows_of_nesting hnode) fun h => ⟨rfl, entriesOverflow_of_nesting hnodes h⟩

end

end Nesting

section Brackets

theorem sublist_bracketsFrom (column : Nat) (state : QuoteState) (cs : List Char) :
    ((bracketsFrom column state cs).map (·.2)).Sublist cs := by
  fun_induction bracketsFrom column state cs with
  | case1 => exact .slnil
  | case2 column c cs ih => exact ih.cons c
  | case3 column c cs state ih => exact ih.cons c
  | case4 column cs ih => exact ih.cons '"'
  | case5 column c cs hquote hbracket ih => exact ih.cons_cons c
  | case6 column c cs hquote hbracket ih => exact ih.cons c

theorem firstBeyond?_eq_none {room : Nat} : ∀ {cs : List Char} {depth : Nat},
    depth + cs.countP isOpening ≤ room → firstBeyond? room depth cs = none
  | [], _, _ => rfl
  | c :: cs, depth, h => by
    rw [firstBeyond?]
    by_cases hc : isOpening c
    · rw [List.countP_cons_of_pos hc] at h
      rw [if_pos hc, if_pos (by omega), firstBeyond?_eq_none (by omega)]
    · rw [List.countP_cons_of_neg hc] at h
      rw [if_neg hc, firstBeyond?_eq_none (by omega)]

theorem readPart_sublist (text : List Char) : (readPart text).Sublist text := by
  unfold readPart
  split
  · exact .refl text
  · exact List.take_sublist _ text

/-- A text with no more opening brackets than there is room for is decoded to its end. -/
theorem overflow?_eq_none {room : Nat} {text : List Char} (h : text.countP isOpening ≤ room) :
    overflow? room text = none := by
  have hsublist := (sublist_bracketsFrom 0 .outside (readPart text)).trans (readPart_sublist text)
  refine firstBeyond?_eq_none ?_
  rw [Nat.zero_add]
  exact Nat.le_trans hsublist.countP_le h

end Brackets

/-- The stack has room for every opening bracket of a text that is decoded, the text is parsed, and
what it is decoded to does not nest deeper than there is room to convert it. -/
structure Stack.Suffices (stack : Stack) (parser : ConfigParser) (item : FileItem)
    (text : List Char) : Prop where
  classified : item.isState = false → item.isPlan = false →
    text.countP isOpening ≤ stack.classifying
  decoded : item.classify text ≠ .config → text.countP isOpening ≤ stack.decoding
  parsed : item.classify text = .config → stack.parses text = true
  converted : ∀ raw, decodeAs? parser (item.classify text) text = some raw →
    raw.nesting ≤ stack.converting

section Stack

variable {stack : Stack} {parser : ConfigParser} {item : FileItem} {text : List Char}

theorem Stack.classifying?_eq_none (h : item.isState = false → item.isPlan = false →
    text.countP isOpening ≤ stack.classifying) : stack.classifying? item text = none := by
  unfold classifying?
  split_ifs with hflags
  · rfl
  · rw [Bool.not_eq_true, Bool.or_eq_false_iff] at hflags
    rw [overflow?_eq_none (h hflags.1 hflags.2), Option.map_none]

theorem Stack.Suffices.exhaustion?_eq_none (h : stack.Suffices parser item text) :
    stack.exhaustion? parser item text = none := by
  have hparsed : stack.parsing? (item.classify text) text = none := by
    unfold parsing?
    split
    · rename_i hconfig
      rw [if_pos (h.parsed hconfig)]
    · rename_i hexport
      rw [overflow?_eq_none (h.decoded hexport), Option.map_none]
  have hconverted : stack.converting? parser (item.classify text) text = none := by
    refine if_neg fun hany => ?_
    obtain ⟨raw, hraw, hover⟩ := (Option.any_eq_true _ _).mp hany
    exact Nat.not_lt.mpr (h.converted raw hraw) (nesting_of_overflows hover)
  rw [exhaustion?, classifying?_eq_none h.classified, hparsed, hconverted]
  rfl

/-- A value that can be converted but nests deeper than there is room exhausts the stack. -/
theorem Stack.exists_exhaustion {raw : Raw} (hplain : ∀ leaf ∈ raw.leaves, leaf.isPlain = true)
    (hdecode : decodeAs? parser (item.classify text) text = some raw)
    (hdeep : stack.converting < raw.nesting) :
    ∃ e, stack.exhaustion? parser item text = some e := by
  obtain ⟨node, hnode⟩ := ofRaw_ok_iff.mpr hplain
  have hconverting : stack.converting? parser (item.classify text) text = some .converting := by
    refine if_pos ?_
    rw [hdecode]
    exact overflows_of_nesting hnode hdeep
  rw [exhaustion?, hconverting]
  cases stack.classifying? item text with
  | some e => exact ⟨e, rfl⟩
  | none =>
    cases stack.parsing? (item.classify text) text with
    | some e => exact ⟨e, rfl⟩
    | none => exact ⟨_, rfl⟩

end Stack

theorem parseAs_export {kind : FileKind} (parser : ConfigParser) (path : String)
    (text : List Char) (h : kind ≠ .config) :
    parseAs parser kind path text = parseExport path text := by
  cases kind with
  | config => exact absurd rfl h
  | plan => rfl
  | state => rfl

theorem decodeAs?_export {kind : FileKind} (parser : ConfigParser) (text : List Char)
    (h : kind ≠ .config) : decodeAs? parser kind text = (decode text).toOption := by
  cases kind with
  | config => exact absurd rfl h
  | plan => rfl
  | state => rfl

/-- The parser makes of a text what the configuration language says. -/
def ConfigParser.Follows (parser : ConfigParser) (text : List Char) : Prop :=
  parser text = Hcl.decode text

/-- The file of the item has the given text. -/
def FileItem.Reads (item : FileItem) (store : FileStore) (text : List Char) : Prop :=
  ∃ bytes, store.read item.path = .ok bytes ∧ decodeText bytes = .ok text

/-- The file of the item has the given text, and the stack is large enough to load it. -/
structure FileItem.Holds (item : FileItem) (store : FileStore) (text : List Char) : Prop where
  reads : item.Reads store text
  fits : store.stack.exhaustion? store.parser item text = none

section Loading

variable {store : FileStore} {item : FileItem} {text : List Char}

theorem FileItem.Reads.unique {other : List Char} (h : item.Reads store text)
    (hother : item.Reads store other) : text = other := by
  obtain ⟨bytes, hread, htext⟩ := h
  obtain ⟨_, hread', hother⟩ := hother
  obtain rfl := Except.ok.inj (hread.symm.trans hread')
  exact Except.ok.inj (htext.symm.trans hother)

theorem load_reads (h : item.Reads store text) :
    load store item = match store.stack.exhaustion? store.parser item text with
      | some e => .error (.exhausted e)
      | none => do
        let tree ← parseAs store.parser (item.classify text) item.path text
        return ⟨item.path, String.ofList text, item.classify text, tree⟩ := by
  obtain ⟨bytes, hread, htext⟩ := h
  unfold load
  rw [hread]
  show ((decodeText bytes).mapError _ >>= _) = _
  rw [htext]
  rfl

theorem load_holds (h : item.Holds store text) :
    load store item = (do
      let tree ← parseAs store.parser (item.classify text) item.path text
      return ⟨item.path, String.ofList text, item.classify text, tree⟩) := by
  simp only [load_reads h.reads, h.fits]

theorem load_exhausted {e : Exhaustion} (h : item.Reads store text)
    (he : store.stack.exhaustion? store.parser item text = some e) :
    load store item = .error (.exhausted e) := by
  simp only [load_reads h, he]

/-- What was loaded was read, and the stack was large enough. -/
theorem holds_of_load {file : SourceFile} (h : load store item = .ok file) :
    item.Holds store file.content.toList ∧ file.path = item.path
      ∧ file.kind = item.classify file.content.toList
      ∧ parseAs store.parser file.kind item.path file.content.toList = .ok file.tree := by
  obtain ⟨bytes, hread, h⟩ := bind_ok h
  obtain ⟨content, hcontent, h⟩ := bind_ok h
  split at h
  · cases h
  · rename_i hfits
    obtain ⟨tree, htree, h⟩ := bind_ok h
    cases h
    rw [String.toList_ofList]
    exact ⟨⟨⟨bytes, mapError_ok hread, mapError_ok hcontent⟩, hfits⟩, rfl, rfl, htree⟩

end Loading

section Ascii

/-- A store with one file, which has a text of ASCII characters. -/
def FileStore.ofText (path : String) (text : List Char) : FileStore :=
  FileStore.empty.write path (text.map fun c => c.toNat.toUInt8)

theorem FileStore.follows_ofText (path : String) (text content : List Char) :
    (FileStore.ofText path text).parser.Follows content :=
  rfl

theorem Text.Utf8.decodeFrom_ascii : ∀ {text : List Char} (position : Nat),
    (∀ c ∈ text, c.toNat < 128) →
    decodeFrom position none (text.map fun c => c.toNat.toUInt8) = .ok text
  | [], _, _ => rfl
  | c :: text, position, h => by
    obtain ⟨hc, htext⟩ := List.forall_mem_cons.mp h
    have hbyte : c.toNat.toUInt8.toNat = c.toNat :=
      UInt8.toNat_ofNat_of_lt' (Nat.lt_of_lt_of_le hc (by decide))
    rw [List.map_cons, decodeFrom, if_pos (by omega), decodeFrom_ascii (position + 1) htext, hbyte,
      Char.ofNat_toNat]
    rfl

theorem Text.unifyNewlines_of_not_mem : ∀ {text : List Char}, '\r' ∉ text →
    unifyNewlines text = text
  | [], _ => rfl
  | c :: text, h => by
    rw [List.mem_cons, not_or] at h
    rw [unifyNewlines, if_neg (Ne.symm h.1), unifyNewlines_of_not_mem h.2]
    intro _ hc
    exact absurd hc.symm h.1

/-- A text of ASCII characters without carriage returns is read as it is. -/
theorem FileItem.reads_ascii {store : FileStore} {item : FileItem} {text : List Char}
    (hread : store.read item.path = .ok (text.map fun c => c.toNat.toUInt8))
    (htext : ∀ c ∈ text, c.toNat < 128 ∧ c ≠ '\r') : item.Reads store text := by
  refine ⟨_, hread, ?_⟩
  rw [decodeText, Text.Utf8.decode, Text.Utf8.decodeFrom_ascii 0 fun c hc => (htext c hc).1]
  exact congrArg _ (Text.unifyNewlines_of_not_mem fun hc => (htext _ hc).2 rfl)

theorem FileItem.reads_ofText {item : FileItem} {text : List Char}
    (hread : (FileStore.ofText item.path text).read item.path
      = .ok (text.map fun c => c.toNat.toUInt8))
    (htext : ∀ c ∈ text, c.toNat < 128 ∧ c ≠ '\r') :
    item.Reads (.ofText item.path text) text :=
  reads_ascii hread htext

end Ascii

end TerraIndex
