import TerraIndex.Proofs.Json.Numbers
import TerraIndex.Proofs.Json.Quoted
import TerraIndex.Proofs.Source.Brackets
/-!
# Indented JSON

`Indent.text` writes a value with every item and every member on lines of its own, indented by its
depth. The lines of what it writes are `Indent.valueLines` (`scanLines_value`): a value that holds
others begins with the line of its opening bracket and ends with that of its closing one, and the
lines of what it holds stand between.
-/

namespace TerraIndex.Json

open Text (scanLines)

/-- A way to indent: by how much, and how strings are quoted. -/
structure Indent where
  width : Nat
  quote : List Char → List Char
  quoted : ∀ s, Quoted s (quote s)

namespace Indent

/-- Only the escapes that JSON requires. -/
def minimal (width : Nat) : Indent := ⟨width, Text.quoteMinimal, quoted_minimal⟩

/-- Everything outside printable ASCII is escaped. -/
def ascii (width : Nat) : Indent := ⟨width, Text.quoteAscii, quoted_ascii⟩

def margin (style : Indent) (level : Nat) : List Char := List.replicate (level * style.width) ' '

/-- The text of a value that holds no others. -/
def leafText (style : Indent) : Raw → List Char
  | .bool b => boolText b
  | .int n => intText n
  | .float x => Style.floatText x
  | .text s => style.quote s.toList
  | .other typeName => style.quote typeName.toList
  | _ => ['n', 'u', 'l', 'l']

def keyText (style : Indent) (key : String) : List Char := style.quote key.toList ++ [':', ' ']

/-- The comma behind an item that others follow. -/
def comma {α : Type} (rest : List α) : List Char := if rest.isEmpty then [] else [',']

/-- Contents between brackets. -/
def bracketed (style : Indent) (level : Nat) (o c : Char) (isEmpty : Bool) (inner : List Char) :
    List Char :=
  if isEmpty then [o, c] else o :: '\n' :: (inner ++ (style.margin level ++ [c]))

mutual

def valueText (style : Indent) (level : Nat) : Raw → List Char
  | .list items => style.bracketed level '[' ']' items.isEmpty (style.itemsText (level + 1) items)
  | .tuple items => style.bracketed level '[' ']' items.isEmpty (style.itemsText (level + 1) items)
  | .map entries =>
    style.bracketed level '\x7b' '\x7d' entries.isEmpty (style.membersText (level + 1) entries)
  | v => style.leafText v

/-- The items, each ended by a newline. -/
def itemsText (style : Indent) (level : Nat) : List Raw → List Char
  | [] => []
  | item :: rest =>
    style.margin level
      ++ (style.valueText level item ++ (comma rest ++ '\n' :: style.itemsText level rest))

/-- The members, each ended by a newline. -/
def membersText (style : Indent) (level : Nat) : List (String × Raw) → List Char
  | [] => []
  | (key, value) :: rest =>
    style.margin level ++ (style.keyText key
      ++ (style.valueText level value ++ (comma rest ++ '\n' :: style.membersText level rest)))

end

def text (style : Indent) (v : Raw) : List Char := style.valueText 0 v

section Lines

/-- The lines of brackets with the given lines between them. -/
def boxLines (style : Indent) (level : Nat) (front back : List Char) (o c : Char) (isEmpty : Bool)
    (inner : List (List Char)) : List (List Char) :=
  if isEmpty then [front ++ o :: c :: back]
  else (front ++ [o]) :: (inner ++ [style.margin level ++ c :: back])

mutual

/-- The lines of a value with `front` before it and `back` behind it. -/
def valueLines (style : Indent) (level : Nat) (front back : List Char) : Raw → List (List Char)
  | .list items =>
    style.boxLines level front back '[' ']' items.isEmpty (style.itemsLines (level + 1) items)
  | .tuple items =>
    style.boxLines level front back '[' ']' items.isEmpty (style.itemsLines (level + 1) items)
  | .map entries =>
    style.boxLines level front back '\x7b' '\x7d' entries.isEmpty
      (style.membersLines (level + 1) entries)
  | v => [front ++ (style.leafText v ++ back)]

def itemsLines (style : Indent) (level : Nat) : List Raw → List (List Char)
  | [] => []
  | item :: rest =>
    style.valueLines level (style.margin level) (comma rest) item ++ style.itemsLines level rest

def membersLines (style : Indent) (level : Nat) : List (String × Raw) → List (List Char)
  | [] => []
  | (key, value) :: rest =>
    style.valueLines level (style.margin level ++ style.keyText key) (comma rest) value
      ++ style.membersLines level rest

end

/-- The brackets of a list or of a map. -/
inductive Delimiters : Char → Char → Prop
  | list : Delimiters '[' ']'
  | map : Delimiters '\x7b' '\x7d'

namespace Delimiters

variable {o c : Char}

theorem isOpening_left (h : Delimiters o c) : isOpening o = true := by cases h <;> decide

theorem isOpening_right (h : Delimiters o c) : isOpening c = false := by cases h <;> decide

theorem isClosing_right (h : Delimiters o c) : isClosing c = true := by cases h <;> decide

theorem noControls (h : Delimiters o c) : NoControls [o, c] := by cases h <;> decide

theorem solid (h : Delimiters o c) : ∀ d ∈ [o, c], Text.isBlank d = false ∧ d ≠ '"' := by
  rw [List.forall_mem_cons, List.forall_mem_singleton]
  cases h <;> decide

theorem noControls_left (h : Delimiters o c) : NoControls [o] := fun d hd =>
  h.noControls d (by simp_all)

theorem noControls_right (h : Delimiters o c) : NoControls [c] := fun d hd =>
  h.noControls d (by simp_all)

end Delimiters

end Lines

/-- The text stays on its line and has no bracket outside strings. -/
def Inline (t : List Char) : Prop := NoControls t ∧ Quiet t

theorem Inline.append {t u : List Char} (ht : Inline t) (hu : Inline u) : Inline (t ++ u) :=
  ⟨noControls_append ht.1 hu.1, ht.2.append hu.2⟩

theorem inline_of_forall {t : List Char} (h : ∀ c ∈ t, 0x20 ≤ c.toNat ∧ c ≠ '"'
    ∧ isOpening c = false ∧ isClosing c = false) : Inline t := by
  refine ⟨fun c hc => (h c hc).1, quiet_of_forall fun c hc => ⟨?_, (h c hc).2⟩⟩
  rintro rfl
  exact absurd (h _ hc).1 (by decide)

theorem inline_nil : Inline [] := inline_of_forall (by simp)

theorem inline_quoted {s q : List Char} (h : Quoted s q) : Inline q := by
  obtain ⟨t, ht, rfl⟩ := h
  exact ⟨quoted_noControls ht, quiet_quoted ht⟩

theorem inline_numeral {v : Raw} {t : List Char} (h : Numeral v t) : Inline t :=
  ⟨numeral_noControls h, quiet_numeral h⟩

theorem inline_word {v : Raw} {t : List Char} (h : Word v t) : Inline t :=
  ⟨word_noControls h, quiet_word h⟩

theorem inline_intText (n : Int) : Inline (intText n) := by
  obtain ⟨negative, htext, -⟩ := intText_eq n
  rw [htext]
  exact ⟨noControls_append (minusText_noControls _) (digits_noControls (digits_repr _)),
    (quiet_minusText _).append (quiet_digits (digits_repr _))⟩

variable (style : Indent)

theorem inline_margin (level : Nat) : Inline (style.margin level) :=
  inline_of_forall fun c hc => by
    rw [List.eq_of_mem_replicate hc]
    decide

theorem inline_keyText (key : String) : Inline (style.keyText key) :=
  (inline_quoted (style.quoted _)).append (inline_of_forall (by simp [isOpening, isClosing]))

theorem inline_comma {α : Type} (rest : List α) : Inline (comma rest) := by
  cases rest with
  | nil => exact inline_nil
  | cons =>
    show Inline [',']
    exact inline_of_forall (by simp [isOpening, isClosing])

theorem inline_boolText (b : Bool) : Inline (boolText b) := by
  cases b with
  | false => exact inline_word .false
  | true => exact inline_word .true

theorem inline_leafText (v : Raw) : Inline (style.leafText v) := by
  cases v with
  | bool b => exact inline_boolText b
  | int n => exact inline_intText n
  | float x =>
    obtain ⟨y, h | h⟩ := token_floatText x
    · exact inline_numeral h
    · exact inline_word h
  | text s => exact inline_quoted (style.quoted _)
  | other typeName => exact inline_quoted (style.quoted _)
  | null => exact inline_word .null
  | list => exact inline_word .null
  | tuple => exact inline_word .null
  | map => exact inline_word .null

section FirstCharacter

/-- The text begins with a character that neither is blank nor opens a bracket or a string. -/
def BeginsPlain (t : List Char) : Prop :=
  ∃ c cs, t = c :: cs ∧ Text.isBlank c = false ∧ isOpening c = false ∧ c ≠ '"'

theorem isBlank_of_isDigit {c : Char} (h : c.isDigit = true) : Text.isBlank c = false := by
  simp only [Char.isDigit, Bool.and_eq_true, decide_eq_true_eq] at h
  have hlow : 48 ≤ c.toNat := h.1
  have hhigh : c.toNat ≤ 57 := h.2
  simp only [Text.isBlank, Text.inRanges, Text.blankRanges, List.any_cons, List.any_nil,
    Bool.or_false, Bool.or_eq_false_iff, Bool.and_eq_false_imp, decide_eq_true_eq,
    decide_eq_false_iff_not, Nat.not_le]
  omega

theorem beginsPlain_digit {c : Char} (cs : List Char) (h : c.isDigit = true) :
    BeginsPlain (c :: cs) :=
  ⟨c, cs, rfl, isBlank_of_isDigit h, isOpening_of_isDigit h, isDigit_ne h (by decide)⟩

theorem beginsPlain_numeral {v : Raw} {t : List Char} (h : Numeral v t) : BeginsPlain t := by
  obtain ⟨c, cs, hc, rfl | rfl⟩ := numeral_head h
  · exact beginsPlain_digit cs hc
  · exact ⟨_, _, rfl, by decide, by decide, by decide⟩

theorem beginsPlain_word {v : Raw} {t : List Char} (h : Word v t) : BeginsPlain t := by
  cases h <;> exact ⟨_, _, rfl, by decide, by decide, by decide⟩

theorem beginsPlain_intText (n : Int) : BeginsPlain (intText n) := by
  obtain ⟨negative, htext, -⟩ := intText_eq n
  rw [htext]
  cases negative with
  | true => exact ⟨'-', _, rfl, by decide, by decide, by decide⟩
  | false =>
    obtain ⟨c, cs, h, hc⟩ := whole_head (whole_repr n.natAbs)
    rw [h]
    exact beginsPlain_digit cs hc

/-- A value that holds no others is a quoted string or begins like a number or a word. -/
theorem leafText_cases (v : Raw) :
    (∃ s, Quoted s (style.leafText v)) ∨ BeginsPlain (style.leafText v) := by
  cases v with
  | bool b =>
    cases b with
    | false => exact .inr (beginsPlain_word .false)
    | true => exact .inr (beginsPlain_word .true)
  | int n => exact .inr (beginsPlain_intText n)
  | float x =>
    obtain ⟨y, h | h⟩ := token_floatText x
    · exact .inr (beginsPlain_numeral h)
    · exact .inr (beginsPlain_word h)
  | text s => exact .inl ⟨_, style.quoted _⟩
  | other typeName => exact .inl ⟨_, style.quoted _⟩
  | null => exact .inr (beginsPlain_word .null)
  | list => exact .inr (beginsPlain_word .null)
  | tuple => exact .inr (beginsPlain_word .null)
  | map => exact .inr (beginsPlain_word .null)

theorem leafText_head (v : Raw) :
    ∃ c cs, style.leafText v = c :: cs ∧ Text.isBlank c = false ∧ isOpening c = false := by
  rcases style.leafText_cases v with ⟨s, t, -, h⟩ | ⟨c, cs, h, hblank, hopen, -⟩
  · exact ⟨_, _, h, by decide, by decide⟩
  · exact ⟨c, cs, h, hblank, hopen⟩

end FirstCharacter

theorem scanLines_line {line : List Char} (rest : List Char) (h : NoControls line) :
    scanLines (line ++ '\n' :: rest) = line :: scanLines rest :=
  Text.scanLines_cons rest (h.not_mem (by decide)) (h.not_mem (by decide))

/-- One line that holds a whole value. -/
theorem scanLines_inline {front t back : List Char} (rest : List Char) (hfront : Inline front)
    (ht : Inline t) (hback : Inline back) :
    scanLines (front ++ (t ++ (back ++ '\n' :: rest)))
      = [front ++ (t ++ back)] ++ scanLines rest := by
  have h := scanLines_line rest (hfront.append (ht.append hback)).1
  simpa using h

theorem scanLines_box {front back inner : List Char} {lines : List (List Char)} {o c : Char}
    (level : Nat) (isEmpty : Bool) (rest : List Char) (hd : Delimiters o c) (hfront : Inline front)
    (hback : Inline back)
    (hinner : ∀ rest, scanLines (inner ++ rest) = lines ++ scanLines rest) :
    scanLines (front ++ (style.bracketed level o c isEmpty inner ++ (back ++ '\n' :: rest)))
      = style.boxLines level front back o c isEmpty lines ++ scanLines rest := by
  unfold bracketed boxLines
  cases isEmpty with
  | true =>
    have h := scanLines_line rest (noControls_append hfront.1
      (noControls_append hd.noControls hback.1))
    simpa using h
  | false =>
    have hopen := scanLines_line (inner ++ (style.margin level ++ c :: (back ++ '\n' :: rest)))
      (noControls_append hfront.1 hd.noControls_left)
    have hclose := scanLines_line rest (noControls_append (style.inline_margin level).1
      (noControls_append hd.noControls_right hback.1))
    rw [hinner] at hopen
    simp only [List.append_assoc, List.cons_append, List.nil_append] at hopen hclose
    simp [hopen, hclose]

mutual

theorem scanLines_value : ∀ (v : Raw) (level : Nat) {front back : List Char} (rest : List Char),
    Inline front → Inline back →
    scanLines (front ++ (style.valueText level v ++ (back ++ '\n' :: rest)))
      = style.valueLines level front back v ++ scanLines rest
  | .list items, level, _, _, rest, hf, hb =>
    style.scanLines_box level items.isEmpty rest .list hf hb
      (scanLines_items items (level + 1))
  | .tuple items, level, _, _, rest, hf, hb =>
    style.scanLines_box level items.isEmpty rest .list hf hb
      (scanLines_items items (level + 1))
  | .map entries, level, _, _, rest, hf, hb =>
    style.scanLines_box level entries.isEmpty rest .map hf hb
      (scanLines_members entries (level + 1))
  | .null, _, _, _, rest, hf, hb => scanLines_inline rest hf (style.inline_leafText .null) hb
  | .bool b, _, _, _, rest, hf, hb =>
    scanLines_inline rest hf (style.inline_leafText (.bool b)) hb
  | .int n, _, _, _, rest, hf, hb =>
    scanLines_inline rest hf (style.inline_leafText (.int n)) hb
  | .float x, _, _, _, rest, hf, hb =>
    scanLines_inline rest hf (style.inline_leafText (.float x)) hb
  | .text s, _, _, _, rest, hf, hb =>
    scanLines_inline rest hf (style.inline_leafText (.text s)) hb
  | .other typeName, _, _, _, rest, hf, hb =>
    scanLines_inline rest hf (style.inline_leafText (.other typeName)) hb

theorem scanLines_items : ∀ (items : List Raw) (level : Nat) (rest : List Char),
    scanLines (style.itemsText level items ++ rest)
      = style.itemsLines level items ++ scanLines rest
  | [], _, _ => rfl
  | item :: items, level, rest => by
    have hitem := scanLines_value item level (style.itemsText level items ++ rest)
      (style.inline_margin level) (inline_comma items)
    rw [scanLines_items items level rest] at hitem
    simp only [itemsText, itemsLines, List.append_assoc, List.cons_append]
    exact hitem

theorem scanLines_members : ∀ (entries : List (String × Raw)) (level : Nat) (rest : List Char),
    scanLines (style.membersText level entries ++ rest)
      = style.membersLines level entries ++ scanLines rest
  | [], _, _ => rfl
  | (key, value) :: entries, level, rest => by
    have hvalue := scanLines_value value level (style.membersText level entries ++ rest)
      ((style.inline_margin level).append (style.inline_keyText key)) (inline_comma entries)
    rw [scanLines_members entries level rest] at hvalue
    simp only [membersText, membersLines, List.append_assoc, List.cons_append] at hvalue ⊢
    exact hvalue

end

theorem lastLine_bracketed {o c : Char} (level : Nat) (isEmpty : Bool) (inner : List Char)
    (hd : Delimiters o c) : Text.lastLine (style.bracketed level o c isEmpty inner) ≠ [] := by
  have hlast : ∀ t : List Char, Text.lastLine (t ++ [c]) ≠ [] := fun t => by
    rw [Text.lastLine_append t (hd.noControls_right.not_mem (by decide))]
    simp
  unfold bracketed
  cases isEmpty with
  | true => exact hlast [o]
  | false =>
    have h := hlast (o :: '\n' :: (inner ++ style.margin level))
    simpa using h

theorem lastLine_leafText (v : Raw) : Text.lastLine (style.leafText v) ≠ [] := by
  obtain ⟨c, cs, h, -⟩ := style.leafText_head v
  rw [Text.lastLine_of_not_mem ((style.inline_leafText v).1.not_mem (by decide)), h]
  simp

theorem lastLine_text (v : Raw) : Text.lastLine (style.text v) ≠ [] := by
  cases v with
  | list => exact style.lastLine_bracketed 0 _ _ .list
  | tuple => exact style.lastLine_bracketed 0 _ _ .list
  | map => exact style.lastLine_bracketed 0 _ _ .map
  | null => exact style.lastLine_leafText .null
  | bool b => exact style.lastLine_leafText (.bool b)
  | int n => exact style.lastLine_leafText (.int n)
  | float x => exact style.lastLine_leafText (.float x)
  | text s => exact style.lastLine_leafText (.text s)
  | other typeName => exact style.lastLine_leafText (.other typeName)

theorem scanLines_text (v : Raw) :
    scanLines (style.text v) = scanLines (style.text v ++ ['\n']) :=
  (Text.scanLines_newline (style.lastLine_text v)).symm

end Indent

end TerraIndex.Json
