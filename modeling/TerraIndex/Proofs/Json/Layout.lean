import TerraIndex.Proofs.Json.Indented
/-!
# Where the parts of an indented value stand

A value written by an `Indent` takes a number of lines that its shape alone determines
(`Raw.height`), so a tree walk knows the lines of every part: `Placed` is a value with the number
of lines above it, and every part of a value stands there in its text (`standsIn_within`).
`occurrences` lists, in document order, the values stored under certain keys, without looking for
further ones inside them.
-/

namespace TerraIndex

open Json (Indent NoControls noControls_append noControls_cons)

/-- The value is a list or a map. -/
def Raw.isNested : Raw → Bool
  | .list _ => true
  | .tuple _ => true
  | .map _ => true
  | _ => false

def Raw.isMap : Raw → Bool
  | .map _ => true
  | _ => false

/-- The lines of brackets around contents of some height. -/
def boxHeight (isEmpty : Bool) (inner : Nat) : Nat := if isEmpty then 1 else inner + 2

mutual

def Raw.height : Raw → Nat
  | .list items => boxHeight items.isEmpty (heightItems items)
  | .tuple items => boxHeight items.isEmpty (heightItems items)
  | .map entries => boxHeight entries.isEmpty (heightEntries entries)
  | _ => 1

def heightItems : List Raw → Nat
  | [] => 0
  | item :: rest => item.height + heightItems rest

def heightEntries : List (String × Raw) → Nat
  | [] => 0
  | (_, value) :: rest => value.height + heightEntries rest

end

/-- A value and how many lines stand above it. -/
structure Placed where
  above : Nat
  value : Raw

/-- The numbers of the first and last line. -/
def Placed.lines (p : Placed) : Nat × Nat := (p.above + 1, p.above + p.value.height)

/-- The lines of the value in the text it is a part of. -/
def Placed.span (p : Placed) (text : List Char) : Span :=
  .ofLines text (p.above + 1) (p.above + p.value.height)

def placedItems (above : Nat) : List Raw → List Placed
  | [] => []
  | item :: rest => ⟨above, item⟩ :: placedItems (above + item.height) rest

def placedEntries (above : Nat) : List (String × Raw) → List (String × Placed)
  | [] => []
  | (key, value) :: rest => (key, ⟨above, value⟩) :: placedEntries (above + value.height) rest

/-- The values directly in a list or map. -/
def Placed.contents (p : Placed) : List Placed :=
  match p.value with
  | .list items => placedItems (p.above + 1) items
  | .tuple items => placedItems (p.above + 1) items
  | .map entries => (placedEntries (p.above + 1) entries).map Prod.snd
  | _ => []

/-- The second value is a part of the first, at any depth. -/
inductive Placed.Within (p : Placed) : Placed → Prop
  | self : Within p p
  | inside {q r : Placed} : Within p q → r ∈ q.contents → Within p r

theorem Placed.Within.trans {p q r : Placed} (hpq : p.Within q) (hqr : q.Within r) :
    p.Within r := by
  induction hqr with
  | self => exact hpq
  | inside _ hr ih => exact .inside ih hr

mutual

/-- The values under the keys that `p` accepts, but for those inside another such value. -/
def occurrences (p : String → Bool) (above : Nat) : Raw → List Placed
  | .list items => occurrencesItems p (above + 1) items
  | .tuple items => occurrencesItems p (above + 1) items
  | .map entries => occurrencesEntries p (above + 1) entries
  | _ => []

def occurrencesItems (p : String → Bool) (above : Nat) : List Raw → List Placed
  | [] => []
  | item :: rest => occurrences p above item ++ occurrencesItems p (above + item.height) rest

def occurrencesEntries (p : String → Bool) (above : Nat) : List (String × Raw) → List Placed
  | [] => []
  | (key, value) :: rest =>
    (if p key then [⟨above, value⟩] else occurrences p above value)
      ++ occurrencesEntries p (above + value.height) rest

end

namespace Json.Indent

variable (style : Indent)

section Newlines

theorem count_newline {t : List Char} (h : NoControls t) : t.count '\n' = 0 :=
  List.count_eq_zero.mpr (h.not_mem (by decide))

theorem count_bracketed {o c : Char} (level : Nat) (isEmpty : Bool) {inner : List Char}
    {height : Nat} (hd : Delimiters o c) (hinner : inner.count '\n' = height) :
    (style.bracketed level o c isEmpty inner).count '\n' + 1 = boxHeight isEmpty height := by
  have ho := count_newline hd.noControls_left
  have hc := count_newline hd.noControls_right
  have hmargin := count_newline (style.inline_margin level).1
  unfold bracketed boxHeight
  cases isEmpty with
  | true =>
    rw [if_pos rfl, if_pos rfl, count_newline hd.noControls]
  | false =>
    rw [List.count_singleton] at ho hc
    simp only [Bool.false_eq_true, if_false, List.count_cons, List.count_append, List.count_nil,
      hinner, hmargin, ho, hc]
    simp

theorem count_leafText (v : Raw) : (style.leafText v).count '\n' + 1 = 1 := by
  rw [count_newline (style.inline_leafText v).1]

mutual

theorem count_valueText : ∀ (v : Raw) (level : Nat),
    (style.valueText level v).count '\n' + 1 = v.height
  | .list items, level =>
    style.count_bracketed level _ .list (count_itemsText items (level + 1))
  | .tuple items, level =>
    style.count_bracketed level _ .list (count_itemsText items (level + 1))
  | .map entries, level =>
    style.count_bracketed level _ .map (count_membersText entries (level + 1))
  | .null, _ => style.count_leafText .null
  | .bool b, _ => style.count_leafText (.bool b)
  | .int n, _ => style.count_leafText (.int n)
  | .float x, _ => style.count_leafText (.float x)
  | .text s, _ => style.count_leafText (.text s)
  | .other typeName, _ => style.count_leafText (.other typeName)

theorem count_itemsText : ∀ (items : List Raw) (level : Nat),
    (style.itemsText level items).count '\n' = heightItems items
  | [], _ => rfl
  | item :: items, level => by
    have hitem := count_valueText item level
    have hitems := count_itemsText items level
    have hmargin := count_newline (style.inline_margin level).1
    have hcomma := count_newline (inline_comma items).1
    simp only [itemsText, heightItems, List.count_append, List.count_cons_self]
    omega

theorem count_membersText : ∀ (entries : List (String × Raw)) (level : Nat),
    (style.membersText level entries).count '\n' = heightEntries entries
  | [], _ => rfl
  | (key, value) :: entries, level => by
    have hvalue := count_valueText value level
    have hentries := count_membersText entries level
    have hmargin := count_newline (style.inline_margin level).1
    have hkey := count_newline (style.inline_keyText key).1
    have hcomma := count_newline (inline_comma entries).1
    simp only [membersText, heightEntries, List.count_append, List.count_cons_self]
    omega

end

/-- The lines of a value, with what stands on its first and last line, end as many newlines. -/
theorem count_lines {front back : List Char} (v : Raw) (level : Nat) (hfront : Inline front)
    (hback : Inline back) :
    (front ++ (style.valueText level v ++ (back ++ ['\n']))).count '\n' = v.height := by
  simpa [count_newline hfront.1, count_newline hback.1] using style.count_valueText v level

end Newlines

theorem length_boxLines (level : Nat) (front back : List Char) (o c : Char) (isEmpty : Bool)
    {inner : List (List Char)} {height : Nat} (hinner : inner.length = height) :
    (style.boxLines level front back o c isEmpty inner).length = boxHeight isEmpty height := by
  unfold boxLines boxHeight
  cases isEmpty <;> simp [hinner]

mutual

theorem length_valueLines : ∀ (v : Raw) (level : Nat) (front back : List Char),
    (style.valueLines level front back v).length = v.height
  | .list items, level, _, _ =>
    style.length_boxLines level _ _ _ _ _ (length_itemsLines items (level + 1))
  | .tuple items, level, _, _ =>
    style.length_boxLines level _ _ _ _ _ (length_itemsLines items (level + 1))
  | .map entries, level, _, _ =>
    style.length_boxLines level _ _ _ _ _ (length_membersLines entries (level + 1))
  | .null, _, _, _ => rfl
  | .bool _, _, _, _ => rfl
  | .int _, _, _, _ => rfl
  | .float _, _, _, _ => rfl
  | .text _, _, _, _ => rfl
  | .other _, _, _, _ => rfl

theorem length_itemsLines : ∀ (items : List Raw) (level : Nat),
    (style.itemsLines level items).length = heightItems items
  | [], _ => rfl
  | item :: items, level => by
    rw [itemsLines, List.length_append, length_valueLines item, length_itemsLines items,
      heightItems]

theorem length_membersLines : ∀ (entries : List (String × Raw)) (level : Nat),
    (style.membersLines level entries).length = heightEntries entries
  | [], _ => rfl
  | (key, value) :: entries, level => by
    rw [membersLines, List.length_append, length_valueLines value, length_membersLines entries,
      heightEntries]

end

section Lines

/-- A part is the last one or has a comma behind it. -/
def Trails (back : List Char) : Prop := back = [] ∨ back = [',']

theorem trails_comma {α : Type} (rest : List α) : Trails (comma rest) := by
  cases rest with
  | nil => exact .inl rfl
  | cons => exact .inr rfl

theorem Trails.inline {back : List Char} (h : Trails back) : Inline back := by
  rcases h with rfl | rfl
  · exact inline_nil
  · exact inline_comma [()]

theorem lines_placedItems : ∀ (items : List Raw) (level n : Nat) {q : Placed},
    q ∈ placedItems n items →
    ∃ above back below, Trails back ∧ n + above.length = q.above
      ∧ style.itemsLines level items
        = above ++ (style.valueLines level (style.margin level) back q.value ++ below)
  | [], _, _, _, h => by simp [placedItems] at h
  | item :: items, level, n, q, h => by
    rcases List.mem_cons.mp h with rfl | h
    · exact ⟨[], comma items, style.itemsLines level items, trails_comma items, rfl, rfl⟩
    · obtain ⟨above, back, below, hback, habove, hlines⟩ :=
        lines_placedItems items level (n + item.height) h
      refine ⟨style.valueLines level (style.margin level) (comma items) item ++ above, back, below,
        hback, ?_, ?_⟩
      · rw [List.length_append, length_valueLines]
        omega
      · rw [itemsLines, hlines, List.append_assoc]

theorem lines_placedEntries : ∀ (entries : List (String × Raw)) (level n : Nat) {key : String}
    {q : Placed}, (key, q) ∈ placedEntries n entries →
    ∃ above back below, Trails back ∧ n + above.length = q.above
      ∧ style.membersLines level entries
        = above ++ (style.valueLines level (style.margin level ++ style.keyText key) back q.value
          ++ below)
  | [], _, _, _, _, h => by simp [placedEntries] at h
  | (key, value) :: entries, level, n, _, q, h => by
    rcases List.mem_cons.mp h with h | h
    · obtain ⟨rfl, rfl⟩ := Prod.mk.inj h
      exact ⟨[], comma entries, style.membersLines level entries, trails_comma entries, rfl, rfl⟩
    · obtain ⟨above, back, below, hback, habove, hlines⟩ :=
        lines_placedEntries entries level (n + value.height) h
      refine ⟨style.valueLines level (style.margin level ++ style.keyText key) (comma entries) value
        ++ above, back, below, hback, ?_, ?_⟩
      · rw [List.length_append, length_valueLines]
        omega
      · rw [membersLines, hlines, List.append_assoc]

theorem boxLines_inner (level : Nat) (front back : List Char) (o c : Char) {isEmpty : Bool}
    (inner : List (List Char)) (h : isEmpty = false) :
    style.boxLines level front back o c isEmpty inner
      = (front ++ [o]) :: (inner ++ [style.margin level ++ c :: back]) := by
  rw [boxLines, h, if_neg Bool.false_ne_true]

/-- What stands in front of a part of a value on its first line. -/
inductive Front (level : Nat) (p q : Placed) : List Char → Prop
  | item : p.value.isMap = false → Front level p q (style.margin level)
  | member {entries : List (String × Raw)} {key : String} : p.value = .map entries →
      (key, q) ∈ placedEntries (p.above + 1) entries →
      Front level p q (style.margin level ++ style.keyText key)

theorem Front.inline {style : Indent} {level : Nat} {p q : Placed} {front : List Char}
    (h : style.Front level p q front) : Inline front := by
  cases h with
  | item => exact style.inline_margin level
  | member => exact (style.inline_margin level).append (style.inline_keyText _)

/-- The lines of what a value holds stand between its own. -/
theorem lines_contents {p q : Placed} (level : Nat) (front back : List Char) (h : q ∈ p.contents) :
    ∃ above front' back' below, style.Front (level + 1) p q front' ∧ Trails back'
      ∧ p.above + above.length = q.above
      ∧ style.valueLines level front back p.value
        = above ++ (style.valueLines (level + 1) front' back' q.value ++ below) := by
  obtain ⟨n, v⟩ := p
  have hitems : ∀ {items : List Raw}, q ∈ placedItems (n + 1) items →
      ∃ above back' below, Trails back' ∧ n + above.length = q.above
        ∧ style.boxLines level front back '[' ']' items.isEmpty (style.itemsLines (level + 1) items)
          = above ++ (style.valueLines (level + 1) (style.margin (level + 1)) back' q.value
            ++ below) := by
    intro items hq
    obtain ⟨above, back', below, hback, habove, hlines⟩ :=
      style.lines_placedItems items (level + 1) (n + 1) hq
    have hne : items.isEmpty = false := by
      cases items with
      | nil => simp [placedItems] at hq
      | cons => rfl
    refine ⟨(front ++ ['[']) :: above, back', below ++ [style.margin level ++ ']' :: back],
      hback, ?_, ?_⟩
    · rw [List.length_cons]
      omega
    · rw [boxLines_inner _ _ _ _ _ _ _ hne, hlines]
      simp
  cases v with
  | list items =>
    obtain ⟨above, back', below, hback, habove, hlines⟩ := hitems h
    exact ⟨above, _, back', below, .item rfl, hback, habove, hlines⟩
  | tuple items =>
    obtain ⟨above, back', below, hback, habove, hlines⟩ := hitems h
    exact ⟨above, _, back', below, .item rfl, hback, habove, hlines⟩
  | map entries =>
    obtain ⟨⟨key, _⟩, hentry, rfl⟩ := List.mem_map.mp h
    obtain ⟨above, back', below, hback, habove, hlines⟩ :=
      style.lines_placedEntries entries (level + 1) (n + 1) hentry
    have hne : entries.isEmpty = false := by
      cases entries with
      | nil => simp [Placed.contents, placedEntries] at h
      | cons => rfl
    refine ⟨(front ++ ['\x7b']) :: above, _, back',
      below ++ [style.margin level ++ '\x7d' :: back], .member rfl hentry, hback, ?_, ?_⟩
    · simp only [List.length_cons]
      omega
    · rw [valueLines, boxLines_inner _ _ _ _ _ _ _ hne, hlines]
      simp
  | _ => simp [Placed.contents] at h

/-- The lines of the text at the place of the value are those of the value, which has only tokens
without brackets before it and behind it. -/
def StandsIn (text : List Char) (p : Placed) : Prop :=
  ∃ above level front back below, Inline front ∧ Inline back ∧ above.length = p.above
    ∧ Text.scanLines text = above ++ (style.valueLines level front back p.value ++ below)

theorem standsIn_contents {text : List Char} {p q : Placed} (h : style.StandsIn text p)
    (hq : q ∈ p.contents) : ∃ above level front back below, style.Front level p q front
      ∧ Trails back ∧ above.length = q.above
      ∧ Text.scanLines text = above ++ (style.valueLines level front back q.value ++ below) := by
  obtain ⟨above, level, front, back, below, -, -, habove, hlines⟩ := h
  obtain ⟨above', front', back', below', hfront, hback, habove', hlines'⟩ :=
    style.lines_contents level front back hq
  refine ⟨above ++ above', level + 1, front', back', below' ++ below, hfront, hback, ?_, ?_⟩
  · rw [List.length_append]
    omega
  · rw [hlines, hlines']
    simp

/-- Every part of a value stands at its place. -/
theorem standsIn_within {v : Raw} {q : Placed} (h : Placed.Within ⟨0, v⟩ q) :
    style.StandsIn (style.text v) q := by
  induction h with
  | self =>
    have hlines := style.scanLines_value v 0 [] inline_nil inline_nil
    refine ⟨[], 0, [], [], [], inline_nil, inline_nil, rfl, ?_⟩
    rw [scanLines_text]
    exact hlines
  | inside _ hr ih =>
    obtain ⟨above, level, front, back, below, hfront, hback, habove, hlines⟩ :=
      style.standsIn_contents ih hr
    exact ⟨above, level, front, back, below, hfront.inline, hback.inline, habove, hlines⟩

/-- The text of a map with an entry has more than one line. -/
theorem length_scanLines_map {entries : List (String × Raw)} (h : entries ≠ []) :
    1 < (Text.scanLines (style.text (.map entries))).length := by
  have hlines := style.scanLines_value (.map entries) 0 [] inline_nil inline_nil
  have htext : Text.scanLines (style.text (.map entries))
      = style.valueLines 0 [] [] (.map entries) ++ Text.scanLines [] := by
    rw [scanLines_text]
    exact hlines
  have hempty : entries.isEmpty = false := by simpa using h
  rw [htext, List.length_append, length_valueLines, Raw.height, boxHeight, hempty,
    if_neg Bool.false_ne_true]
  omega

end Lines

section Text

theorem flatMap_boxLines (level : Nat) (front back : List Char) (o c : Char) (isEmpty : Bool)
    {inner : List (List Char)} {t : List Char} (hinner : inner.flatMap (· ++ ['\n']) = t) :
    (style.boxLines level front back o c isEmpty inner).flatMap (· ++ ['\n'])
      = front ++ (style.bracketed level o c isEmpty t ++ (back ++ ['\n'])) := by
  unfold boxLines bracketed
  cases isEmpty <;> simp [← hinner]

mutual

/-- The lines of a value, each with its newline, are its text. -/
theorem flatMap_valueLines : ∀ (v : Raw) (level : Nat) (front back : List Char),
    (style.valueLines level front back v).flatMap (· ++ ['\n'])
      = front ++ (style.valueText level v ++ (back ++ ['\n']))
  | .list items, level, front, back =>
    style.flatMap_boxLines level front back _ _ _ (flatMap_itemsLines items (level + 1))
  | .tuple items, level, front, back =>
    style.flatMap_boxLines level front back _ _ _ (flatMap_itemsLines items (level + 1))
  | .map entries, level, front, back =>
    style.flatMap_boxLines level front back _ _ _ (flatMap_membersLines entries (level + 1))
  | .null, _, _, _ => by simp [valueLines, valueText]
  | .bool _, _, _, _ => by simp [valueLines, valueText]
  | .int _, _, _, _ => by simp [valueLines, valueText]
  | .float _, _, _, _ => by simp [valueLines, valueText]
  | .text _, _, _, _ => by simp [valueLines, valueText]
  | .other _, _, _, _ => by simp [valueLines, valueText]

theorem flatMap_itemsLines : ∀ (items : List Raw) (level : Nat),
    (style.itemsLines level items).flatMap (· ++ ['\n']) = style.itemsText level items
  | [], _ => rfl
  | item :: items, level => by
    rw [itemsLines, List.flatMap_append, flatMap_valueLines item, flatMap_itemsLines items,
      itemsText]
    simp

theorem flatMap_membersLines : ∀ (entries : List (String × Raw)) (level : Nat),
    (style.membersLines level entries).flatMap (· ++ ['\n']) = style.membersText level entries
  | [], _ => rfl
  | (key, value) :: entries, level => by
    rw [membersLines, List.flatMap_append, flatMap_valueLines value, flatMap_membersLines entries,
      membersText]
    simp

end

/-- The source of a part is its text with what stands before and behind it on its lines. -/
theorem source_of_contents {text : List Char} {p q : Placed} (h : style.StandsIn text p)
    (hq : q ∈ p.contents) : ∃ level front back, style.Front level p q front ∧ Trails back
      ∧ (q.span text).source
        = String.ofList (front ++ (style.valueText level q.value ++ (back ++ ['\n']))) := by
  obtain ⟨above, level, front, back, below, hfront, hback, habove, hlines⟩ :=
    style.standsIn_contents h hq
  refine ⟨level, front, back, hfront, hback, ?_⟩
  have hcovered : ((Text.scanLines text).take (q.above + q.value.height)).drop q.above
      = style.valueLines level front back q.value := by
    rw [hlines, ← habove, ← style.length_valueLines q.value level front back, List.take_append,
      List.drop_append]
    simp
  rw [Placed.span, Span.ofLines, Text.linesText, Nat.add_sub_cancel, hcovered, flatMap_valueLines]

end Text

end Json.Indent

end TerraIndex
