import TerraIndex.Source.Span
import TerraIndex.Text.Blank
import TerraIndex.Text.Lines
import Mathlib.Tactic.Common
/-!
# Lines of a text put together from parts

`splitNewlines (a ++ b)` is the lines of `a`, where the last of them goes on with the first line of
`b`, and the further lines of `b` (`splitNewlines_append`). `dropReturns` drops the carriage
returns at the end of every line of a text; it acts on two parts one by one as long as the first
does not end in a carriage return (`dropReturns_append`).
-/

namespace TerraIndex.Text

/-- What stands in front of the first occurrence of something. -/
theorem first_unique {α : Type} {x : α} : ∀ {front front' rest rest' : List α}, x ∉ front →
    x ∉ front' → front ++ x :: rest = front' ++ x :: rest' → front = front' ∧ rest = rest'
  | [], [], _, _, _, _, h => ⟨rfl, (List.cons.inj h).2⟩
  | [], y :: front', _, _, _, hfront', h =>
    absurd (List.mem_cons.mpr (.inl (List.cons.inj h).1)) hfront'
  | y :: front, [], _, _, hfront, _, h =>
    absurd (List.mem_cons.mpr (.inl (List.cons.inj h).1.symm)) hfront
  | y :: front, z :: front', _, _, hfront, hfront', h => by
    obtain ⟨hhead, htail⟩ := List.cons.inj h
    obtain ⟨hfront, hrest⟩ := first_unique (fun hmem => hfront (.tail _ hmem))
      (fun hmem => hfront' (.tail _ hmem)) htail
    exact ⟨by rw [hhead, hfront], hrest⟩

section Cutting

def firstLine (cs : List Char) : List Char := (splitNewlines cs).headD []

/-- The lines below the first one. -/
def linesBelow (cs : List Char) : List (List Char) := (splitNewlines cs).tail

/-- The lines above the last one. -/
def linesAbove (cs : List Char) : List (List Char) := (splitNewlines cs).dropLast

def lastLine (cs : List Char) : List Char := (splitNewlines cs).getLastD []

theorem splitNewlines_ne_nil : ∀ cs : List Char, splitNewlines cs ≠ []
  | [] => by simp [splitNewlines]
  | c :: cs => by
    unfold splitNewlines
    split_ifs
    · simp
    · split <;> simp

theorem splitNewlines_eq_cons (cs : List Char) :
    splitNewlines cs = firstLine cs :: linesBelow cs := by
  unfold firstLine linesBelow
  cases h : splitNewlines cs with
  | nil => exact absurd h (splitNewlines_ne_nil cs)
  | cons line lines => rfl

theorem splitNewlines_eq_append (cs : List Char) :
    splitNewlines cs = linesAbove cs ++ [lastLine cs] := by
  unfold linesAbove lastLine
  rw [List.getLastD_eq_getLast?, List.getLast?_eq_some_getLast (splitNewlines_ne_nil cs)]
  exact (List.dropLast_concat_getLast (splitNewlines_ne_nil cs)).symm

@[simp]
theorem splitNewlines_newline (cs : List Char) :
    splitNewlines ('\n' :: cs) = [] :: splitNewlines cs := by
  simp [splitNewlines]

theorem splitNewlines_cons {c : Char} (cs : List Char) (hc : c ≠ '\n') :
    splitNewlines (c :: cs) = (c :: firstLine cs) :: linesBelow cs := by
  rw [splitNewlines, if_neg hc, splitNewlines_eq_cons]

@[simp]
theorem firstLine_newline (cs : List Char) : firstLine ('\n' :: cs) = [] := by
  simp [firstLine]

@[simp]
theorem linesBelow_newline (cs : List Char) : linesBelow ('\n' :: cs) = splitNewlines cs := by
  simp [linesBelow]

theorem splitNewlines_append_of_eq (b : List Char) : ∀ {a : List Char} {above : List (List Char)}
    {last : List Char}, splitNewlines a = above ++ [last] →
      splitNewlines (a ++ b) = above ++ (last ++ firstLine b) :: linesBelow b
  | [], above, last, h => by
    rw [splitNewlines] at h
    cases above with
    | nil =>
      rw [← List.cons.inj h |>.1]
      exact splitNewlines_eq_cons b
    | cons line lines => simp at h
  | c :: a, above, last, h => by
    by_cases hc : c = '\n'
    · subst hc
      rw [splitNewlines_newline] at h
      cases above with
      | nil => simp [splitNewlines_ne_nil] at h
      | cons line lines =>
        rw [List.cons_append] at h
        obtain ⟨rfl, hlines⟩ := List.cons.inj h
        rw [List.cons_append, splitNewlines_newline, splitNewlines_append_of_eq b hlines]
        rfl
    · rw [splitNewlines_cons _ hc] at h
      cases above with
      | nil =>
        obtain ⟨rfl, hbelow⟩ := List.cons.inj h
        have ih : splitNewlines (a ++ b) = [] ++ (firstLine a ++ firstLine b) :: linesBelow b :=
          splitNewlines_append_of_eq b (by rw [splitNewlines_eq_cons, hbelow, List.nil_append])
        rw [List.cons_append, splitNewlines, if_neg hc, ih]
        rfl
      | cons line lines =>
        rw [List.cons_append] at h
        obtain ⟨rfl, hbelow⟩ := List.cons.inj h
        have ih := splitNewlines_append_of_eq b
          (show splitNewlines a = (firstLine a :: lines) ++ [last] by
            rw [splitNewlines_eq_cons, hbelow, List.cons_append])
        rw [List.cons_append, splitNewlines, if_neg hc, ih]
        rfl

theorem splitNewlines_append (a b : List Char) :
    splitNewlines (a ++ b) = linesAbove a ++ (lastLine a ++ firstLine b) :: linesBelow b :=
  splitNewlines_append_of_eq b (splitNewlines_eq_append a)

theorem splitNewlines_of_not_mem : ∀ {cs : List Char}, '\n' ∉ cs → splitNewlines cs = [cs]
  | [], _ => rfl
  | c :: cs, h => by
    rw [List.mem_cons, not_or] at h
    have ih := splitNewlines_of_not_mem h.2
    rw [splitNewlines, if_neg (Ne.symm h.1), ih]

theorem newline_notMem_line : ∀ (cs : List Char), ∀ line ∈ splitNewlines cs, '\n' ∉ line
  | [], line, h => by
    simp only [splitNewlines, List.mem_singleton] at h
    simp [h]
  | c :: cs, line, h => by
    by_cases hc : c = '\n'
    · subst hc
      rw [splitNewlines_newline, List.mem_cons] at h
      rcases h with rfl | h
      · simp
      · exact newline_notMem_line cs line h
    · have hcs : ∀ l ∈ firstLine cs :: linesBelow cs, '\n' ∉ l := fun l hl =>
        newline_notMem_line cs l (by rwa [splitNewlines_eq_cons])
      rw [splitNewlines_cons _ hc, List.mem_cons] at h
      rcases h with rfl | h
      · simp [Ne.symm hc, hcs _ (List.mem_cons_self ..)]
      · exact hcs _ (List.mem_cons_of_mem _ h)

end Cutting

section Parts

theorem firstLine_append {a : List Char} (b : List Char) (h : '\n' ∉ a) :
    firstLine (a ++ b) = a ++ firstLine b := by
  have hs : splitNewlines (a ++ b) = [] ++ (a ++ firstLine b) :: linesBelow b :=
    splitNewlines_append_of_eq b (splitNewlines_of_not_mem h)
  simp [firstLine, hs]

theorem linesBelow_append {a : List Char} (b : List Char) (h : '\n' ∉ a) :
    linesBelow (a ++ b) = linesBelow b := by
  have hs : splitNewlines (a ++ b) = [] ++ (a ++ firstLine b) :: linesBelow b :=
    splitNewlines_append_of_eq b (splitNewlines_of_not_mem h)
  simp [linesBelow, hs]

theorem firstLine_of_not_mem {a : List Char} (h : '\n' ∉ a) : firstLine a = a := by
  simp [firstLine, splitNewlines_of_not_mem h]

theorem linesBelow_of_not_mem {a : List Char} (h : '\n' ∉ a) : linesBelow a = [] := by
  simp [linesBelow, splitNewlines_of_not_mem h]

theorem linesAbove_of_not_mem {a : List Char} (h : '\n' ∉ a) : linesAbove a = [] := by
  simp [linesAbove, splitNewlines_of_not_mem h]

theorem lastLine_of_not_mem {a : List Char} (h : '\n' ∉ a) : lastLine a = a := by
  simp [lastLine, splitNewlines_of_not_mem h]

theorem newline_notMem_firstLine (cs : List Char) : '\n' ∉ firstLine cs :=
  newline_notMem_line cs _ (by simp [splitNewlines_eq_cons cs])

theorem newline_notMem_lastLine (cs : List Char) : '\n' ∉ lastLine cs :=
  newline_notMem_line cs _ (by simp [splitNewlines_eq_append cs])

theorem lastLine_append {b : List Char} (a : List Char) (h : '\n' ∉ b) :
    lastLine (a ++ b) = lastLine a ++ b := by
  rw [lastLine, splitNewlines_append, firstLine_of_not_mem h, linesBelow_of_not_mem h]
  simp [List.getLastD_eq_getLast?]

@[simp]
theorem lastLine_newline (a : List Char) : lastLine (a ++ ['\n']) = [] := by
  rw [lastLine, splitNewlines_append]
  simp [splitNewlines, List.getLastD_eq_getLast?]

theorem lastLine_below (a b : List Char) : lastLine (a ++ (b ++ ['\n'])) = [] := by
  rw [← List.append_assoc, lastLine_newline]

theorem length_splitNewlines : ∀ cs : List Char,
    (splitNewlines cs).length = cs.count '\n' + 1
  | [] => rfl
  | c :: cs => by
    have ih := length_splitNewlines cs
    by_cases hc : c = '\n'
    · subst hc
      rw [splitNewlines_newline, List.length_cons, ih, List.count_cons_self]
    · rw [splitNewlines_eq_cons, List.length_cons] at ih
      rw [splitNewlines_cons _ hc, List.length_cons, List.count_cons_of_ne hc, ih]

theorem length_linesAbove (cs : List Char) : (linesAbove cs).length = cs.count '\n' := by
  rw [linesAbove, List.length_dropLast, length_splitNewlines, Nat.add_sub_cancel]

theorem linesBelow_ne_nil {cs : List Char} (h : '\n' ∈ cs) : linesBelow cs ≠ [] := by
  intro hnil
  have hlen := length_splitNewlines cs
  rw [splitNewlines_eq_cons, hnil, List.length_singleton] at hlen
  have hpos := List.count_pos_iff.mpr h
  omega

theorem linesAbove_eq_cons {cs : List Char} (h : '\n' ∈ cs) :
    linesAbove cs = firstLine cs :: (linesBelow cs).dropLast := by
  rw [linesAbove, splitNewlines_eq_cons, List.dropLast_cons_of_ne_nil (linesBelow_ne_nil h)]

theorem linesBelow_eq_append {cs : List Char} (h : '\n' ∈ cs) :
    linesBelow cs = (linesBelow cs).dropLast ++ [lastLine cs] := by
  have hsplit := splitNewlines_eq_append cs
  rw [splitNewlines_eq_cons, linesAbove_eq_cons h] at hsplit
  exact (List.cons.inj hsplit).2

/-- A last line that begins in the second part is the last line of that part. -/
theorem lastLine_append_of_mem {b : List Char} (a : List Char) (h : '\n' ∈ b) :
    lastLine (a ++ b) = lastLine b := by
  rw [lastLine, splitNewlines_append, linesBelow_eq_append h, ← List.cons_append,
    ← List.append_assoc, List.getLastD_concat]

end Parts

theorem splitNewlines_append_of_not_mem {a : List Char} (b : List Char) (h : '\n' ∉ a) :
    splitNewlines (a ++ b) = (a ++ firstLine b) :: linesBelow b := by
  rw [splitNewlines_eq_cons, firstLine_append b h, linesBelow_append b h]

theorem take_above {α : Type} (above below : List α) (line : α) :
    (above ++ line :: below).take (above.length + 1) = above ++ [line] := by
  rw [List.append_cons]
  exact List.take_left' (by simp)

/-- The lines of `a ++ (b ++ c)` that `b` has a part in. -/
theorem splitNewlines_between (a b c : List Char) :
    ((splitNewlines (a ++ (b ++ c))).take ((a ++ b).count '\n' + 1)).drop (a.count '\n')
      = splitNewlines (lastLine a ++ (b ++ firstLine c)) := by
  have hfrom : (splitNewlines (a ++ (b ++ c))).drop (a.count '\n')
      = splitNewlines ((lastLine a ++ b) ++ c) := by
    rw [splitNewlines_append a (b ++ c), ← length_linesAbove, List.drop_left, List.append_assoc,
      splitNewlines_append_of_not_mem _ (newline_notMem_lastLine a)]
  have hcount : (a ++ b).count '\n' + 1 - a.count '\n' = (lastLine a ++ b).count '\n' + 1 := by
    rw [List.count_append, List.count_append,
      List.count_eq_zero_of_not_mem (newline_notMem_lastLine a)]
    omega
  rw [List.drop_take, hfrom, hcount, ← List.append_assoc, splitNewlines_append _ c,
    splitNewlines_append _ (firstLine c), firstLine_of_not_mem (newline_notMem_firstLine c),
    linesBelow_of_not_mem (newline_notMem_firstLine c), ← length_linesAbove, take_above]

section CarriageReturns

theorem dropCarriageReturns_append {c : Char} (a b : List Char) (hc : c ≠ '\r') :
    dropCarriageReturns (a ++ c :: b) = a ++ c :: dropCarriageReturns b := by
  unfold dropCarriageReturns
  rw [List.reverse_append, List.reverse_cons, List.append_assoc, List.dropWhile_append]
  split_ifs with h
  · simp [hc, List.isEmpty_iff.mp h]
  · simp

theorem dropCarriageReturns_cons (c : Char) (cs : List Char) :
    dropCarriageReturns (c :: cs)
      = if c = '\r' ∧ dropCarriageReturns cs = [] then [] else c :: dropCarriageReturns cs := by
  unfold dropCarriageReturns
  rw [List.reverse_cons, List.dropWhile_append]
  by_cases h : List.dropWhile (· == '\r') cs.reverse = []
  · by_cases hc : c = '\r' <;> simp [h, hc]
  · simp [h]

theorem take_dropFinalEmpty {line : List Char} (above below : List (List Char))
    (h : line ≠ []) :
    (dropFinalEmpty (above ++ line :: below)).take (above.length + 1)
      = (above ++ line :: below).take (above.length + 1) := by
  unfold dropFinalEmpty
  split
  · rename_i hlast
    cases below with
    | nil => simp [h] at hlast
    | cons next lines =>
      rw [List.dropLast_append_cons, List.dropLast_cons_cons, take_above, take_above]
  · rfl

/-- The scanned lines that `b` has a part in, when the line that `b` ends in is not empty. -/
theorem scanLines_between (a b c : List Char) (h : lastLine (a ++ b) ++ firstLine c ≠ []) :
    ((scanLines (a ++ (b ++ c))).take ((a ++ b).count '\n' + 1)).drop (a.count '\n')
      = (splitNewlines (lastLine a ++ (b ++ firstLine c))).map dropCarriageReturns := by
  have htake := take_dropFinalEmpty (linesAbove (a ++ b)) (linesBelow c) h
  rw [← splitNewlines_append, length_linesAbove, List.append_assoc] at htake
  rw [scanLines, ← List.map_take, ← List.map_drop, htake, splitNewlines_between]

theorem dropCarriageReturns_of_not_mem {line : List Char} (h : '\r' ∉ line) :
    dropCarriageReturns line = line := by
  induction line with
  | nil => rfl
  | cons c line ih =>
    rw [List.mem_cons, not_or] at h
    rw [dropCarriageReturns_cons, if_neg (fun hc => h.1 hc.1.symm), ih h.2]

theorem dropFinalEmpty_cons {lines : List (List Char)} (line : List Char) (h : lines ≠ []) :
    dropFinalEmpty (line :: lines) = line :: dropFinalEmpty lines := by
  obtain ⟨next, more, rfl⟩ := List.exists_cons_of_ne_nil h
  unfold dropFinalEmpty
  rw [List.getLast?_cons_cons, List.dropLast_cons_cons]
  split <;> rfl

/-- The scanned lines of a text that begins with a whole line. -/
theorem scanLines_cons {line : List Char} (rest : List Char) (hn : '\n' ∉ line)
    (hr : '\r' ∉ line) : scanLines (line ++ '\n' :: rest) = line :: scanLines rest := by
  unfold scanLines
  rw [splitNewlines_append_of_not_mem _ hn, firstLine_newline, linesBelow_newline,
    List.append_nil, dropFinalEmpty_cons _ (splitNewlines_ne_nil rest), List.map_cons,
    dropCarriageReturns_of_not_mem hr]

/-- A newline behind a last line that is not empty opens no further line. -/
theorem scanLines_newline {text : List Char} (h : lastLine text ≠ []) :
    scanLines (text ++ ['\n']) = scanLines text := by
  have hsplit : splitNewlines (text ++ ['\n']) = splitNewlines text ++ [[]] := by
    rw [splitNewlines_append, firstLine_newline, linesBelow_newline, List.append_nil,
      splitNewlines_eq_append text]
    simp [splitNewlines]
  have hkeep : dropFinalEmpty (splitNewlines text) = splitNewlines text := by
    unfold dropFinalEmpty
    rw [splitNewlines_eq_append, List.getLast?_concat]
    split
    · rename_i heq
      exact absurd (Option.some.inj heq) h
    · rfl
  rw [scanLines, scanLines, hsplit, hkeep, dropFinalEmpty, List.getLast?_concat,
    List.dropLast_concat]

/-- The text without the carriage returns that a newline or the end of the text follows. -/
def dropReturns : List Char → List Char
  | [] => []
  | c :: cs =>
    let left := dropReturns cs
    if c = '\r' ∧ (left = [] ∨ left.head? = some '\n') then left else c :: left

theorem dropReturns_cons {c : Char} (cs : List Char) (hc : c ≠ '\r') :
    dropReturns (c :: cs) = c :: dropReturns cs := by
  simp [dropReturns, hc]

theorem joinNewlines_cons_cons (line next : List Char) (lines : List (List Char)) :
    joinNewlines (line :: next :: lines) = line ++ '\n' :: joinNewlines (next :: lines) := by
  simp [joinNewlines]

theorem joinNewlines_cons_append (a line : List Char) (lines : List (List Char)) :
    joinNewlines ((a ++ line) :: lines) = a ++ joinNewlines (line :: lines) := by
  cases lines with
  | nil => rfl
  | cons next lines => rw [joinNewlines_cons_cons, joinNewlines_cons_cons, List.append_assoc]

/-- Dropping the carriage returns line by line. -/
theorem dropReturns_eq : ∀ cs : List Char,
    dropReturns cs = joinNewlines ((splitNewlines cs).map dropCarriageReturns)
  | [] => rfl
  | c :: cs => by
    have ih := dropReturns_eq cs
    rw [splitNewlines_eq_cons, List.map_cons] at ih
    by_cases hn : c = '\n'
    · subst hn
      rw [splitNewlines_newline, splitNewlines_eq_cons, dropReturns_cons _ (by decide), ih]
      rfl
    · have hmem : '\n' ∉ dropCarriageReturns (firstLine cs) := fun h =>
        newline_notMem_firstLine cs
          (List.mem_reverse.mp ((List.dropWhile_sublist _).subset (List.mem_reverse.mp h)))
      rw [splitNewlines_cons _ hn, List.map_cons, dropCarriageReturns_cons]
      by_cases hl : dropCarriageReturns (firstLine cs) = []
      · rw [hl] at ih ⊢
        have hleft : dropReturns cs = [] ∨ (dropReturns cs).head? = some '\n' := by
          rw [ih]
          cases linesBelow cs with
          | nil => exact .inl rfl
          | cons next lines => exact .inr rfl
        by_cases hc : c = '\r'
        · rw [if_pos ⟨hc, rfl⟩, dropReturns, if_pos ⟨hc, hleft⟩, ih]
        · rw [dropReturns_cons _ hc, if_neg (by simp [hc]), ih]
          exact (joinNewlines_cons_append [c] [] _).symm
      · obtain ⟨d, ds, hd⟩ := List.exists_cons_of_ne_nil hl
        have hdn : d ≠ '\n' := by
          rintro rfl
          simp [hd] at hmem
        have hleft : ¬ (dropReturns cs = [] ∨ (dropReturns cs).head? = some '\n') := by
          rw [ih, hd]
          have := joinNewlines_cons_append [d] ds ((linesBelow cs).map dropCarriageReturns)
          simp only [List.cons_append, List.nil_append] at this
          simp [this, hdn]
        rw [if_neg (by simp [hl])]
        rw [dropReturns, if_neg fun h => hleft h.2, ih]
        exact (joinNewlines_cons_append [c] _ _).symm

theorem dropReturns_eq_nil {t : List Char} :
    t.getLast? ≠ some '\r' → dropReturns t = [] → t = [] := by
  induction t with
  | nil => exact fun _ _ => rfl
  | cons c cs ih =>
    intro hlast h
    exfalso
    cases cs with
    | nil =>
      have hc : c ≠ '\r' := by simpa using hlast
      rw [dropReturns_cons _ hc] at h
      simp at h
    | cons d ds =>
      rw [List.getLast?_cons_cons] at hlast
      have hne : dropReturns (d :: ds) ≠ [] := fun h' => List.cons_ne_nil _ _ (ih hlast h')
      rw [dropReturns] at h
      split_ifs at h
      exact hne h

theorem dropReturns_append {t : List Char} (u : List Char) (h : t.getLast? ≠ some '\r') :
    dropReturns (t ++ u) = dropReturns t ++ dropReturns u := by
  induction t with
  | nil => rfl
  | cons c cs ih =>
    cases cs with
    | nil =>
      have hc : c ≠ '\r' := by simpa using h
      rw [List.cons_append, dropReturns_cons _ hc, dropReturns_cons _ hc]
      rfl
    | cons d ds =>
      rw [List.getLast?_cons_cons] at h
      have hne : dropReturns (d :: ds) ≠ [] := fun h' =>
        List.cons_ne_nil _ _ (dropReturns_eq_nil h h')
      obtain ⟨e, es, he⟩ := List.exists_cons_of_ne_nil hne
      rw [List.cons_append, dropReturns, dropReturns, ih h, he]
      by_cases hc : c = '\r' ∧ e = '\n' <;> simp [hc]

theorem dropReturns_of_not_mem {t : List Char} (h : '\r' ∉ t) : dropReturns t = t := by
  induction t with
  | nil => rfl
  | cons c cs ih =>
    rw [List.mem_cons, not_or] at h
    rw [dropReturns_cons _ (Ne.symm h.1), ih h.2]

end CarriageReturns

/-- Lines, each ended by a newline. -/
def endLines (lines : List (List Char)) : List Char := lines.flatMap (· ++ ['\n'])

@[simp] theorem endLines_append (lines more : List (List Char)) :
    endLines (lines ++ more) = endLines lines ++ endLines more := List.flatMap_append

@[simp] theorem endLines_cons (line : List Char) (lines : List (List Char)) :
    endLines (line :: lines) = line ++ '\n' :: endLines lines := by simp [endLines]

theorem endLines_splitNewlines : ∀ cs : List Char, endLines (splitNewlines cs) = cs ++ ['\n']
  | [] => rfl
  | c :: cs => by
    by_cases hc : c = '\n'
    · subst hc
      rw [splitNewlines_newline, endLines_cons, endLines_splitNewlines cs]
      rfl
    · have ih := endLines_splitNewlines cs
      rw [splitNewlines_eq_cons cs, endLines_cons] at ih
      rw [splitNewlines_cons cs hc, endLines_cons, List.cons_append, ih]
      rfl

theorem joinNewlines_newline : ∀ {lines : List (List Char)}, lines ≠ [] →
    joinNewlines lines ++ ['\n'] = endLines lines
  | [line], _ => by simp [joinNewlines, endLines]
  | line :: next :: lines, _ => by
    rw [joinNewlines_cons_cons, List.append_assoc, List.cons_append,
      joinNewlines_newline (List.cons_ne_nil next lines), endLines_cons line]

theorem count_endLines : ∀ {lines : List (List Char)}, (∀ line ∈ lines, '\n' ∉ line) →
    (endLines lines).count '\n' = lines.length
  | [], _ => rfl
  | line :: lines, h => by
    obtain ⟨hline, hlines⟩ := List.forall_mem_cons.mp h
    rw [endLines_cons, List.count_append, List.count_eq_zero_of_not_mem hline,
      List.count_cons_self, count_endLines hlines, Nat.zero_add, List.length_cons]

theorem getLast?_endLines {lines : List (List Char)} (h : lines ≠ []) :
    (endLines lines).getLast? = some '\n' := by
  rw [← joinNewlines_newline h, List.getLast?_concat]

end TerraIndex.Text

namespace TerraIndex

/-- The lines of a text with the given numbers. -/
def Span.ofLines (text : List Char) (first last : Nat) : Span :=
  ⟨first, last, String.ofList (Text.linesText (Text.scanLines text) first last)⟩

end TerraIndex
