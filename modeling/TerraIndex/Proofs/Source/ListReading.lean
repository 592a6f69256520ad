import TerraIndex.Source.ResourceList
import TerraIndex.Proofs.Source.Brackets
/-!
# Reading a resource list from any place

`readOn` is what the scan of a resource list finds from a place between two tokens on. It passes
over white space, over quiet texts and, inside an element, over balanced ones
(`readOn_balanced`); a box directly in the list is an element, which is decoded from the lines it
spans and taken or left behind (`readOn_element`).
-/

namespace TerraIndex

open Json
open Text (firstLine lastLine linesAbove linesBelow splitNewlines scanLines joinNewlines
  dropCarriageReturns dropReturns)

/-- The place behind a text. -/
def Place.after (front : List Char) : Place := ⟨front.count '\n' + 1, (lastLine front).length⟩

theorem Place.after_append {t : List Char} (front : List Char) (h : '\n' ∉ t) :
    Place.after (front ++ t)
      = ⟨(Place.after front).line, (Place.after front).column + t.length⟩ := by
  simp [Place.after, Text.lastLine_append front h, List.count_eq_zero_of_not_mem h]

theorem Place.after_newline (front : List Char) :
    Place.after (front ++ ['\n']) = ⟨(Place.after front).line + 1, 0⟩ := by
  simp [Place.after]

theorem textBetween_one {lines : List (List Char)} {line : List Char} {k n column column' : Nat}
    (h : (lines.take n).drop k = [line]) :
    textBetween lines ⟨k + 1, column⟩ ⟨n, column'⟩ = (line.take (column' + 1)).drop column := by
  simp only [textBetween, Nat.add_sub_cancel, h]

theorem textBetween_more {lines between : List (List Char)} {line final : List Char}
    {k n column column' : Nat} (h : (lines.take n).drop k = line :: (between ++ [final])) :
    textBetween lines ⟨k + 1, column⟩ ⟨n, column'⟩
      = joinNewlines (line.drop column :: (between ++ [final.take (column' + 1)])) := by
  simp only [textBetween, Nat.add_sub_cancel, h]
  cases hb : between ++ [final] with
  | nil => simp at hb
  | cons next more =>
    simp only []
    rw [← hb]
    simp

theorem splitNewlines_append_char (t : List Char) {c : Char} {rest : List Char} (hn : c ≠ '\n')
    (hrest : '\n' ∉ rest) :
    splitNewlines (t ++ c :: rest) = linesAbove t ++ [lastLine t ++ c :: rest] := by
  have hmem : '\n' ∉ c :: rest := by simp [Ne.symm hn, hrest]
  rw [Text.splitNewlines_append, Text.firstLine_of_not_mem hmem, Text.linesBelow_of_not_mem hmem]

theorem dropReturns_append_char (t : List Char) {c : Char} (hn : c ≠ '\n') (hr : c ≠ '\r') :
    dropReturns (t ++ [c])
      = joinNewlines ((linesAbove t).map dropCarriageReturns ++ [lastLine t ++ [c]]) := by
  rw [Text.dropReturns_eq, splitNewlines_append_char t hn (by simp), List.map_append,
    List.map_singleton, Text.dropCarriageReturns_append _ _ hr]
  rfl

theorem take_append_char (t : List Char) (c : Char) (rest : List Char) :
    (t ++ c :: rest).take (t.length + 1) = t ++ [c] := Text.take_above t rest c

theorem textBetween_line (front rest : List Char) {t : List Char} {c : Char} (ht : '\n' ∉ t)
    (hn : c ≠ '\n') (hr : c ≠ '\r') :
    textBetween (scanLines (front ++ (t ++ c :: rest))) (Place.after front)
      (Place.after (front ++ t)) = t ++ [c] := by
  have hfirst : firstLine (c :: rest) = c :: firstLine rest :=
    Text.firstLine_append (a := [c]) rest (by simpa using Ne.symm hn)
  have hcovered := Text.scanLines_between front t (c :: rest) (by simp [hfirst])
  have hmem : '\n' ∉ lastLine front ++ (t ++ c :: firstLine rest) := by
    simp [Text.newline_notMem_lastLine, ht, Ne.symm hn, Text.newline_notMem_firstLine]
  have hreturns : dropCarriageReturns (lastLine front ++ (t ++ c :: firstLine rest))
      = lastLine front ++ t ++ c :: dropCarriageReturns (firstLine rest) := by
    rw [← List.append_assoc, Text.dropCarriageReturns_append _ _ hr]
  rw [hfirst, Text.splitNewlines_of_not_mem hmem, List.map_singleton, hreturns] at hcovered
  simp only [Place.after]
  rw [textBetween_one hcovered, Text.lastLine_append front ht, take_append_char,
    List.append_assoc, List.drop_left]

theorem textBetween_lines (front rest : List Char) {t line : List Char} {o c : Char}
    (ht : '\n' ∈ t) (hfl : firstLine t = o :: line) (hr : o ≠ '\r') (hn : c ≠ '\n')
    (hr' : c ≠ '\r') :
    textBetween (scanLines (front ++ (t ++ c :: rest))) (Place.after front)
      (Place.after (front ++ t))
      = joinNewlines ((linesAbove t).map dropCarriageReturns ++ [lastLine t ++ [c]]) := by
  have hfirst : firstLine (c :: rest) = c :: firstLine rest :=
    Text.firstLine_append (a := [c]) rest (by simpa using Ne.symm hn)
  have hcovered := Text.scanLines_between front t (c :: rest) (by simp [hfirst])
  -- the element begins in the line of `front` and ends in a line of its own
  have hsplit : splitNewlines (lastLine front ++ (t ++ c :: firstLine rest))
      = (lastLine front ++ o :: line)
        :: ((linesBelow t).dropLast ++ [lastLine t ++ c :: firstLine rest]) := by
    have hwhole := splitNewlines_append_char t hn (Text.newline_notMem_firstLine rest)
    rw [Text.linesAbove_eq_cons ht, hfl, Text.splitNewlines_eq_cons, List.cons_append] at hwhole
    obtain ⟨hone, hbelow⟩ := List.cons.inj hwhole
    rw [Text.splitNewlines_append_of_not_mem _ (Text.newline_notMem_lastLine front), hone, hbelow]
  rw [hfirst, hsplit, List.map_cons, List.map_append, List.map_singleton,
    Text.dropCarriageReturns_append _ _ hr, Text.dropCarriageReturns_append _ _ hr'] at hcovered
  simp only [Place.after]
  rw [textBetween_more hcovered, Text.linesAbove_eq_cons ht, hfl, List.drop_left,
    Text.lastLine_append_of_mem front ht, take_append_char, List.map_cons,
    ← List.nil_append (o :: line), Text.dropCarriageReturns_append _ _ hr]
  rfl

/-- The scanned lines of a text hold every element of it, less the carriage returns at the ends
of its lines. -/
theorem textBetween_element (front m rest : List Char) {o c : Char} (hn : o ≠ '\n')
    (hr : o ≠ '\r') (hn' : c ≠ '\n') (hr' : c ≠ '\r') :
    textBetween (scanLines (front ++ (o :: m ++ c :: rest))) (Place.after front)
      (Place.after (front ++ o :: m)) = dropReturns (o :: m ++ [c]) := by
  rw [dropReturns_append_char _ hn' hr']
  by_cases ht : '\n' ∈ o :: m
  · have hfl : firstLine (o :: m) = o :: firstLine m :=
      Text.firstLine_append (a := [o]) m (by simpa using Ne.symm hn)
    exact textBetween_lines front rest ht hfl hr hn' hr'
  · rw [textBetween_line front rest ht hn' hr', Text.linesAbove_of_not_mem ht,
      Text.lastLine_of_not_mem ht]
    rfl

namespace ResourceList

variable (list : ResourceList) (lines : List (List Char))

/-- What the scan finds behind `front`, which ends outside strings at a bracket depth in a list. -/
def readOn (depth : Nat) (start : Option Place) (front cs : List Char) : Option (Nat × Nat) :=
  match list.scanBrackets lines (Place.after front).line depth start
      (bracketsFrom (Place.after front).column .outside (firstLine cs)) with
  | .found first => some (first, (Place.after front).line)
  | .state next => list.scan lines next ((Place.after front).line + 1) (linesBelow cs)

section Step

theorem readOn_quiet {q : List Char} (depth : Nat) (start : Option Place) (front cs : List Char)
    (hq : Quiet q) :
    list.readOn lines depth start front (q ++ cs)
      = list.readOn lines depth start (front ++ q) cs := by
  unfold readOn
  rw [Text.firstLine_append _ hq.1, Text.linesBelow_append _ hq.1, hq.2,
    Place.after_append _ hq.1]

theorem readOn_newline (depth : Nat) (start : Option Place) (front cs : List Char) :
    list.readOn lines depth start front ('\n' :: cs)
      = list.readOn lines depth start (front ++ ['\n']) cs := by
  unfold readOn
  rw [Text.firstLine_newline, Text.linesBelow_newline, Place.after_newline,
    Text.splitNewlines_eq_cons]
  rfl

theorem bracketsFrom_bracket {c : Char} (column : Nat) (cs : List Char)
    (hc : (isOpening c || isClosing c) = true) :
    bracketsFrom column .outside (c :: cs)
      = (column, c) :: bracketsFrom (column + 1) .outside cs := by
  have hq : c ≠ '"' := by
    rintro rfl
    revert hc
    decide
  rw [bracketsFrom, if_neg hq, if_pos hc]

theorem bracket_ne_newline {c : Char} (hc : (isOpening c || isClosing c) = true) : c ≠ '\n' := by
  rintro rfl
  revert hc
  decide

theorem newline_notMem_bracket {c : Char} (hc : (isOpening c || isClosing c) = true) :
    '\n' ∉ [c] := by
  simpa using Ne.symm (bracket_ne_newline hc)

/-- The progress made at one bracket. -/
theorem readOn_bracket {c : Char} (depth : Nat) (start : Option Place) (front cs : List Char)
    (hc : (isOpening c || isClosing c) = true) :
    list.readOn lines depth start front (c :: cs)
      = match list.scanBrackets lines (Place.after front).line depth start
          (((Place.after front).column, c) :: bracketsFrom (Place.after (front ++ [c])).column
            .outside (firstLine cs)) with
        | .found first => some (first, (Place.after front).line)
        | .state next => list.scan lines next ((Place.after front).line + 1) (linesBelow cs) := by
  have hn := newline_notMem_bracket hc
  unfold readOn
  rw [← List.singleton_append, Text.firstLine_append cs hn, Text.linesBelow_append cs hn,
    List.singleton_append, bracketsFrom_bracket _ _ hc, Place.after_append front hn]
  rfl

theorem scanBrackets_opening {c : Char} (line column depth : Nat) (start : Option Place)
    (rest : List (Nat × Char)) (hc : isOpening c = true) :
    list.scanBrackets lines line depth start ((column, c) :: rest)
      = list.scanBrackets lines line (depth + 1)
          (if depth = 1 then some ⟨line, column⟩ else start) rest := by
  cases start <;> rw [scanBrackets, if_pos hc]

theorem readOn_opening {c : Char} (depth : Nat) (start : Option Place) (front cs : List Char)
    (hc : isOpening c = true) :
    list.readOn lines depth start front (c :: cs)
      = list.readOn lines (depth + 1) (if depth = 1 then some (Place.after front) else start)
          (front ++ [c]) cs := by
  have hb : (isOpening c || isClosing c) = true := by simp [hc]
  have hplace := Place.after_append front (newline_notMem_bracket hb)
  rw [readOn_bracket _ _ _ _ _ _ hb, scanBrackets_opening _ _ _ _ _ _ _ hc, readOn, hplace]

theorem isOpening_of_isClosing {c : Char} (hc : isClosing c = true) : isOpening c = false := by
  simp only [isClosing, Bool.or_eq_true, beq_iff_eq] at hc
  rcases hc with rfl | rfl <;> decide

/-- Inside an element, a closing bracket leads one step up. -/
theorem readOn_closing {c : Char} {depth : Nat} (start : Option Place) (front cs : List Char)
    (hc : isClosing c = true) (hd : 2 ≤ depth) :
    list.readOn lines (depth + 1) start front (c :: cs)
      = list.readOn lines depth start (front ++ [c]) cs := by
  have hb : (isOpening c || isClosing c) = true := by simp [hc]
  have hplace := Place.after_append front (newline_notMem_bracket hb)
  rw [readOn_bracket _ _ _ _ _ _ hb, readOn, hplace]
  cases start with
  | none => simp [scanBrackets, isOpening_of_isClosing hc, show ¬ depth = 0 by omega]
  | some first =>
    simp [scanBrackets, isOpening_of_isClosing hc, show ¬ depth = 0 by omega,
      show ¬ depth = 1 by omega]

/-- The bracket that closes an element decides on it. -/
theorem readOn_closing_element {c : Char} (first : Place) (front cs : List Char)
    (hc : isClosing c = true) :
    list.readOn lines 2 (some first) front (c :: cs)
      = if list.accepts lines first (Place.after front) then
          some (first.line, (Place.after front).line)
        else list.readOn lines 1 none (front ++ [c]) cs := by
  have hb : (isOpening c || isClosing c) = true := by simp [hc]
  have hplace := Place.after_append front (newline_notMem_bracket hb)
  rw [readOn_bracket _ _ _ _ _ _ hb, readOn, hplace]
  simp only [scanBrackets, isOpening_of_isClosing hc, Bool.false_eq_true, if_false, if_true]
  by_cases ha : list.accepts lines first (Place.after front) = true
  · rw [if_pos ha]
    simp only [show list.accepts lines first ⟨(Place.after front).line,
      (Place.after front).column⟩ = true from ha, if_true]
  · rw [if_neg ha]
    simp only [show list.accepts lines first ⟨(Place.after front).line,
      (Place.after front).column⟩ = false by simpa using ha, Bool.false_eq_true, if_false]

/-- Behind the bracket that closes the list, the search goes on in the next line. -/
theorem readOn_closing_list {c : Char} (front cs : List Char) (hc : isClosing c = true) :
    list.readOn lines 1 none front (c :: cs)
      = list.scan lines .searching ((Place.after front).line + 1) (linesBelow cs) := by
  rw [readOn_bracket _ _ _ _ _ _ (by simp [hc]), scanBrackets, isOpening_of_isClosing hc]
  rfl

end Step

section TokensAndValues

theorem readOn_blanks {w : List Char} (depth : Nat) (start : Option Place) (front cs : List Char)
    (hw : Blanks w) :
    list.readOn lines depth start front (w ++ cs)
      = list.readOn lines depth start (front ++ w) cs := by
  induction w generalizing front with
  | nil => simp
  | cons c w ih =>
    obtain ⟨hc, hcs⟩ := List.forall_mem_cons.mp hw
    by_cases hn : c = '\n'
    · subst hn
      rw [List.cons_append, readOn_newline, ih _ hcs, List.append_assoc, List.singleton_append]
    · have hq : Quiet [c] := by
        simp only [Json.isBlank, Bool.or_eq_true, beq_iff_eq, hn, or_false] at hc
        rcases hc with (rfl | rfl) | rfl <;> exact quiet_char (by decide)
      rw [List.cons_append, ← List.singleton_append, readOn_quiet _ _ _ _ _ _ hq, ih _ hcs,
        List.append_assoc, List.singleton_append]

theorem readOn_balanced {t : List Char} {depth : Nat} (start : Option Place)
    (front cs : List Char) (ht : Balanced t) (hd : 2 ≤ depth) :
    list.readOn lines depth start front (t ++ cs)
      = list.readOn lines depth start (front ++ t) cs := by
  induction ht generalizing depth front cs with
  | nil => simp
  | newline _ ih =>
    rw [List.cons_append, readOn_newline, ih _ _ hd, List.append_assoc, List.singleton_append]
  | quiet hq _ ih =>
    rw [List.append_assoc, readOn_quiet _ _ _ _ _ _ hq, ih _ _ hd, List.append_assoc]
  | box ho hc _ _ ihm iht =>
    rw [List.cons_append, List.append_assoc, readOn_opening _ _ _ _ _ _ ho, if_neg (by omega),
      ihm _ _ (by omega), List.cons_append, readOn_closing _ _ _ _ _ hc hd, iht _ _ hd]
    simp

/-- An element that is read directly in a list ends the search or is left behind. -/
theorem readOn_element {v : Raw} {t : List Char} (front cs : List Char) (hv : Written v t)
    (ht : Box t) (hlines : lines = scanLines (front ++ (t ++ cs))) :
    list.readOn lines 1 none front (t ++ cs)
      = if list.test.accepts v then
          some ((Place.after front).line, (Place.after (front ++ t)).line)
        else list.readOn lines 1 none (front ++ t) cs := by
  obtain ⟨o, m, c, rfl, ho, hc, hm⟩ := ht
  have hne : ∀ {c : Char}, (isOpening c || isClosing c) = true → c ≠ '\r' := by
    rintro c hb rfl
    revert hb
    decide
  have ho' : (isOpening o || isClosing o) = true := by simp [ho]
  have hc' : (isOpening c || isClosing c) = true := by simp [hc]
  have hbetween := textBetween_element front m cs (bracket_ne_newline ho') (hne ho')
    (bracket_ne_newline hc') (hne hc')
  have hdecode : list.accepts lines (Place.after front) (Place.after (front ++ o :: m))
      = list.test.accepts v := by
    unfold accepts
    rw [hlines]
    simp only [List.cons_append, List.append_assoc, List.nil_append] at hbetween ⊢
    rw [hbetween, decode_written (written_dropReturns hv)]
  have hplace := Place.after_append (t := [c]) (front ++ o :: m)
    (newline_notMem_bracket hc')
  simp only [List.cons_append, List.append_assoc, List.nil_append] at hplace ⊢
  rw [readOn_opening _ _ _ _ _ _ ho, if_pos rfl, readOn_balanced _ _ _ _ _ hm (by omega),
    readOn_closing_element _ _ _ _ _ hc]
  simp only [List.append_assoc, List.nil_append, List.cons_append]
  rw [hdecode, hplace]

theorem accepts_eq_false (test : ElementTest) {v : Raw} (hv : ∀ entries, v ≠ .map entries) :
    test.accepts v = false := by
  unfold ElementTest.accepts
  split
  · rename_i entries
    exact absurd rfl (hv entries)
  · rfl

/-- Any value that is read directly in a list ends the search or is left behind. -/
theorem readOn_value {v : Raw} {t : List Char} (front cs : List Char) (hv : Written v t)
    (hlines : lines = scanLines (front ++ (t ++ cs))) :
    list.readOn lines 1 none front (t ++ cs)
      = if list.test.accepts v then
          some ((Place.after front).line, (Place.after (front ++ t)).line)
        else list.readOn lines 1 none (front ++ t) cs := by
  rcases written_quiet_or_box hv with ⟨hq, hmap⟩ | hbox
  · rw [readOn_quiet _ _ _ _ _ _ hq, accepts_eq_false _ hmap]
    rfl
  · exact readOn_element list lines front cs hv hbox hlines

end TokensAndValues

end ResourceList

end TerraIndex
