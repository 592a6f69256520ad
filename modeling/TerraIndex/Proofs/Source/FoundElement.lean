import TerraIndex.Proofs.Source.ResourceList
import Mathlib.Algebra.Ring.Int.Defs
/-!
# What a resource list finds in any text

Whatever the text is, an element that `ResourceList.locate` finds stands directly in a list or map
under the container's key and passes the test (`locate_element`). The brackets of all lines are read
in one row (`marks`). What the scan remembers, a depth and the place where an element was opened,
says how deep the brackets since the last container lead (`State.Holds`), and a stray bracket or an
element that is never closed does not change that (`holds_scanBrackets`, `element_scan`).
-/

namespace TerraIndex

open Text (isBlank trim trimStart trimEnd quoteMinimal joinNewlines scanLines splitNewlines)

namespace Text

theorem trimStart_spec (cs : List Char) :
    ∃ w, cs = w ++ trimStart cs ∧ ∀ c ∈ w, isBlank c = true :=
  ⟨cs.takeWhile isBlank, List.takeWhile_append_dropWhile.symm, fun c hc =>
    List.all_eq_true.mp List.all_takeWhile c hc⟩

theorem trimEnd_spec (cs : List Char) :
    ∃ w, cs = trimEnd cs ++ w ∧ ∀ c ∈ w, isBlank c = true := by
  obtain ⟨w, hcs, hw⟩ := trimStart_spec cs.reverse
  refine ⟨w.reverse, ?_, fun c hc => hw c (List.mem_reverse.mp hc)⟩
  rw [trimEnd, ← List.reverse_append]
  exact List.reverse_eq_iff.mp hcs

theorem newline_notMem_scanLine {text line : List Char} (h : line ∈ scanLines text) :
    '\n' ∉ line := by
  obtain ⟨whole, hwhole, rfl⟩ := List.mem_map.mp h
  have hsplit : whole ∈ splitNewlines text := by
    unfold dropFinalEmpty at hwhole
    split at hwhole
    · exact List.dropLast_subset _ hwhole
    · exact hwhole
  obtain ⟨w, hline, -⟩ := dropCarriageReturns_spec whole
  intro hmem
  refine newline_notMem_line text whole hsplit ?_
  rw [hline]
  exact List.mem_append_left w hmem

end Text

theorem of_behindKey? {key : String} {cs rest : List Char} (h : behindKey? key cs = some rest) :
    ∃ w w', cs = quoteMinimal key.toList ++ (w ++ ':' :: (w' ++ rest))
      ∧ (∀ c ∈ w, isBlank c = true) ∧ ∀ c ∈ w', isBlank c = true := by
  unfold behindKey? at h
  split at h
  · rename_i colon htrim
    obtain ⟨behind, hfront, hcolon⟩ := Option.map_eq_some_iff.mp htrim
    unfold dropFront? at hfront
    split_ifs at hfront with hprefix
    obtain ⟨more, rfl⟩ := List.isPrefixOf_iff_prefix.mp hprefix
    rw [List.drop_left] at hfront
    obtain rfl := Option.some.inj hfront
    obtain ⟨w, hmore, hw⟩ := Text.trimStart_spec more
    obtain ⟨w', hbehind, hw'⟩ := Text.trimStart_spec colon
    refine ⟨w, w', ?_, hw, hw'⟩
    rw [← Option.some.inj h, ← hbehind, ← hcolon, ← hmore]
  · cases h

/-- A line that opens a container begins with the key, a colon and an opening bracket. -/
theorem of_opensContainer {key : String} {line : List Char} (h : opensContainer key line = true) :
    ∃ w w' w'' c rest, line = w ++ (quoteMinimal key.toList ++ (w' ++ ':' :: (w'' ++ c :: rest)))
      ∧ (∀ c ∈ w, isBlank c = true) ∧ (∀ c ∈ w', isBlank c = true)
      ∧ (∀ c ∈ w'', isBlank c = true) ∧ isOpening c = true := by
  obtain ⟨c, rest, hbehind, hc⟩ : ∃ c rest, behindKey? key (trim line) = some (c :: rest)
      ∧ isOpening c = true := by
    unfold opensContainer at h
    split at h
    · exact ⟨_, _, ‹_›, rfl⟩
    · exact ⟨_, _, ‹_›, rfl⟩
    · cases h
  obtain ⟨w', w'', htrim, hw', hw''⟩ := of_behindKey? hbehind
  obtain ⟨w, hstart, hw⟩ := Text.trimStart_spec line
  obtain ⟨v, hend, -⟩ := Text.trimEnd_spec (trimStart line)
  refine ⟨w, w', w'', c, rest ++ v, ?_, hw, hw', hw'', hc⟩
  rw [hstart, hend, ← trim, htrim]
  simp

section Brackets

/-- A bracket outside the strings of its line, with its place. -/
structure Mark where
  place : Place
  bracket : Char
deriving DecidableEq

/-- In an earlier line, or further to the front of the same line. -/
def Place.Before (p q : Place) : Prop := p.line < q.line ∨ p.line = q.line ∧ p.column < q.column

def lineMarks (line : Nat) (bs : List (Nat × Char)) : List Mark :=
  bs.map fun b => ⟨⟨line, b.1⟩, b.2⟩

/-- The brackets of lines, each line read on its own. The first line has the given number. -/
def marks : Nat → List (List Char) → List Mark
  | _, [] => []
  | line, text :: rest => lineMarks line (brackets text 0) ++ marks (line + 1) rest

theorem marks_append : ∀ (line : Nat) (lines more : List (List Char)),
    marks line (lines ++ more) = marks line lines ++ marks (line + lines.length) more
  | _, [], _ => rfl
  | line, text :: lines, more => by
    rw [List.cons_append, marks, marks, marks_append (line + 1) lines more, List.append_assoc,
      List.length_cons, Nat.add_assoc, Nat.add_comm 1]

theorem mem_bracketsFrom {b : Nat × Char} : ∀ {column : Nat} {state : QuoteState}
    {cs : List Char}, b ∈ bracketsFrom column state cs →
    (isOpening b.2 || isClosing b.2) = true ∧ column ≤ b.1 ∧ b.1 < column + cs.length
  | _, _, [], h => absurd h List.not_mem_nil
  | column, .escaped, c :: cs, h => by
    rw [bracketsFrom] at h
    obtain ⟨hbracket, hfront, hback⟩ := mem_bracketsFrom h
    exact ⟨hbracket, by omega, by rw [List.length_cons]; omega⟩
  | column, .inside, c :: cs, h => by
    rw [bracketsFrom] at h
    obtain ⟨hbracket, hfront, hback⟩ := mem_bracketsFrom h
    exact ⟨hbracket, by omega, by rw [List.length_cons]; omega⟩
  | column, .outside, c :: cs, h => by
    have hnext : ∀ {state : QuoteState}, b ∈ bracketsFrom (column + 1) state cs →
        (isOpening b.2 || isClosing b.2) = true ∧ column ≤ b.1
          ∧ b.1 < column + (c :: cs).length := fun h => by
      obtain ⟨hbracket, hfront, hback⟩ := mem_bracketsFrom h
      exact ⟨hbracket, by omega, by rw [List.length_cons]; omega⟩
    rw [bracketsFrom] at h
    split_ifs at h with hquote hbracket
    · exact hnext h
    · rcases List.mem_cons.mp h with rfl | h
      · exact ⟨hbracket, Nat.le_refl _, by rw [List.length_cons]; omega⟩
      · exact hnext h
    · exact hnext h

theorem pairwise_bracketsFrom : ∀ (column : Nat) (state : QuoteState) (cs : List Char),
    (bracketsFrom column state cs).Pairwise (·.1 < ·.1)
  | _, _, [] => .nil
  | column, .escaped, _ :: cs => pairwise_bracketsFrom (column + 1) .inside cs
  | column, .inside, c :: cs => pairwise_bracketsFrom (column + 1) _ cs
  | column, .outside, c :: cs => by
    rw [bracketsFrom]
    split_ifs
    · exact pairwise_bracketsFrom _ _ cs
    · refine .cons (fun b hb => ?_) (pairwise_bracketsFrom _ _ cs)
      exact (mem_bracketsFrom hb).2.1
    · exact pairwise_bracketsFrom _ _ cs

theorem mem_lineMarks {mark : Mark} {line : Nat} {bs : List (Nat × Char)} :
    mark ∈ lineMarks line bs ↔ mark.place.line = line ∧ (mark.place.column, mark.bracket) ∈ bs := by
  obtain ⟨⟨k, column⟩, c⟩ := mark
  simp only [lineMarks, List.mem_map, Mark.mk.injEq, Place.mk.injEq, Prod.exists]
  constructor
  · rintro ⟨column, c, hmem, ⟨rfl, rfl⟩, rfl⟩
    exact ⟨rfl, hmem⟩
  · rintro ⟨rfl, hmem⟩
    exact ⟨column, c, hmem, ⟨rfl, rfl⟩, rfl⟩

/-- A mark stands at a column of a line that is there. -/
theorem mem_marks {mark : Mark} : ∀ {line : Nat} {lines : List (List Char)},
    mark ∈ marks line lines → line ≤ mark.place.line
      ∧ (isOpening mark.bracket || isClosing mark.bracket) = true
      ∧ ∃ text, lines[mark.place.line - line]? = some text ∧ mark.place.column < text.length
  | _, [], h => absurd h List.not_mem_nil
  | line, text :: lines, h => by
    rcases List.mem_append.mp h with h | h
    · obtain ⟨rfl, hmem⟩ := mem_lineMarks.mp h
      obtain ⟨hbracket, -, hcolumn⟩ := mem_bracketsFrom hmem
      refine ⟨Nat.le_refl _, hbracket, text, by rw [Nat.sub_self]; rfl, ?_⟩
      simpa using hcolumn
    · obtain ⟨hline, hbracket, text', htext', hcolumn⟩ := mem_marks h
      refine ⟨by omega, hbracket, text', ?_, hcolumn⟩
      rw [← htext', show mark.place.line - line = mark.place.line - (line + 1) + 1 by omega]
      rfl

/-- The brackets are read from the first line to the last and from the front to the back. -/
theorem pairwise_marks : ∀ (line : Nat) (lines : List (List Char)),
    (marks line lines).Pairwise fun m n => m.place.Before n.place
  | _, [] => .nil
  | line, text :: lines => by
    refine List.pairwise_append.mpr ⟨?_, pairwise_marks (line + 1) lines, fun m hm n hn => ?_⟩
    · refine List.pairwise_map.mpr ((pairwise_bracketsFrom _ _ _).imp fun hlt => ?_)
      exact .inr ⟨rfl, hlt⟩
    · obtain ⟨hline, -⟩ := mem_lineMarks.mp hm
      exact .inl (hline ▸ (mem_marks hn).1)

end Brackets

section Depths

/-- How deep a row of brackets leads. -/
def depthOf (run : List Mark) : Int := (run.map fun mark => bracketStep mark.bracket).sum

@[simp] theorem depthOf_nil : depthOf [] = 0 := rfl

@[simp] theorem depthOf_cons (mark : Mark) (run : List Mark) :
    depthOf (mark :: run) = bracketStep mark.bracket + depthOf run := by simp [depthOf]

@[simp] theorem depthOf_append (run more : List Mark) :
    depthOf (run ++ more) = depthOf run + depthOf more := by simp [depthOf]

theorem bracketStep_opening {c : Char} (hc : isOpening c = true) : bracketStep c = 1 := if_pos hc

theorem bracketStep_closing {c : Char} (hc : ¬ isOpening c = true) : bracketStep c = -1 := if_neg hc

/-- The bracket opens the value of the key that its line begins with. -/
def OpensValue (key : String) (lines : List (List Char)) (mark : Mark) : Prop :=
  ∃ w w' w'' rest, lines[mark.place.line - 1]?
      = some (w ++ (quoteMinimal key.toList ++ (w' ++ ':' :: (w'' ++ mark.bracket :: rest))))
    ∧ Margin w ∧ Margin w' ∧ Margin w'' ∧ isOpening mark.bracket = true
    ∧ mark.place.column = (w ++ (quoteMinimal key.toList ++ (w' ++ ':' :: w''))).length

/-- The brackets from one that opens the value of the key lead to the depth, and never out of the
value. -/
structure InsideValue (key : String) (lines : List (List Char)) (run : List Mark) (depth : Nat) :
    Prop where
  opens : ∃ opener between, run = opener :: between ∧ OpensValue key lines opener
  stays : ∀ front, front <+: run → front ≠ [] → 1 ≤ depthOf front
  depth : depthOf run = depth

namespace InsideValue

variable {key : String} {lines : List (List Char)} {run : List Mark} {depth : Nat}

theorem of_opens {opener : Mark} (h : OpensValue key lines opener) :
    InsideValue key lines [opener] 1 := by
  have hdepth : depthOf [opener] = 1 := by
    obtain ⟨w, w', w'', rest, -, -, -, -, hopening, -⟩ := h
    simp [bracketStep_opening hopening]
  refine ⟨⟨opener, [], rfl, h⟩, fun front hfront hne => ?_, hdepth⟩
  obtain ⟨mark, front, rfl⟩ := List.exists_cons_of_ne_nil hne
  obtain ⟨rfl, hnil⟩ := List.cons_prefix_cons.mp hfront
  exact Int.le_of_eq (by rw [List.prefix_nil.mp hnil, hdepth])

/-- One more bracket. -/
theorem concat (h : InsideValue key lines run depth) {mark : Mark} {next : Nat}
    (hstep : (next : Int) = depth + bracketStep mark.bracket) (hnext : 1 ≤ next) :
    InsideValue key lines (run ++ [mark]) next := by
  have hdepth : depthOf (run ++ [mark]) = next := by
    rw [depthOf_append, h.depth, hstep]
    simp
  obtain ⟨opener, between, rfl, hopens⟩ := h.opens
  refine ⟨⟨opener, between ++ [mark], rfl, hopens⟩, fun front hfront hne => ?_, hdepth⟩
  rcases List.prefix_concat_iff.mp hfront with rfl | hfront
  · omega
  · exact h.stays front hfront hne

end InsideValue

end Depths

namespace ResourceList

variable (list : ResourceList) (lines : List (List Char))

/-- The state says where the brackets read so far lead: into the value of the last container, and
in it, where an element is open, behind the bracket that opened it at depth one. -/
def State.Holds (key : String) (seen : List Mark) : State → Prop
  | .searching => True
  | .inside depth none => depth = 1 ∧ ∃ front run, seen = front ++ run ∧ InsideValue key lines run 1
  | .inside depth (some first) => 2 ≤ depth ∧ ∃ front run o inner,
    seen = front ++ (run ++ ⟨first, o⟩ :: inner) ∧ isOpening o = true ∧ InsideValue key lines run 1
      ∧ InsideValue key lines (run ++ ⟨first, o⟩ :: inner) depth

theorem State.holds_searching {key : String} {seen : List Mark} :
    State.searching.Holds lines key seen := trivial

/-- The text between two brackets is an element that passes the test. -/
structure Closes (seen : List Mark) (first : Place) (last : Mark) : Prop where
  opened : ∃ front run o inner, seen = front ++ (run ++ ⟨first, o⟩ :: inner) ∧ isOpening o = true
    ∧ InsideValue list.container lines run 1
  closing : ¬ isOpening last.bracket = true
  accepted : list.accepts lines first last.place = true

/-- What the brackets of a line lead to. -/
def Progress.Holds (line : Nat) (seen : List Mark) (bs : List (Nat × Char)) : Progress → Prop
  | .found k => ∃ front b back first, bs = front ++ b :: back ∧ first.line = k
    ∧ list.Closes lines (seen ++ lineMarks line front) first ⟨⟨line, b.1⟩, b.2⟩
  | .state next => next.Holds lines list.container (seen ++ lineMarks line bs)

variable {list lines}

theorem Progress.Holds.cons {line : Nat} {seen : List Mark} {b : Nat × Char}
    {bs : List (Nat × Char)} : ∀ {progress : Progress},
    progress.Holds list lines line (seen ++ [⟨⟨line, b.1⟩, b.2⟩]) bs →
    progress.Holds list lines line seen (b :: bs)
  | .found k, ⟨front, c, back, first, hbs, hk, hcloses⟩ => by
    refine ⟨b :: front, c, back, first, by rw [hbs]; rfl, hk, ?_⟩
    rwa [List.append_assoc] at hcloses
  | .state next, h => by
    rwa [Progress.Holds, List.append_assoc] at h

/-- A bracket read directly in the container. -/
theorem State.Holds.opening_first {key : String} {seen : List Mark} (mark : Mark)
    (h : (State.inside 1 none).Holds lines key seen) (hc : isOpening mark.bracket = true) :
    (State.inside 2 (some mark.place)).Holds lines key (seen ++ [mark]) := by
  obtain ⟨-, front, run, rfl, hrun⟩ := h
  refine ⟨Nat.le_refl 2, front, run, mark.bracket, [], List.append_assoc .., hc, hrun, ?_⟩
  exact hrun.concat (by rw [bracketStep_opening hc]; rfl) (by decide)

/-- A bracket in an element. -/
theorem State.Holds.within {key : String} {seen : List Mark} {first : Place} (mark : Mark)
    {depth next : Nat} (h : (State.inside depth (some first)).Holds lines key seen)
    (hstep : (next : Int) = depth + bracketStep mark.bracket) (hnext : 2 ≤ next) :
    (State.inside next (some first)).Holds lines key (seen ++ [mark]) := by
  obtain ⟨-, front, run, o, inner, rfl, ho, hrun, hinner⟩ := h
  have hnew := hinner.concat hstep (by omega)
  rw [List.append_assoc, List.cons_append] at hnew
  exact ⟨hnext, front, run, o, inner ++ [mark], by simp, ho, hrun, hnew⟩

/-- The bracket that closes an element. -/
theorem State.Holds.closing {key : String} {seen : List Mark} {first : Place} (mark : Mark)
    (h : (State.inside 2 (some first)).Holds lines key seen)
    (hc : ¬ isOpening mark.bracket = true) :
    (State.inside 1 none).Holds lines key (seen ++ [mark]) := by
  obtain ⟨-, front, run, o, inner, rfl, ho, hrun, hinner⟩ := h
  exact ⟨rfl, front, _, List.append_assoc ..,
    hinner.concat (by rw [bracketStep_closing hc]; rfl) (Nat.le_refl 1)⟩

/-- Reading the brackets of a line keeps the state true. -/
theorem holds_scanBrackets {line : Nat} : ∀ {bs : List (Nat × Char)} {depth : Nat}
    {start : Option Place} {seen : List Mark},
    (State.inside depth start).Holds lines list.container seen →
    (list.scanBrackets lines line depth start bs).Holds list lines line seen bs
  | [], depth, start, seen, h => by
    rw [scanBrackets, Progress.Holds]
    simpa [lineMarks] using h
  | (column, c) :: bs, depth, none, seen, h => by
    obtain rfl := h.1
    simp only [scanBrackets, Nat.le_refl, if_true]
    split_ifs with hc
    · exact (holds_scanBrackets (h.opening_first ⟨⟨line, column⟩, c⟩ hc)).cons
    · exact trivial
  | (column, c) :: bs, depth, some first, seen, h => by
    have hdepth := h.1
    simp only [scanBrackets, show ¬ depth = 1 by omega, if_false]
    split_ifs with hc htwo haccepts
    · refine (holds_scanBrackets (h.within ⟨⟨line, column⟩, c⟩ ?_ (by omega))).cons
      rw [bracketStep_opening hc]
      rfl
    · subst htwo
      obtain ⟨-, front, run, o, inner, hseen, ho, hrun, -⟩ := h
      exact ⟨[], (column, c), bs, first, rfl, rfl,
        ⟨front, run, o, inner, by rw [← hseen]; simp [lineMarks], ho, hrun⟩, hc, haccepts⟩
    · subst htwo
      exact (holds_scanBrackets (h.closing ⟨⟨line, column⟩, c⟩ hc)).cons
    · omega
    · refine (holds_scanBrackets (h.within ⟨⟨line, column⟩, c⟩ ?_ (by omega))).cons
      rw [bracketStep_closing hc]
      omega

section Scan

/-- The first bracket of a line that opens a container is the one behind its key. -/
theorem brackets_opensValue {key : String} {lines : List (List Char)} {line : Nat}
    {text : List Char} (htext : lines[line - 1]? = some text) (hn : '\n' ∉ text)
    (h : opensContainer key text = true) : ∃ column c bs, OpensValue key lines ⟨⟨line, column⟩, c⟩
      ∧ isOpening c = true ∧ brackets text 0 = (column, c) :: bs
      ∧ brackets text (text.takeWhile isBlank).length = (column, c) :: bs := by
  obtain ⟨w, w', w'', c, rest, rfl, hw, hw', hw'', hc⟩ := of_opensContainer h
  simp only [List.mem_append, List.mem_cons, not_or] at hn
  obtain ⟨hnw, -, hnw', -, hnw'', -⟩ := hn
  have hm : Margin w := fun d hd => ⟨hw d hd, fun heq => hnw (heq ▸ hd)⟩
  have hm' : Margin w' := fun d hd => ⟨hw' d hd, fun heq => hnw' (heq ▸ hd)⟩
  have hm'' : Margin w'' := fun d hd => ⟨hw'' d hd, fun heq => hnw'' (heq ▸ hd)⟩
  have hquiet : Quiet (quoteMinimal key.toList ++ (w' ++ ':' :: w'')) :=
    (quiet_quoteMinimal _).append ((quiet_margin hm').append
      (quiet_colon.append (quiet_margin hm'')))
  have hbracket : (isOpening c || isClosing c) = true := by rw [hc, Bool.true_or]
  have hsplit : w ++ (quoteMinimal key.toList ++ (w' ++ ':' :: (w'' ++ c :: rest)))
      = w ++ ((quoteMinimal key.toList ++ (w' ++ ':' :: w'')) ++ c :: rest) := by simp
  refine ⟨_, c, bracketsFrom ((w ++ (quoteMinimal key.toList ++ (w' ++ ':' :: w''))).length + 1)
    .outside rest, ⟨w, w', w'', rest, htext, hm, hm', hm'', hc, rfl⟩, hc, ?_, ?_⟩
  · rw [brackets, List.drop_zero, hsplit, (quiet_margin hm).2, hquiet.2,
      bracketsFrom_bracket _ _ hbracket, Nat.zero_add, ← List.length_append]
  · rw [hsplit, brackets_quiet _ hw hquiet rfl, bracketsFrom_bracket _ _ hbracket]

/-- Reading a line keeps the state true. -/
theorem holds_scanLine {line : Nat} {text : List Char} (htext : lines[line - 1]? = some text)
    (hn : '\n' ∉ text) : ∀ {state : State} {seen : List Mark},
    state.Holds lines list.container seen →
    (list.scanLine lines state line text).Holds list lines line seen (brackets text 0)
  | .inside depth start, seen, h => holds_scanBrackets h
  | .searching, seen, _ => by
    rw [scanLine]
    split_ifs with hopens
    · obtain ⟨column, c, bs, hvalue, hc, hfirst, hbrackets⟩ := brackets_opensValue htext hn hopens
      rw [hfirst, hbrackets]
      simp only [scanBrackets, hc, if_true]
      refine (holds_scanBrackets ?_).cons
      exact ⟨rfl, seen, _, rfl, .of_opens hvalue⟩
    · exact trivial

/-- What the scan finds is closed by a bracket in one of its lines. -/
theorem closes_scan (hlines : ∀ line ∈ lines, '\n' ∉ line) {first last : Nat} :
    ∀ (rest above : List (List Char)) {state : State}, lines = above ++ rest →
    state.Holds lines list.container (marks 1 above) →
    list.scan lines state (above.length + 1) rest = some (first, last) →
    ∃ place mark, place.line = first ∧ mark.place.line = last
      ∧ ∃ seen back, marks 1 lines = seen ++ mark :: back ∧ list.Closes lines seen place mark
  | [], _, _, _, _, h => by simp [scan] at h
  | text :: rest, above, state, hsplit, hstate, h => by
    have htext : lines[above.length + 1 - 1]? = some text := by
      rw [hsplit, Nat.add_sub_cancel, List.getElem?_append_right (Nat.le_refl _), Nat.sub_self]
      rfl
    have hmarks : marks 1 (above ++ [text])
        = marks 1 above ++ lineMarks (above.length + 1) (brackets text 0) := by
      rw [marks_append, Nat.add_comm 1, marks, marks, List.append_nil]
    have hnext := holds_scanLine htext (hlines text (List.mem_of_getElem? htext)) hstate
    rw [scan] at h
    split at h
    · rename_i start hprogress
      obtain ⟨rfl, rfl⟩ := Prod.mk.inj (Option.some.inj h)
      rw [hprogress] at hnext
      obtain ⟨front, b, back, place, hbrackets, hplace, hcloses⟩ := hnext
      refine ⟨place, _, hplace, rfl, _, lineMarks (above.length + 1) back
        ++ marks (above.length + 2) rest, ?_, hcloses⟩
      rw [hsplit, ← List.singleton_append, ← List.append_assoc, marks_append, hmarks, hbrackets]
      simp [lineMarks, Nat.add_comm 1, Nat.add_assoc]
    · rename_i next hprogress
      rw [hprogress, Progress.Holds, ← hmarks] at hnext
      exact closes_scan hlines rest (above ++ [text]) (by simp [hsplit]) hnext (by simpa using h)

end Scan

end ResourceList

section Text

/-- The text from one place up to and with another, in lines joined by newlines: what is left of
the lines without the characters in front of the first place and those behind the other. -/
def IsBetween (lines : List (List Char)) (first last : Place) (text : List Char) : Prop :=
  ∃ front back line, joinNewlines ((lines.take last.line).drop (first.line - 1))
      = front ++ (text ++ back)
    ∧ front.length = first.column
    ∧ lines[last.line - 1]? = some line ∧ back = line.drop (last.column + 1)

theorem joinNewlines_concat_append (line b : List Char) : ∀ lines : List (List Char),
    joinNewlines (lines ++ [line ++ b]) = joinNewlines (lines ++ [line]) ++ b
  | [] => rfl
  | [first] => by
    rw [List.singleton_append, List.singleton_append, Text.joinNewlines_cons_cons,
      Text.joinNewlines_cons_cons, List.append_assoc]
    rfl
  | first :: next :: lines => by
    have ih := joinNewlines_concat_append line b (next :: lines)
    rw [List.cons_append, List.cons_append, List.cons_append, List.cons_append] at *
    rw [Text.joinNewlines_cons_cons, Text.joinNewlines_cons_cons, ih, List.append_assoc]
    rfl

theorem drop_take_singleton {α : Type} {k : Nat} {xs : List α} {x : α} (h : xs[k]? = some x) :
    (xs.take (k + 1)).drop k = [x] := by
  have hk := (List.getElem?_eq_some_iff.mp h).1
  rw [List.take_add_one, h, List.drop_append_of_le_length (by simp; omega), List.drop_take]
  simp

theorem drop_take_cons_concat {α : Type} {k n : Nat} {xs : List α} {x y : α} (hlt : k < n)
    (hx : xs[k]? = some x) (hy : xs[n]? = some y) :
    (xs.take (n + 1)).drop k = x :: ((xs.take n).drop (k + 1) ++ [y]) := by
  have hk : k < (xs.take n).length := by
    have := (List.getElem?_eq_some_iff.mp hy).1
    rw [List.length_take]
    omega
  have hget : (xs.take n)[k] = x := by
    rw [List.getElem_take]
    exact (List.getElem?_eq_some_iff.mp hx).2
  rw [List.take_add_one, hy, List.drop_append_of_le_length (Nat.le_of_lt hk),
    List.drop_eq_getElem_cons hk, hget]
  rfl

/-- Between two places of the lines stands the text that is decoded. -/
theorem isBetween_textBetween {lines : List (List Char)} {first last : Place}
    {line final : List Char} (hpos : 1 ≤ first.line) (hbefore : first.Before last)
    (hline : lines[first.line - 1]? = some line) (hcolumn : first.column < line.length)
    (hfinal : lines[last.line - 1]? = some final) :
    IsBetween lines first last (textBetween lines first last) := by
  obtain ⟨k, column⟩ := first
  obtain ⟨n, column'⟩ := last
  simp only [Place.Before] at hpos hbefore hline hfinal hcolumn
  obtain ⟨k, rfl⟩ := Nat.exists_eq_add_of_le' hpos
  obtain ⟨n, rfl⟩ := Nat.exists_eq_add_of_le' (show 1 ≤ n by omega)
  rw [Nat.add_sub_cancel] at hline hfinal
  have hlength : (line.take column).length = column := List.length_take_of_le (Nat.le_of_lt hcolumn)
  rcases hbefore with hlt | ⟨heq, hlt⟩
  · have hcovered := drop_take_cons_concat (Nat.lt_of_add_lt_add_right hlt) hline hfinal
    refine ⟨line.take column, final.drop (column' + 1), final, ?_, hlength, hfinal, rfl⟩
    rw [textBetween_more hcovered, Nat.add_sub_cancel, hcovered, ← List.append_assoc,
      ← Text.joinNewlines_cons_append, List.take_append_drop, ← List.cons_append,
      ← List.cons_append, ← joinNewlines_concat_append, List.take_append_drop]
  · obtain rfl : k = n := by omega
    obtain rfl := Option.some.inj (hline.symm.trans hfinal)
    have hcovered := drop_take_singleton hline
    refine ⟨line.take column, line.drop (column' + 1), line, ?_, hlength, hfinal, rfl⟩
    have hfront : line.take column = (line.take (column' + 1)).take column := by
      rw [List.take_take, Nat.min_eq_left (by omega)]
    rw [textBetween_one hcovered, Nat.add_sub_cancel, hcovered, hfront, ← List.append_assoc,
      List.take_append_drop, List.take_append_drop]
    rfl

end Text

namespace ResourceList

/-- **Every element found is one**: in all text, a span that is found runs from the line of a
bracket to the line of a later one, the text between the two decodes to an element that passes the
test, and the brackets in front of it lead from the value of a line that begins with the container's
key to depth one, never out of that value. -/
theorem locate_element (list : ResourceList) (text : List Char)
    (hfound : (list.locate text).found = true) :
    ∃ front run first inner last back element value,
      marks 1 (scanLines text) = front ++ (run ++ first :: (inner ++ last :: back))
      ∧ isOpening first.bracket = true ∧ isClosing last.bracket = true
      ∧ first.place.Before last.place
      ∧ (list.locate text).startLine = first.place.line
      ∧ (list.locate text).endLine = last.place.line
      ∧ InsideValue list.container (scanLines text) run 1
      ∧ IsBetween (scanLines text) first.place last.place element
      ∧ Json.decode element = .ok value ∧ list.test.Matches value := by
  rcases hscan : list.scan (scanLines text) .searching 1 (scanLines text) with _ | ⟨s, e⟩
  · simp [locate, hscan, Span.found, Span.empty] at hfound
  obtain ⟨first, last, hs, he, seen, back, hmarks, hcloses⟩ :=
    closes_scan (fun _ => Text.newline_notMem_scanLine) _ [] rfl (State.holds_searching _) hscan
  obtain ⟨front, run, o, inner, rfl, ho, hrun⟩ := hcloses.opened
  rw [List.append_assoc, List.append_assoc, List.cons_append] at hmarks
  have hmem : ∀ mark ∈ (⟨first, o⟩ : Mark) :: (inner ++ last :: back),
      mark ∈ marks 1 (scanLines text) := fun mark h => by
    rw [hmarks]
    exact List.mem_append_right _ (List.mem_append_right _ h)
  have hbefore : first.Before last.place := by
    have hsorted := pairwise_marks 1 (scanLines text)
    rw [hmarks] at hsorted
    have hfrom := (List.pairwise_append.mp (List.pairwise_append.mp hsorted).2.1).2.1
    exact List.rel_of_pairwise_cons hfrom (List.mem_append_right _ List.mem_cons_self)
  obtain ⟨hpos, -, line, hline, hcolumn⟩ := mem_marks (hmem _ List.mem_cons_self)
  obtain ⟨-, hbracket, final, hfinal, -⟩ := mem_marks (hmem last (by simp))
  have hclosing : isClosing last.bracket = true :=
    (Bool.or_eq_true_iff.mp hbracket).resolve_left hcloses.closing
  obtain ⟨value, hdecode, haccepts⟩ : ∃ value,
      Json.decode (textBetween (scanLines text) first last.place) = .ok value
        ∧ list.test.accepts value = true := by
    have haccepted := hcloses.accepted
    unfold accepts at haccepted
    split at haccepted
    · exact ⟨_, ‹_›, haccepted⟩
    · cases haccepted
  refine ⟨front, run, ⟨first, o⟩, inner, last, back, _, value, hmarks, ho, hclosing, hbefore, ?_,
    ?_, hrun, isBetween_textBetween hpos hbefore hline hcolumn hfinal, hdecode,
    (list.test.accepts_iff value).mp haccepts⟩
  · simp [locate, hscan, hs]
  · simp [locate, hscan, he]

/-- A container that a stray bracket closes, one that is entered in front of an element that does
not pass, and an element on two lines in a text that ends in the middle of the next. -/
def truncated : List Char :=
  ("]\n\"resources\": \x7b ] \x7d, [\n\"resources\": [ \x7b\"a\": 1\x7d, \x7b\n"
    ++ "\"a\": \"b\"\x7d, \x7b\"a\":").toList

theorem locate_element_truncated :
    let list : ResourceList := ⟨"resources", [("a", "b")], []⟩
    (list.locate truncated).found = true
      ∧ ∃ front run first inner last back element value,
        marks 1 (scanLines truncated) = front ++ (run ++ first :: (inner ++ last :: back))
        ∧ isOpening first.bracket = true ∧ isClosing last.bracket = true
        ∧ first.place.Before last.place
        ∧ (list.locate truncated).startLine = first.place.line
        ∧ (list.locate truncated).endLine = last.place.line
        ∧ InsideValue "resources" (scanLines truncated) run 1
        ∧ IsBetween (scanLines truncated) first.place last.place element
        ∧ Json.decode element = .ok value ∧ list.test.Matches value :=
  have hfound : (ResourceList.locate ⟨"resources", [("a", "b")], []⟩ truncated).found = true := by
    decide +kernel
  ⟨hfound, locate_element _ _ hfound⟩

end ResourceList

end TerraIndex
