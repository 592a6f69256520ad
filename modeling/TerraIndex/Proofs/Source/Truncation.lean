import TerraIndex.Source.NamedChild
import TerraIndex.Source.ResourceList
import TerraIndex.Proofs.Text.Lines
/-!
# Scans of truncated texts

A text cut off behind some line leads a line scanner to the same span as long as the span lies in
the part that is left, and to nothing otherwise (`locate_truncates`). No bracket of the text need be
closed. Both scanners are steps from line to line (`scanBy`). What such a scan finds in the first
lines is what it finds in all lines unless that ends further down (`scanBy_take`), and it begins in
a line that is read before (`Steps`).
-/

namespace TerraIndex

namespace Text

/-- The first lines of a text, each with the newline that ends it. -/
def firstLines : Nat → List Char → List Char
  | 0, _ => []
  | _ + 1, [] => []
  | k + 1, c :: cs => c :: firstLines (if c = '\n' then k else k + 1) cs

/-- A character in front of the first line. -/
def consFirst (c : Char) : List (List Char) → List (List Char)
  | [] => [[c]]
  | line :: lines => (c :: line) :: lines

theorem consFirst_take (c : Char) (k : Nat) (lines : List (List Char)) :
    consFirst c (lines.take (k + 1)) = (consFirst c lines).take (k + 1) := by
  cases lines with
  | nil => simp [consFirst]
  | cons line lines => rfl

theorem dropFinalEmpty_split_newline (cs : List Char) :
    dropFinalEmpty (splitNewlines ('\n' :: cs)) = [] :: dropFinalEmpty (splitNewlines cs) := by
  rw [splitNewlines_newline, dropFinalEmpty_cons _ (splitNewlines_ne_nil cs)]

theorem dropFinalEmpty_split_cons {c : Char} (cs : List Char) (hc : c ≠ '\n') :
    dropFinalEmpty (splitNewlines (c :: cs))
      = consFirst c (dropFinalEmpty (splitNewlines cs)) := by
  rw [splitNewlines_cons cs hc, splitNewlines_eq_cons cs]
  rcases hbelow : linesBelow cs with _ | ⟨line, lines⟩
  · cases firstLine cs <;> rfl
  · rw [dropFinalEmpty_cons _ (List.cons_ne_nil line lines),
      dropFinalEmpty_cons _ (List.cons_ne_nil line lines)]
    rfl

theorem dropFinalEmpty_firstLines : ∀ (k : Nat) (text : List Char),
    dropFinalEmpty (splitNewlines (firstLines k text))
      = (dropFinalEmpty (splitNewlines text)).take k
  | 0, _ => by
    rw [List.take_zero, firstLines]
    rfl
  | _ + 1, [] => rfl
  | k + 1, c :: cs => by
    unfold firstLines
    split_ifs with hc
    · subst hc
      rw [dropFinalEmpty_split_newline, dropFinalEmpty_split_newline, List.take_succ_cons,
        dropFinalEmpty_firstLines k cs]
    · rw [dropFinalEmpty_split_cons _ hc, dropFinalEmpty_split_cons _ hc, ← consFirst_take,
        dropFinalEmpty_firstLines (k + 1) cs]

theorem scanLines_firstLines (k : Nat) (text : List Char) :
    scanLines (firstLines k text) = (scanLines text).take k := by
  rw [scanLines, scanLines, dropFinalEmpty_firstLines, List.map_take]

theorem linesText_take {first last k : Nat} (lines : List (List Char)) (h : last ≤ k) :
    linesText (lines.take k) first last = linesText lines first last := by
  rw [linesText, linesText, List.take_take, Nat.min_eq_left h]

end Text

open Text (firstLines scanLines)

/-- What is found in a text is a range of its lines, and it is found in the first lines of the text
exactly when it lies in them. -/
inductive Truncates (locate : List Char → Span) (text : List Char) : Prop
  | absent (hnone : locate text = .empty) (hfront : ∀ k, locate (firstLines k text) = .empty)
  | found (first last : Nat) (hfirst : 1 ≤ first) (hle : first ≤ last)
      (hlast : last ≤ (scanLines text).length) (hspan : locate text = Span.ofLines text first last)
      (hfront : ∀ k, locate (firstLines k text) = if last ≤ k then locate text else .empty)

section Steps

variable {σ : Type}

/-- A scan that in each line is done, with the line where the range begins, or goes on in a further
state. -/
def scanBy (step : σ → Nat → List Char → Nat ⊕ σ) :
    σ → Nat → List (List Char) → Option (Nat × Nat)
  | _, _, [] => none
  | state, line, text :: rest =>
    match step state line text with
    | .inl first => some (first, line)
    | .inr next => scanBy step next (line + 1) rest

/-- A range begins in a line read before its end, where `Begun` holds of the states in front of a
line. -/
def Steps (Begun : Nat → σ → Prop) (step : σ → Nat → List Char → Nat ⊕ σ) : Prop :=
  ∀ state line text, 1 ≤ line → Begun line state →
    (step state line text).elim (fun first => 1 ≤ first ∧ first ≤ line) (Begun (line + 1))

variable {Begun : Nat → σ → Prop} {step step' : σ → Nat → List Char → Nat ⊕ σ}

theorem scanBy_bounds (hstep : Steps Begun step) {first last : Nat} :
    ∀ {state : σ} {line : Nat} {lines : List (List Char)}, 1 ≤ line → Begun line state →
      scanBy step state line lines = some (first, last) →
      1 ≤ first ∧ first ≤ last ∧ line ≤ last ∧ last < line + lines.length
  | _, _, [], _, _, h => by simp [scanBy] at h
  | state, line, text :: rest, hline, hstate, h => by
    have hnext := hstep state line text hline hstate
    rw [scanBy] at h
    rw [List.length_cons]
    rcases hs : step state line text with start | next <;> rw [hs] at h hnext
    · obtain ⟨rfl, rfl⟩ := Prod.mk.inj (Option.some.inj h)
      obtain ⟨hpos, hle⟩ := hnext
      omega
    · have := scanBy_bounds hstep (Nat.le_succ_of_le hline) hnext h
      omega

theorem scanBy_take (hstep : Steps Begun step) : ∀ {state : σ} {line : Nat}
    (lines : List (List Char)) (k : Nat), 1 ≤ line → Begun line state →
      scanBy step state line (lines.take k)
        = (scanBy step state line lines).filter fun range => range.2 < line + k
  | state, line, lines, 0, hline, hstate => by
    rw [List.take_zero, scanBy, eq_comm, Option.filter_eq_none_iff]
    rintro ⟨first, last⟩ h
    have := scanBy_bounds hstep hline hstate h
    simp only [decide_eq_true_eq]
    omega
  | _, _, [], _ + 1, _, _ => rfl
  | state, line, text :: rest, k + 1, hline, hstate => by
    have hnext := hstep state line text hline hstate
    rw [List.take_succ_cons, scanBy, scanBy]
    rcases hs : step state line text with start | next <;> rw [hs] at hnext
    · rw [Option.filter_some, if_pos (by simp)]
    · simp only []
      rw [scanBy_take hstep rest k (Nat.le_succ_of_le hline) hnext,
        show line + 1 + k = line + (k + 1) by omega]

/-- A scan asks only for the steps in the lines it reads. -/
theorem scanBy_congr {n : Nat}
    (h : ∀ state line text, line ≤ n → step state line text = step' state line text) :
    ∀ (state : σ) (line : Nat) (lines : List (List Char)), line + lines.length ≤ n + 1 →
      scanBy step state line lines = scanBy step' state line lines
  | _, _, [], _ => rfl
  | state, line, text :: rest, hn => by
    rw [List.length_cons] at hn
    rw [scanBy, scanBy, h state line text (by omega)]
    split
    · rfl
    · exact scanBy_congr h _ _ rest (by omega)

end Steps

/-- The span of a range of lines. -/
def Span.ofRange (lines : List (List Char)) (range : Option (Nat × Nat)) : Span :=
  match range with
  | some (first, last) => ⟨first, last, String.ofList (Text.linesText lines first last)⟩
  | none => .empty

/-- A scan truncates where its ranges lie in the lines and a scan of the first lines finds the same
ranges less those that end further down. -/
theorem Truncates.of_scan (scan : List (List Char) → Option (Nat × Nat)) (text : List Char)
    (hbounds : ∀ lines first last, scan lines = some (first, last) →
      1 ≤ first ∧ first ≤ last ∧ last ≤ lines.length)
    (htake : ∀ lines k, scan (lines.take k) = (scan lines).filter fun range => range.2 ≤ k) :
    Truncates (fun text => Span.ofRange (scanLines text) (scan (scanLines text))) text := by
  have hfront : ∀ k, scan (scanLines (firstLines k text))
      = (scan (scanLines text)).filter fun range => range.2 ≤ k := fun k => by
    rw [Text.scanLines_firstLines, htake]
  rcases hscan : scan (scanLines text) with _ | ⟨first, last⟩
  · refine .absent (by rw [hscan]; rfl) fun k => ?_
    rw [hfront, hscan]
    rfl
  · obtain ⟨hfirst, hle, hlast⟩ := hbounds _ _ _ hscan
    refine .found first last hfirst hle hlast (by rw [hscan]; rfl) fun k => ?_
    simp only [hfront, hscan]
    split_ifs with hk
    · simp only [Option.filter_some, decide_eq_true hk, if_true, Span.ofRange]
      rw [Text.scanLines_firstLines, Text.linesText_take _ hk]
    · simp only [Option.filter_some, decide_eq_false hk, Bool.false_eq_true, if_false, Span.ofRange]

namespace NamedChild

/-- A child that is open begins in one of the lines in front of the given one. -/
def State.Begun (line : Nat) : State → Prop
  | .searching => True
  | .inContainer _ => True
  | .inChild start _ => 1 ≤ start ∧ start < line

theorem State.begun_searching {line : Nat} : State.searching.Begun line := trivial

/-- What one line leads to. -/
def step (child : NamedChild) : State → Nat → List Char → Nat ⊕ State
  | .searching, _, text =>
    if opensContainer child.container text && 0 < nestingDelta text then
      .inr (.inContainer (nestingDelta text))
    else .inr .searching
  | .inContainer before, line, text =>
    let depth := before + nestingDelta text
    if before = 1 ∧ opensMap child.name text then
      if depth ≤ 1 then .inl line else .inr (.inChild line depth)
    else if depth ≤ 0 then .inr .searching
    else .inr (.inContainer depth)
  | .inChild start before, _, text =>
    let depth := before + nestingDelta text
    if depth ≤ 1 then .inl start else .inr (.inChild start depth)

variable (child : NamedChild)

theorem scan_eq_scanBy : ∀ (state : State) (line : Nat) (lines : List (List Char)),
    child.scan state line lines = scanBy child.step state line lines
  | state, _, [] => by cases state <;> rfl
  | .searching, line, text :: rest => by
    rw [scan, scanBy, step]
    split_ifs <;> exact scan_eq_scanBy _ _ rest
  | .inContainer before, line, text :: rest => by
    simp only [scan, scanBy, step]
    split_ifs
    · rfl
    all_goals exact scan_eq_scanBy _ _ rest
  | .inChild start before, line, text :: rest => by
    simp only [scan, scanBy, step]
    split_ifs
    · rfl
    · exact scan_eq_scanBy _ _ rest

theorem steps : Steps State.Begun child.step
  | .searching, line, text, _, _ => by
    simp only [step]
    split_ifs <;> exact trivial
  | .inContainer before, line, text, hline, _ => by
    simp only [step]
    split_ifs
    · exact ⟨hline, Nat.le_refl line⟩
    · exact ⟨hline, Nat.lt_succ_self line⟩
    all_goals exact trivial
  | .inChild start before, line, text, _, hstart => by
    simp only [step]
    split_ifs
    · exact ⟨hstart.1, Nat.le_of_lt hstart.2⟩
    · exact ⟨hstart.1, Nat.lt_succ_of_lt hstart.2⟩

theorem truncates (text : List Char) : Truncates child.locate text := by
  have hlocate : child.locate = fun text =>
      Span.ofRange (scanLines text) (scanBy child.step .searching 1 (scanLines text)) := by
    funext text
    rw [locate, scan_eq_scanBy]
    rfl
  rw [hlocate]
  refine .of_scan (fun lines => scanBy child.step .searching 1 lines) text
    (fun lines first last h => ?_) fun lines k => ?_
  · have := scanBy_bounds child.steps (Nat.le_refl 1) State.begun_searching h
    omega
  · simp only [scanBy_take child.steps lines k (Nat.le_refl 1) State.begun_searching,
      Nat.lt_one_add_iff]

end NamedChild

section ResourceLists

theorem textBetween_take {k : Nat} (lines : List (List Char)) (first last : Place)
    (h : last.line ≤ k) : textBetween (lines.take k) first last = textBetween lines first last := by
  rw [textBetween, textBetween, List.take_take, Nat.min_eq_left h]

namespace ResourceList

/-- An element that is open begins in one of the lines in front of the given one. -/
def State.Begun (line : Nat) : State → Prop
  | .inside _ (some start) => 1 ≤ start.line ∧ start.line < line
  | .inside _ none => True
  | .searching => True

theorem State.begun_searching {line : Nat} : State.searching.Begun line := trivial

/-- The progress as a step. -/
def Progress.toStep : Progress → Nat ⊕ State
  | .found first => .inl first
  | .state next => .inr next

variable (list : ResourceList) (lines : List (List Char))

/-- What one line leads to. -/
def step (state : State) (line : Nat) (text : List Char) : Nat ⊕ State :=
  (list.scanLine lines state line text).toStep

theorem scan_eq_scanBy : ∀ (state : State) (line : Nat) (rest : List (List Char)),
    list.scan lines state line rest = scanBy (list.step lines) state line rest
  | _, _, [] => rfl
  | state, line, text :: rest => by
    rw [scan, scanBy, step]
    cases list.scanLine lines state line text with
    | found first => rfl
    | state next => exact scan_eq_scanBy next (line + 1) rest

theorem scanBrackets_take {k line : Nat} (h : line ≤ k) :
    ∀ (depth : Nat) (start : Option Place) (rest : List (Nat × Char)),
      list.scanBrackets (lines.take k) line depth start rest
        = list.scanBrackets lines line depth start rest
  | _, _, [] => rfl
  | depth, start, (column, c) :: rest => by
    have haccepts : ∀ first : Place, list.accepts (lines.take k) first ⟨line, column⟩
        = list.accepts lines first ⟨line, column⟩ := fun first => by
      rw [accepts, accepts, textBetween_take lines _ _ h]
    cases start <;> simp only [scanBrackets, haccepts, scanBrackets_take h]

theorem scanLine_take {k line : Nat} (state : State) (text : List Char) (h : line ≤ k) :
    list.scanLine (lines.take k) state line text = list.scanLine lines state line text := by
  cases state <;> simp only [scanLine, list.scanBrackets_take lines h]

theorem scanBrackets_begun {line : Nat} (hline : 1 ≤ line) :
    ∀ (depth : Nat) (start : Option Place) (rest : List (Nat × Char)),
      (State.inside depth start).Begun (line + 1) →
      (list.scanBrackets lines line depth start rest).toStep.elim
        (fun first => 1 ≤ first ∧ first ≤ line) (State.Begun (line + 1))
  | _, _, [], h => h
  | depth, none, (column, c) :: rest, _ => by
    have ih := fun depth start => scanBrackets_begun hline depth start rest
    simp only [scanBrackets]
    split_ifs
    · exact ih _ (some ⟨line, column⟩) ⟨hline, Nat.lt_succ_self line⟩
    · exact ih _ none trivial
    · exact trivial
    · exact ih _ none trivial
  | depth, some first, (column, c) :: rest, h => by
    have ih := fun depth start => scanBrackets_begun hline depth start rest
    simp only [scanBrackets]
    split_ifs
    · exact ih _ (some ⟨line, column⟩) ⟨hline, Nat.lt_succ_self line⟩
    · exact ih _ (some first) h
    · exact ⟨h.1, Nat.le_of_lt_succ h.2⟩
    · exact ih _ none trivial
    · exact trivial
    · exact ih _ (some first) h

theorem steps : Steps State.Begun (list.step lines)
  | .searching, line, text, hline, _ => by
    unfold step scanLine
    split_ifs
    · exact list.scanBrackets_begun lines hline 0 none _ trivial
    · exact trivial
  | .inside depth start, line, text, hline, hstate => by
    refine list.scanBrackets_begun lines hline depth start _ ?_
    cases start with
    | none => exact trivial
    | some first => exact ⟨hstate.1, Nat.lt_succ_of_lt hstate.2⟩

theorem truncates (text : List Char) : Truncates list.locate text := by
  have hlocate : list.locate = fun text => Span.ofRange (scanLines text)
      (scanBy (list.step (scanLines text)) .searching 1 (scanLines text)) := by
    funext text
    rw [locate, scan_eq_scanBy]
    rfl
  rw [hlocate]
  refine .of_scan (fun lines => scanBy (list.step lines) .searching 1 lines) text
    (fun lines first last h => ?_) fun lines k => ?_
  · have := scanBy_bounds (list.steps lines) (Nat.le_refl 1) State.begun_searching h
    omega
  · have hcongr : scanBy (list.step (lines.take k)) .searching 1 (lines.take k)
        = scanBy (list.step lines) .searching 1 (lines.take k) := by
      refine scanBy_congr (fun state line text h => ?_) _ 1 _
        (Nat.add_comm 1 k ▸ Nat.add_le_add_left (List.length_take_le k lines) 1)
      rw [step, step, list.scanLine_take lines state text h]
    rw [hcongr]
    simp only [scanBy_take (list.steps lines) lines k (Nat.le_refl 1) State.begun_searching,
      Nat.lt_one_add_iff]

end ResourceList

/-- **Both line scanners find in the first lines of a text what they find in the text**, unless it
ends further down. -/
theorem locate_truncates (text : List Char) :
    (∀ child : NamedChild, Truncates child.locate text)
      ∧ ∀ list : ResourceList, Truncates list.locate text :=
  ⟨fun child => child.truncates text, fun list => list.truncates text⟩

end ResourceLists

end TerraIndex
