import TerraIndex.Proofs.Json.Quoted
import TerraIndex.Proofs.Source.ListReading
import TerraIndex.Proofs.Source.Pattern
import Mathlib.Data.List.Basic
/-!
# The first element of a resource list

However the array of a resource list is laid out, `ResourceList.locate` returns the lines of the
first element that matches, from its opening brace to its closing brace (`locate_first`). The
array may be preceded by any lines that do not begin with the container's key and followed by
anything.
-/

namespace TerraIndex

open Json
open Text (quoteMinimal firstLine lastLine linesBelow splitNewlines scanLines dropCarriageReturns)

/-- The element is an object with the given strings under the keys of `fields` and none of the keys
in `absent`. -/
def ElementTest.Matches (test : ElementTest) (element : Raw) : Prop :=
  ∃ entries, element = .map entries ∧ (∀ key ∈ test.absent, entryAt? entries key = none)
    ∧ ∀ field ∈ test.fields, entryAt? entries field.1 = some (.text field.2)

theorem ElementTest.isText_iff (value : Option Raw) (s : String) :
    isText value s = true ↔ value = some (.text s) := by
  unfold isText
  split <;> simp_all

theorem ElementTest.accepts_iff (test : ElementTest) (element : Raw) :
    test.accepts element = true ↔ test.Matches element := by
  unfold accepts Matches
  split
  · simp [isText_iff, hasEntry]
  · simp_all

/-- What stands in front of the value of the first container: lines that open none, then a line
that begins with the container's key and a colon. -/
inductive Heading (key : String) : List Char → Prop
  | key {w w' w'' : List Char} : Margin w → Margin w' → Margin w'' →
      Heading key (w ++ (quoteMinimal key.toList ++ (w' ++ ':' :: w'')))
  | line {line t : List Char} : '\n' ∉ line → opensContainer key line = false → Heading key t →
      Heading key (line ++ '\n' :: t)

namespace ResourceList

variable (list : ResourceList) (lines : List (List Char))

section ScannedLines

theorem bracketsFrom_append_returns {w : List Char} (hw : ∀ c ∈ w, c = '\r') :
    ∀ (column : Nat) (state : QuoteState) (line : List Char),
      bracketsFrom column state (line ++ w) = bracketsFrom column state line
  | column, state, [] => by
    induction w generalizing column state with
    | nil => rfl
    | cons c w ih =>
      obtain ⟨rfl, hcs⟩ := List.forall_mem_cons.mp hw
      have ih' := fun column state => ih hcs column state
      cases state <;> simp_all [bracketsFrom, isOpening, isClosing]
  | column, .escaped, c :: line => by
    simp only [List.cons_append, bracketsFrom]
    exact bracketsFrom_append_returns hw _ _ line
  | column, .inside, c :: line => by
    simp only [List.cons_append, bracketsFrom]
    exact bracketsFrom_append_returns hw _ _ line
  | column, .outside, c :: line => by
    simp only [List.cons_append, bracketsFrom]
    rw [bracketsFrom_append_returns hw, bracketsFrom_append_returns hw]

theorem drop_takeWhile_length (p : Char → Bool) (cs : List Char) :
    cs.drop (cs.takeWhile p).length = cs.dropWhile p := by
  calc cs.drop (cs.takeWhile p).length
      = (cs.takeWhile p ++ cs.dropWhile p).drop (cs.takeWhile p).length := by
        rw [List.takeWhile_append_dropWhile]
    _ = cs.dropWhile p := List.drop_left

theorem brackets_indented (line : List Char) :
    brackets line (line.takeWhile Text.isBlank).length
      = bracketsFrom (line.takeWhile Text.isBlank).length .outside (Text.trimStart line) := by
  rw [brackets, drop_takeWhile_length, Text.trimStart]

theorem length_takeWhile_blank (line : List Char) :
    (line.takeWhile Text.isBlank).length + (Text.trimStart line).length = line.length := by
  rw [Text.trimStart, ← List.length_append, List.takeWhile_append_dropWhile]

/-- A line that opens a container is indented by as much without its carriage returns. -/
theorem takeWhile_dropCarriageReturns {key : String} {line : List Char}
    (h : opensContainer key line = true) :
    ((dropCarriageReturns line).takeWhile Text.isBlank).length
      = (line.takeWhile Text.isBlank).length := by
  have hne : Text.trimStart (dropCarriageReturns line) ≠ [] := by
    intro hnil
    have htrim : Text.trim (dropCarriageReturns line) = Text.trim [] := by
      rw [Text.trim, hnil]
      rfl
    rw [← opensContainer_dropCarriageReturns, opensContainer, htrim, ← opensContainer,
      (lacksKey_nil key).opensContainer] at h
    exact absurd h (by decide)
  obtain ⟨w, hline, -⟩ := Text.dropCarriageReturns_spec line
  have hstart := Text.trimStart_append_of_ne_nil w hne
  have hlen := length_takeWhile_blank line
  have hlen' := length_takeWhile_blank (dropCarriageReturns line)
  rw [← hline] at hstart
  rw [hstart, List.length_append] at hlen
  have htotal := congrArg List.length hline
  rw [List.length_append] at htotal
  omega

theorem scanLine_dropCarriageReturns (state : State) (line : Nat) (text : List Char) :
    list.scanLine lines state line (dropCarriageReturns text)
      = list.scanLine lines state line text := by
  cases state with
  | inside depth start =>
    obtain ⟨w, htext, hw⟩ := Text.dropCarriageReturns_spec text
    have hb : brackets text 0 = brackets (dropCarriageReturns text) 0 := by
      conv_lhs => rw [htext]
      exact bracketsFrom_append_returns hw 0 .outside _
    rw [scanLine, scanLine, hb]
  | searching =>
    rw [scanLine, scanLine, opensContainer_dropCarriageReturns]
    split_ifs with hopens
    · rw [brackets_indented, brackets_indented, takeWhile_dropCarriageReturns hopens]
      obtain ⟨w, hw, htext⟩ := Text.trimStart_dropCarriageReturns text
      rw [htext, bracketsFrom_append_returns hw]
    · rfl

theorem scan_map_dropCarriageReturns (state : State) (n : Nat) (text : List (List Char)) :
    list.scan lines state n (text.map dropCarriageReturns) = list.scan lines state n text := by
  induction text generalizing state n with
  | nil => rfl
  | cons line text ih =>
    rw [List.map_cons, scan, scan, scanLine_dropCarriageReturns]
    split <;> simp [ih]

theorem scanLine_nil (state : State) (line : Nat) :
    list.scanLine lines state line [] = .state state := by
  cases state <;>
    simp [scanLine, (lacksKey_nil _).opensContainer, brackets, bracketsFrom, scanBrackets]

theorem scan_append_empty (state : State) (n : Nat) (text : List (List Char)) :
    list.scan lines state n (text ++ [[]]) = list.scan lines state n text := by
  induction text generalizing state n with
  | nil => simp [scan, scanLine_nil]
  | cons line text ih =>
    rw [List.cons_append, scan, scan]
    split <;> simp [ih]

/-- Carriage returns at the ends of lines and a final newline make no difference. -/
theorem scan_scanLines (state : State) (n : Nat) (text : List Char) :
    list.scan lines state n (scanLines text) = list.scan lines state n (splitNewlines text) := by
  rw [scanLines, scan_map_dropCarriageReturns]
  unfold Text.dropFinalEmpty
  split
  · rename_i h
    rw [← scan_append_empty, List.dropLast_append_getLast? [] h]
  · rfl

end ScannedLines

section EnteringList

theorem isBlank_of_bracket {c : Char} (hc : (isOpening c || isClosing c) = true) :
    Text.isBlank c = false := by
  simp only [isOpening, isClosing, Bool.or_eq_true, beq_iff_eq] at hc
  rcases hc with (rfl | rfl) | (rfl | rfl) <;> decide

theorem quiet_margin {w : List Char} (hw : Margin w) : Quiet w :=
  quiet_of_forall fun c hc => by
    obtain ⟨hblank, hn⟩ := hw c hc
    have hbracket : (isOpening c || isClosing c) = false := by
      by_contra hb
      rw [Bool.not_eq_false] at hb
      rw [isBlank_of_bracket hb] at hblank
      exact absurd hblank Bool.false_ne_true
    refine ⟨hn, ?_, Bool.or_eq_false_iff.mp hbracket⟩
    rintro rfl
    exact absurd hblank (by decide)

theorem quiet_quoteMinimal (s : List Char) : Quiet (quoteMinimal s) :=
  quiet_quoted (stringBody_minimal s)

/-- An indented line is read from its first token on. -/
theorem brackets_quiet {w q : List Char} (cs : List Char) (hw : ∀ c ∈ w, Text.isBlank c = true)
    (hq : Quiet q) (hhead : q.head? = some '"') :
    brackets (w ++ (q ++ cs)) ((w ++ (q ++ cs)).takeWhile Text.isBlank).length
      = bracketsFrom (w ++ q).length .outside cs := by
  obtain ⟨t, rfl⟩ := List.head?_eq_some_iff.mp hhead
  have hwidth : (w ++ ('"' :: t ++ cs)).takeWhile Text.isBlank = w := by
    rw [List.takeWhile_append_of_pos hw]
    simp [show Text.isBlank '"' = false by decide]
  rw [brackets_indented, hwidth, Text.trimStart_append _ hw, List.cons_append,
    Text.trimStart_cons _ (by decide), ← List.cons_append, hq.2, List.length_append]

theorem scan_heading {heading : List Char} {b : Char} (hb : isOpening b = true)
    (h : Heading list.container heading) (front cs : List Char) (hfront : lastLine front = []) :
    list.scan lines .searching (Place.after front).line (splitNewlines (heading ++ b :: cs))
      = list.readOn lines 0 none (front ++ heading) (b :: cs) := by
  induction h generalizing front with
  | @key w w' w'' hw hw' hw'' =>
    have hkey : Quiet (quoteMinimal list.container.toList ++ (w' ++ ':' :: w'')) :=
      (quiet_quoteMinimal _).append ((quiet_margin hw').append
        (quiet_colon.append (quiet_margin hw'')))
    have hheading : Quiet (w ++ (quoteMinimal list.container.toList ++ (w' ++ ':' :: w''))) :=
      (quiet_margin hw).append hkey
    have hbracket : (isOpening b || isClosing b) = true := by rw [hb, Bool.true_or]
    have hfl : firstLine (b :: cs) = b :: firstLine cs :=
      Text.firstLine_append cs (newline_notMem_bracket hbracket)
    have hblank := isBlank_of_bracket hbracket
    have hopens := opensContainer_key list.container (firstLine cs) hw hw' hw'' hblank
    rw [hb] at hopens
    have hbrackets := fun more : List Char => brackets_quiet more (fun c hc => (hw c hc).1) hkey rfl
    have hplace := Place.after_append front hheading.1
    rw [Text.splitNewlines_append_of_not_mem _ hheading.1, hfl, scan, scanLine, readOn, hplace, hfl]
    simp only [Place.after, hfront, List.length_nil, Nat.zero_add]
    simp only [List.append_assoc, List.cons_append] at hopens hbrackets ⊢
    rewrite [if_pos hopens, hbrackets (b :: firstLine cs)]
    rfl
  | @line line t hline hopens _ ih =>
    have hsplit : splitNewlines (line ++ '\n' :: t ++ b :: cs)
        = line :: splitNewlines (t ++ b :: cs) := by
      rw [List.append_assoc, Text.splitNewlines_append_of_not_mem _ hline, List.cons_append,
        Text.firstLine_newline, Text.linesBelow_newline, List.append_nil]
    have hnext : (Place.after (front ++ (line ++ ['\n']))).line = (Place.after front).line + 1 := by
      simp [Place.after, List.count_eq_zero_of_not_mem hline]
    have ih' := ih (front ++ (line ++ ['\n'])) (by rw [← List.append_assoc, Text.lastLine_newline])
    rw [hnext] at ih'
    rw [hsplit, scan, scanLine, hopens]
    simpa using ih'

end EnteringList

section FirstElement

/-- Behind the items `earlier`, none of which passes the test, the scan finds the first of the
remaining items that does. -/
theorem readOn_first (heading rest : List Char) : ∀ {vs : List Raw} {u : List Char},
    MoreItems vs u → ∀ {v : Raw} {earlier : List Raw} {p t : List Char}, ItemsBefore earlier p →
    Written v t → (∀ e ∈ earlier, list.test.accepts e = false) →
    (∃ item ∈ v :: vs, list.test.accepts item = true) →
    lines = scanLines (heading ++ (p ++ (t ++ (u ++ rest)))) →
    ∃ earlier' item later before element after,
      earlier ++ v :: vs = earlier' ++ item :: later ∧ p ++ (t ++ u) = before ++ (element ++ after)
      ∧ ItemsBefore earlier' before ∧ Written item element ∧ MoreItems later after
      ∧ (∀ e ∈ earlier', list.test.accepts e = false) ∧ list.test.accepts item = true
      ∧ list.readOn lines 1 none (heading ++ p) (t ++ (u ++ rest))
        = some ((Place.after (heading ++ before)).line,
            (Place.after (heading ++ (before ++ element))).line)
  | _, _, hu, v, earlier, p, t, hp, ht, hrej, hex, hlines => by
    have hread := readOn_value list lines (heading ++ p) _ ht (by simpa using hlines)
    by_cases hv : list.test.accepts v = true
    · rw [if_pos hv] at hread
      exact ⟨earlier, v, _, p, t, _, rfl, rfl, hp, ht, hu, hrej, hv, by simpa using hread⟩
    · rw [if_neg hv] at hread
      cases hu with
      | last => simp [hv] at hex
      | @next v' vs' w w' t' u' hw hw' ht' hu' =>
        have hp' := ItemsBefore.next hp ht hw hw'
        have hrej' : ∀ e ∈ earlier ++ [v], list.test.accepts e = false := by
          intro e he
          rcases List.mem_append.mp he with he | he
          · exact hrej e he
          · rw [List.mem_singleton.mp he]
            simpa using hv
        have hex' : ∃ item ∈ v' :: vs', list.test.accepts item = true := by
          obtain ⟨item, hitem, ha⟩ := hex
          rcases List.mem_cons.mp hitem with rfl | hitem
          · exact absurd ha hv
          · exact ⟨item, hitem, ha⟩
        obtain ⟨earlier', item, later, before, element, after, hitems, htext, hb, he, ha, hne, hi,
          hr⟩ := readOn_first heading rest hu' hp' ht' hrej' hex' (by simpa using hlines)
        refine ⟨earlier', item, later, before, element, after, by simpa using hitems,
          by simpa using htext, hb, he, ha, hne, hi, ?_⟩
        simp only [List.append_assoc, List.cons_append] at hread hr ⊢
        rw [hread, readOn_blanks _ _ _ _ _ _ hw, ← List.singleton_append,
          readOn_quiet _ _ _ _ _ _ quiet_comma, readOn_blanks _ _ _ _ _ _ hw', ← hr]
        simp

theorem locate_of_scan {text : List Char} {first last : Nat}
    (h : list.scan (scanLines text) .searching 1 (scanLines text) = some (first, last)) :
    list.locate text = .ofLines text first last := by
  rw [locate, h]
  rfl

/-- Where the container is an array in which some item matches, the array's text has the first
matching item standing behind all items in front of it, and its lines are what is found. As in every
written value, no integer of the array has more than `maxIntegerDigits` digits. -/
theorem locate_first {items : List Raw} {heading array : List Char} (rest : List Char)
    (hheading : Heading list.container heading) (harray : Written (.list items) array)
    (hmatch : ∃ item ∈ items, list.test.Matches item) :
    ∃ earlier item later before element after,
      items = earlier ++ item :: later ∧ array = before ++ (element ++ after)
      ∧ ItemsBefore earlier before ∧ Written item element ∧ MoreItems later after
      ∧ (∀ other ∈ earlier, ¬ list.test.Matches other) ∧ list.test.Matches item
      ∧ list.locate (heading ++ (array ++ rest))
        = .ofLines (heading ++ (array ++ rest)) ((heading ++ before).count '\n' + 1)
            ((heading ++ (before ++ element)).count '\n' + 1) := by
  cases harray with
  | word h => cases h
  | numeral h => cases h
  | emptyList => simp at hmatch
  | @list v vs w t u hw ht hu =>
    generalize htext : heading ++ ('[' :: (w ++ (t ++ u)) ++ rest) = text
    have hex : ∃ item ∈ v :: vs, list.test.accepts item = true := by
      obtain ⟨item, hitem, hm⟩ := hmatch
      exact ⟨item, hitem, (list.test.accepts_iff item).mpr hm⟩
    obtain ⟨earlier, item, later, before, element, after, hitems, harray, hb, he, ha, hrej, hi,
        hr⟩ :=
      readOn_first list (scanLines text) heading rest hu (.first hw) ht (by simp) hex
        (by rw [← htext]; simp)
    refine ⟨earlier, item, later, before, element, after, by simpa using hitems,
      by simpa using harray, hb, he, ha, fun other ho hm => ?_,
      (list.test.accepts_iff item).mp hi, ?_⟩
    · have := hrej other ho
      rw [(list.test.accepts_iff other).mpr hm] at this
      exact absurd this (by decide)
    · have hscan := scan_heading list (scanLines text) (b := '[') (by rfl) hheading []
        (w ++ (t ++ (u ++ rest))) rfl
      have hread : list.readOn (scanLines text) 0 none heading ('[' :: (w ++ (t ++ (u ++ rest))))
          = list.readOn (scanLines text) 1 none (heading ++ '[' :: w) (t ++ (u ++ rest)) := by
        rw [readOn_opening _ _ _ _ _ _ (by rfl), if_neg (by decide), readOn_blanks _ _ _ _ _ _ hw]
        simp
      have hlines : heading ++ '[' :: (w ++ (t ++ (u ++ rest))) = text := by
        rw [← htext]
        simp
      rw [List.nil_append, hread, hr, hlines, ← scan_scanLines] at hscan
      exact locate_of_scan list hscan

/-- A number stands in front of the matching object, whose key and value are on different lines. -/
theorem locate_first_broken_lines :
    let test : ElementTest := ⟨[(String.ofList ['a'], String.ofList ['b'])], []⟩
    let heading := ['\x7b'] ++ '\n' :: (quoteMinimal "resources".toList ++ [':', ' '])
    let object := ['\x7b', '"', 'a', '"', ':', '\n', '"', 'b', '"', '\x7d']
    let array := ['[', '1', ','] ++ (object ++ ['\n', ']'])
    let items : List Raw := [.int 1, .map [(String.ofList ['a'], .text (String.ofList ['b']))]]
    Heading "resources" heading ∧ Written (.list items) array
      ∧ ∃ earlier item later before element after,
        items = earlier ++ item :: later ∧ array = before ++ (element ++ after)
        ∧ ItemsBefore earlier before ∧ Written item element ∧ MoreItems later after
        ∧ (∀ other ∈ earlier, ¬ test.Matches other) ∧ test.Matches item
        ∧ ResourceList.locate ⟨"resources", test⟩ (heading ++ (array ++ ['\x7d']))
          = .ofLines (heading ++ (array ++ ['\x7d'])) ((heading ++ before).count '\n' + 1)
              ((heading ++ (before ++ element)).count '\n' + 1) := by
  intro test heading object array items
  have hkey : Heading "resources"
      ([] ++ (quoteMinimal "resources".toList ++ ([] ++ ':' :: [' ']))) :=
    .key (by decide) (by decide) (by decide)
  have hheading : Heading "resources" heading := .line (by decide) (by rfl) hkey
  have hletter : ∀ c : Char, c ≠ '"' → c ≠ '\\' → 0x20 ≤ c.toNat → StringBody [c] [c] :=
    fun c hq hb hc => .plain hq hb hc .nil
  have hnewline : Blanks ['\n'] := by decide
  have ha := hletter 'a' (by decide) (by decide) (by decide)
  have hb := hletter 'b' (by decide) (by decide) (by decide)
  have hdigit : Whole ['1'] := .digits (by decide) (by decide)
  have hone : Written (.int 1) ['1'] := .numeral (Numeral.int false hdigit (by decide) :)
  have hmember := Member.mk ha blanks_nil hnewline (.text hb)
  have hobject : Written (.map [(String.ofList ['a'], .text (String.ofList ['b']))]) object :=
    (Written.map blanks_nil hmember (.last blanks_nil) :)
  have hlater := MoreItems.next blanks_nil blanks_nil hobject (.last hnewline)
  have harray : Written (.list items) array := (Written.list blanks_nil hone hlater :)
  have hmatch : ∃ item ∈ items, test.Matches item :=
    ⟨_, List.mem_cons_of_mem _ (List.mem_singleton_self _), _, rfl, by simp [test],
      by simp [test, entryAt?]⟩
  exact ⟨hheading, harray, locate_first ⟨"resources", test⟩ _ hheading harray hmatch⟩

end FirstElement

end ResourceList

end TerraIndex
