import TerraIndex.Hcl.Lexer
import TerraIndex.Proofs.Text.Lines
import Mathlib.Data.List.Basic
import Mathlib.Data.List.TakeWhile
/-!
# Lexemes

What a lexeme takes from the front of a text, and what it depends on behind that: with the closing
brace of a block in place of all lines below some line behind it, the same lexeme is read
(`scanLexeme_cut`). A heredoc without its end is no heredoc, so a text in which the end of one is
missing may not gain it; a closing brace on a line of its own is no part of such an end.
-/

namespace TerraIndex.Hcl

/-- A closing brace on a line of its own. -/
def closingLine : List Char := ['}', '\n']

section Words

variable {word : List Char}

theorem isPrefixOf_append_of_length {cs : List Char} (h : word.length ≤ cs.length)
    (more : List Char) :
    word.isPrefixOf (cs ++ more) = word.isPrefixOf cs := by
  rw [Bool.eq_iff_iff, List.isPrefixOf_iff_prefix, List.isPrefixOf_iff_prefix]
  exact ⟨fun hprefix => List.prefix_of_prefix_length_le hprefix (List.prefix_append cs more) h,
    fun hprefix => hprefix.trans (List.prefix_append cs more)⟩

/-- The first occurrence of a word is found whatever follows it. -/
theorem splitAtWord_some : ∀ {cs before left : List Char},
    splitAtWord word cs = some (before, left) →
    cs = before ++ (word ++ left)
      ∧ ∀ left', splitAtWord word (before ++ (word ++ left')) = some (before, left')
  | [], before, left, h => by
    simp only [splitAtWord] at h
    split at h
    · rename_i hempty
      obtain ⟨rfl, rfl⟩ := Prod.mk.inj (Option.some.inj h)
      obtain rfl := List.isEmpty_iff.mp hempty
      refine ⟨rfl, fun left' => ?_⟩
      cases left' <;> simp [splitAtWord]
    · cases h
  | c :: cs, before, left, h => by
    rw [splitAtWord] at h
    split at h
    · rename_i hprefix
      obtain ⟨rest, hrest⟩ := List.isPrefixOf_iff_prefix.mp hprefix
      obtain ⟨rfl, rfl⟩ := Prod.mk.inj (Option.some.inj h)
      refine ⟨by rw [← hrest, List.drop_left, List.nil_append], fun left' => ?_⟩
      rw [List.nil_append]
      cases hfull : word ++ left' with
      | nil =>
        obtain ⟨rfl, rfl⟩ := List.append_eq_nil_iff.mp hfull
        rfl
      | cons d ds =>
        rw [splitAtWord, ← hfull, if_pos (List.isPrefixOf_iff_prefix.mpr (List.prefix_append _ _)),
          List.drop_left]
    · rename_i hprefix
      obtain ⟨⟨before, left⟩, hfound, heq⟩ := Option.map_eq_some_iff.mp h
      obtain ⟨rfl, rfl⟩ := Prod.mk.inj heq
      obtain ⟨rfl, hmoved⟩ := splitAtWord_some hfound
      refine ⟨rfl, fun left' => ?_⟩
      rw [List.cons_append, splitAtWord, if_neg, hmoved]
      · rfl
      · -- an occurrence that starts before the first one would end inside it
        intro hnew
        have hlength : word.length ≤ (c :: (before ++ word)).length := by
          simp only [List.length_cons, List.length_append]
          omega
        rw [← List.append_assoc, ← List.cons_append, isPrefixOf_append_of_length hlength] at hprefix
        rw [← List.append_assoc, ← List.cons_append, isPrefixOf_append_of_length hlength] at hnew
        exact hprefix hnew

theorem splitAtWord_char {c : Char} : ∀ {cs before left : List Char},
    splitAtWord [c] cs = some (before, left) → c ∉ before
  | [], before, left, h => by cases h
  | d :: cs, before, left, h => by
    rw [splitAtWord] at h
    split at h
    · obtain ⟨rfl, -⟩ := Prod.mk.inj (Option.some.inj h)
      exact List.not_mem_nil
    · rename_i hprefix
      obtain ⟨⟨before, left⟩, hfound, heq⟩ := Option.map_eq_some_iff.mp h
      obtain ⟨rfl, -⟩ := Prod.mk.inj heq
      rw [List.mem_cons, not_or]
      refine ⟨fun hcd => hprefix ?_, splitAtWord_char hfound⟩
      rw [hcd, List.isPrefixOf_iff_prefix]
      exact ⟨cs, rfl⟩

theorem splitAtWord_eq_none : ∀ {cs : List Char}, splitAtWord word cs = none ↔ ¬ word <:+: cs
  | [] => by
    simp only [splitAtWord, List.infix_nil]
    split <;> simp_all
  | c :: cs => by
    rw [splitAtWord, List.infix_cons_iff, ← List.isPrefixOf_iff_prefix]
    split
    · simp_all
    · simp_all [@splitAtWord_eq_none cs]

/-- A word that holds neither character of a closing line occurs in no text that ends in one, if it
does not occur in front of it. -/
theorem splitAtWord_closing {front rest : List Char} (hword : word ≠ [])
    (hbrace : '}' ∉ word) (hnewline : '\n' ∉ word) (h : splitAtWord word (front ++ rest) = none) :
    splitAtWord word (front ++ closingLine) = none := by
  rw [splitAtWord_eq_none] at h ⊢
  intro hinfix
  rw [List.infix_append_iff] at hinfix
  rcases hinfix with hfront | hclosing | ⟨a, b, hab, ha, hb⟩
  · exact h (hfront.trans (List.infix_append [] front rest))
  · obtain ⟨c, hc⟩ := List.exists_mem_of_ne_nil word hword
    have hmem := hclosing.subset hc
    simp only [closingLine, List.mem_cons, List.not_mem_nil, or_false] at hmem
    rcases hmem with rfl | rfl
    · exact hbrace hc
    · exact hnewline hc
  · rcases b with _ | ⟨c, b⟩
    · rw [List.append_nil] at hab
      exact h (hab ▸ ha.isInfix.trans (List.infix_append [] front rest))
    · obtain ⟨more, hmore⟩ := hb
      obtain ⟨rfl, -⟩ := List.cons.inj hmore
      exact hbrace (by rw [hab]; simp)

end Words

section QuotedStrings

/-- What a text and a quote begin with does not depend on what follows the quote. -/
theorem head_behindQuote (left : List Char) {content left' rest : List Char} {c : Char}
    (hc : c ≠ '"')
    (h : content ++ '"' :: left' = c :: rest) :
    ∃ rest, content ++ '"' :: left = c :: rest := by
  rcases content with _ | ⟨d, content⟩
  · exact absurd (List.cons.inj h).1.symm hc
  · obtain ⟨rfl, -⟩ := List.cons.inj h
    exact ⟨_, rfl⟩

/-- What is read of a quoted string ends at a quote and is read whatever follows it. -/
def ReadsQuoted (state : QuotedState) (cs : List Char) : Prop :=
  ∀ ⦃content left : List Char⦄, scanQuoted state cs = some (content, left) →
    cs = content ++ '"' :: left
      ∧ ∀ left', scanQuoted state (content ++ '"' :: left') = some (content, left')

/-- A step of a scan over a piece of the text, which does not depend on what follows the quote. -/
theorem ReadsQuoted.step {state state' : QuotedState} {cs content left : List Char}
    (piece : List Char) (ih : ReadsQuoted state' cs)
    (h : (scanQuoted state' cs).map (fun (s, left) => (piece ++ s, left)) = some (content, left))
    (hstep : ∀ content left left', cs = content ++ '"' :: left →
      scanQuoted state (piece ++ (content ++ '"' :: left'))
        = (scanQuoted state' (content ++ '"' :: left')).map fun (s, left) => (piece ++ s, left)) :
    piece ++ cs = content ++ '"' :: left
      ∧ ∀ left', scanQuoted state (content ++ '"' :: left') = some (content, left') := by
  obtain ⟨⟨content, left⟩, hrest, heq⟩ := Option.map_eq_some_iff.mp h
  obtain ⟨rfl, rfl⟩ := Prod.mk.inj heq
  obtain ⟨hcs, hmoved⟩ := ih hrest
  refine ⟨by rw [hcs, List.append_assoc], fun left' => ?_⟩
  rw [List.append_assoc, hstep content left left' hcs, hmoved]
  rfl

/-- A quoted string is read to its end whatever follows it. -/
theorem scanQuoted_some (state : QuotedState) (cs : List Char) : ReadsQuoted state cs := by
  unfold ReadsQuoted
  fun_induction scanQuoted state cs
  all_goals intro content left h
  case case2 rest =>
    obtain ⟨rfl, rfl⟩ := Prod.mk.inj (Option.some.inj h)
    exact ⟨rfl, fun _ => rfl⟩
  case case5 c rest hc ih =>
    refine ReadsQuoted.step ['\\', c] ih h fun content left left' _ => ?_
    exact (scanQuoted.eq_4 c _).trans (if_neg hc)
  case case7 c rest hquote hlast hescape htemplate ih =>
    refine ReadsQuoted.step [c] ih h fun content left left' hcs => ?_
    rw [List.singleton_append, scanQuoted]
    · rfl
    · exact hquote
    · rintro rfl hnil
      simp at hnil
    · rintro d more rfl -
      rcases hnext : content ++ '"' :: left with _ | ⟨d', more'⟩
      · simp at hnext
      · exact hescape d' more' rfl (hcs.trans hnext)
    · rintro more rfl hbrace
      obtain ⟨more', hmore'⟩ := head_behindQuote left (by decide) hbrace
      exact htemplate more' rfl (hcs.trans hmore')
  case case6 rest ih => exact ReadsQuoted.step ['$', '\x7b'] ih h fun _ _ _ _ => rfl
  case case8 rest ih => exact ReadsQuoted.step ['\x7d'] ih h fun _ _ _ _ => rfl
  case case10 filled rest ih => exact ReadsQuoted.step ['$', '\x7b'] ih h fun _ _ _ _ => rfl
  case case11 filled c rest hbrace htemplate ih =>
    refine ReadsQuoted.step [c] ih h fun content left left' hcs => ?_
    rw [List.singleton_append, scanQuoted]
    · rfl
    · exact hbrace
    · rintro more rfl hopen
      obtain ⟨more', hmore'⟩ := head_behindQuote left (by decide) hopen
      exact htemplate more' rfl (hcs.trans hmore')
  case case12 rest ih => exact ReadsQuoted.step ['\x7d'] ih h fun _ _ _ _ => rfl
  case case14 filled c rest hbrace ih =>
    refine ReadsQuoted.step [c] ih h fun content left left' _ => ?_
    rw [List.singleton_append, scanQuoted]
    · rfl
    · exact hbrace
  all_goals cases h

end QuotedStrings

section Line

variable {l m : List Char}

theorem takeWhile_line {p : Char → Bool} (hp : p '\n' = false) : ∀ l : List Char,
    (l ++ '\n' :: m).takeWhile p = l.takeWhile p
      ∧ (l ++ '\n' :: m).dropWhile p = l.dropWhile p ++ '\n' :: m
  | [] => by simp [hp]
  | c :: l => by
    obtain ⟨htake, hdrop⟩ := takeWhile_line hp l
    rw [List.cons_append, List.takeWhile_cons, List.takeWhile_cons, List.dropWhile_cons,
      List.dropWhile_cons, htake, hdrop]
    split <;> exact ⟨rfl, rfl⟩

/-- A text that ends in a newline begins with a line. -/
theorem exists_line {cs : List Char} (h : cs.getLast? = some '\n') :
    ∃ l more, cs = l ++ '\n' :: more ∧ '\n' ∉ l :=
  List.eq_append_cons_of_mem (List.mem_of_getLast? h)

/-- A word of one line is found at the front of a line or not at all. -/
theorem isPrefixOf_line {word : List Char} (hword : '\n' ∉ word) :
    word.isPrefixOf (l ++ '\n' :: m) = word.isPrefixOf l := by
  rw [Bool.eq_iff_iff, List.isPrefixOf_iff_prefix, List.isPrefixOf_iff_prefix]
  refine ⟨fun hprefix => ?_, fun hprefix => hprefix.trans (List.prefix_append _ _)⟩
  rcases Nat.lt_or_ge l.length word.length with hlong | hshort
  · obtain ⟨rest, rfl⟩ := List.prefix_of_prefix_length_le (List.prefix_append l _) hprefix
      (Nat.le_of_lt hlong)
    rcases rest with _ | ⟨c, rest⟩
    · simp at hlong
    · obtain ⟨rfl, -⟩ := List.cons_prefix_cons.mp ((List.prefix_append_right_inj l).mp hprefix)
      exact absurd (List.mem_append_right _ (List.mem_cons_self ..)) hword
  · exact List.prefix_of_prefix_length_le hprefix (List.prefix_append _ _) hshort

end Line

section Heredocs

/-- A heredoc from its marker on. -/
def heredocFrom (indented : Bool) : List Char → Option Lexeme
  | [] => none
  | c :: rest =>
    match rest.dropWhile isMarkerRest with
    | '\n' :: below =>
      if c.isAlpha && 2 ≤ (c :: rest.takeWhile isMarkerRest).length then
        (splitAtWord (c :: rest.takeWhile isMarkerRest) below).map fun (content, left) =>
          ⟨some (.heredoc (if indented then unindent (trimHeredoc content)
            else trimHeredoc content)), content.count '\n' + 1, left⟩
      else none
    | _ => none

theorem scanHeredoc_dash (cs : List Char) : scanHeredoc ('-' :: cs) = heredocFrom true cs := by
  cases cs <;> rfl

theorem scanHeredoc_eq {cs : List Char} (h : cs.head? ≠ some '-') :
    scanHeredoc cs = heredocFrom false cs := by
  rcases cs with _ | ⟨c, cs⟩
  · rfl
  · have hc : c ≠ '-' := fun heq => h (by rw [heq]; rfl)
    unfold scanHeredoc
    split
    rename_i heq
    split at heq
    · exact absurd (List.cons.inj (by assumption)).1 hc
    · obtain ⟨rfl, rfl⟩ := Prod.mk.inj heq
      rfl

theorem isMarkerRest_newline : isMarkerRest '\n' = false := by decide

theorem isMarkerRest_brace : isMarkerRest '}' = false := by decide

theorem not_mem_takeWhile {p : Char → Bool} {c : Char} (hc : p c = false) (cs : List Char) :
    c ∉ cs.takeWhile p := fun hmem =>
  Bool.false_ne_true (hc.symm.trans (List.mem_takeWhile_imp hmem))

/-- A heredoc that has its end is read whatever follows it. -/
theorem heredocFrom_some {indented : Bool} {cs left : List Char} {token? : Option Token}
    {newlines : Nat} (h : heredocFrom indented cs = some ⟨token?, newlines, left⟩) :
    ∃ c used content, cs = c :: (used ++ left) ∧ c.isAlpha = true
      ∧ newlines = (c :: used).count '\n' ∧ token? = some (.heredoc content)
      ∧ ∀ left', heredocFrom indented (c :: (used ++ left')) = some ⟨token?, newlines, left'⟩ := by
  rcases cs with _ | ⟨c, rest⟩
  · cases h
  rw [heredocFrom] at h
  split at h
  · rename_i below hbelow
    split at h
    · rename_i hmarker
      obtain ⟨⟨content, left⟩, hsplit, heq⟩ := Option.map_eq_some_iff.mp h
      obtain ⟨rfl, rfl, rfl⟩ := Lexeme.mk.inj heq
      obtain ⟨rfl, hmoved⟩ := splitAtWord_some hsplit
      have halpha := (Bool.and_eq_true_iff.mp hmarker).1
      have hc : c ≠ '\n' := by
        rintro rfl
        exact absurd halpha (by decide)
      have hmark := not_mem_takeWhile isMarkerRest_newline rest
      generalize hw : rest.takeWhile isMarkerRest = word at *
      have hrest : rest = word ++ '\n' :: (content ++ (c :: word ++ left)) := by
        rw [← hbelow, ← hw, List.takeWhile_append_dropWhile]
      refine ⟨c, word ++ '\n' :: (content ++ c :: word), _, ?_, halpha, ?_, rfl, fun left' => ?_⟩
      · rw [hrest]
        simp
      · simp only [List.count_cons, List.count_append, List.count_eq_zero_of_not_mem hmark,
          beq_iff_eq]
        simp [hc]
      · have hall : ∀ d ∈ word, isMarkerRest d = true := fun d hd =>
          List.mem_takeWhile_imp (hw ▸ hd)
        have hbehind : word ++ '\n' :: (content ++ c :: word) ++ left'
            = word ++ '\n' :: (content ++ (c :: word ++ left')) := by simp
        obtain ⟨htake, hdrop⟩ :=
          takeWhile_line (m := content ++ (c :: word ++ left')) isMarkerRest_newline word
        rw [List.takeWhile_eq_self_iff.mpr hall] at htake
        rw [List.dropWhile_eq_nil_iff.mpr hall] at hdrop
        rw [heredocFrom, hbehind, hdrop]
        simp only [htake, List.nil_append]
        rw [if_pos hmarker, hmoved]
        rfl
    · cases h
  · cases h

/-- A heredoc that lacks its end still does with a closing brace below. -/
theorem heredocFrom_none {indented : Bool} {front rest : List Char}
    (h : heredocFrom indented (front ++ rest) = none) (hfront : front.getLast? = some '\n') :
    heredocFrom indented (front ++ closingLine) = none := by
  rcases front with _ | ⟨c, front⟩
  · cases hfront
  rcases front with _ | ⟨d, front⟩
  · obtain rfl := Option.some.inj hfront
    rfl
  · rw [List.getLast?_cons_cons] at hfront
    obtain ⟨l, more, hline, hl⟩ := exists_line hfront
    obtain ⟨htake, hdrop⟩ := takeWhile_line (m := more ++ rest) isMarkerRest_newline l
    obtain ⟨htake', hdrop'⟩ := takeWhile_line (m := more ++ closingLine) isMarkerRest_newline l
    rw [hline, List.cons_append, List.append_assoc, List.cons_append, heredocFrom] at h ⊢
    rw [htake, hdrop] at h
    rw [htake', hdrop']
    rcases hleft : l.dropWhile isMarkerRest with _ | ⟨e, left⟩
    · rw [hleft] at h
      simp only [List.nil_append] at h ⊢
      by_cases hmarker : (c.isAlpha && 2 ≤ (c :: l.takeWhile isMarkerRest).length) = true
      · rw [if_pos hmarker, Option.map_eq_none_iff] at h ⊢
        have hc : c.isAlpha = true := (Bool.and_eq_true_iff.mp hmarker).1
        refine splitAtWord_closing (List.cons_ne_nil _ _) ?_ ?_ h
        · rintro (_ | ⟨_, hbrace⟩)
          · exact absurd hc (by decide)
          · exact not_mem_takeWhile isMarkerRest_brace l hbrace
        · rintro (_ | ⟨_, hnewline⟩)
          · exact absurd hc (by decide)
          · exact not_mem_takeWhile isMarkerRest_newline l hnewline
      · rw [if_neg hmarker]
    · rw [List.cons_append]
      split
      · rename_i heq
        obtain ⟨rfl, -⟩ := List.cons.inj heq
        have hmem : '\n' ∈ l.dropWhile isMarkerRest := by simp [hleft]
        exact absurd (List.dropWhile_subset _ hmem) hl
      · rfl

/-- Without a dash, or behind it, a heredoc begins with its marker. -/
theorem scanHeredoc_some {cs left : List Char} {token? : Option Token} {newlines : Nat}
    (h : scanHeredoc cs = some ⟨token?, newlines, left⟩) :
    ∃ used content, cs = used ++ left ∧ newlines = used.count '\n'
      ∧ token? = some (.heredoc content)
      ∧ ∀ left', scanHeredoc (used ++ left') = some ⟨token?, newlines, left'⟩ := by
  by_cases hdash : cs.head? = some '-'
  · obtain ⟨cs, rfl⟩ := List.head?_eq_some_iff.mp hdash
    rw [scanHeredoc_dash] at h
    obtain ⟨c, used, content, rfl, -, rfl, rfl, hmoved⟩ := heredocFrom_some h
    exact ⟨'-' :: c :: used, content, rfl, by simp, rfl, fun left' =>
      (scanHeredoc_dash _).trans (hmoved left')⟩
  · rw [scanHeredoc_eq hdash] at h
    obtain ⟨c, used, content, rfl, -, rfl, rfl, hmoved⟩ := heredocFrom_some h
    exact ⟨c :: used, content, rfl, rfl, rfl, fun left' =>
      (scanHeredoc_eq (by simpa using hdash)).trans (hmoved left')⟩

theorem scanHeredoc_none {front rest : List Char} (h : scanHeredoc (front ++ rest) = none)
    (hfront : front.getLast? = some '\n') : scanHeredoc (front ++ closingLine) = none := by
  rcases front with _ | ⟨c, front⟩
  · cases hfront
  by_cases hdash : c = '-'
  · subst hdash
    rcases front with _ | ⟨d, front⟩
    · cases hfront
    · rw [List.cons_append, scanHeredoc_dash] at h ⊢
      exact heredocFrom_none h (by simpa using hfront)
  · have hhead (rest : List Char) : (c :: front ++ rest).head? ≠ some '-' :=
      fun heq => hdash (Option.some.inj heq)
    rw [scanHeredoc_eq (hhead _)] at h ⊢
    exact heredocFrom_none h hfront

end Heredocs

section WithinLines

/-- A digit, a word, or an operator or mark. -/
def scanPlain (afterEllipsis : Bool) : List Char → Option Lexeme
  | [] => none
  | c :: rest =>
    if c.isDigit then some ⟨some (.digit c), 0, rest⟩
    else if isWordStart c then
      if afterEllipsis && ['i', 'f'].isPrefixOf (c :: rest) then
        some ⟨some (.word "if"), 0, (c :: rest).drop 2⟩
      else
        some ⟨some (.word (String.ofList ((c :: rest).takeWhile isWordRest))), 0,
          (c :: rest).dropWhile isWordRest⟩
    else scanMark (c :: rest)

theorem isWordRest_newline : isWordRest '\n' = false := by decide

theorem isWordRest_of_isWordStart {c : Char} (h : isWordStart c = true) : isWordRest c = true := by
  simp only [isWordStart, isWordRest, Char.isAlphanum, Bool.or_eq_true] at h ⊢
  tauto

theorem spellings_oneLine : ∀ spelling ∈ spellings, '\n' ∉ spelling.1 := by decide

theorem spellings_ne_nil : ∀ spelling ∈ spellings, spelling.1 ≠ [] := by decide

theorem spellings_ne_newline : ∀ spelling ∈ spellings, spelling.2 ≠ .newline := by decide

/-- A lexeme with more text behind it. -/
def Lexeme.before (lexeme : Lexeme) (more : List Char) : Lexeme :=
  { lexeme with rest := lexeme.rest ++ more }

theorem scanMark_line {l : List Char} (more : List Char) :
    scanMark (l ++ '\n' :: more) = (scanMark l).map (·.before ('\n' :: more)) := by
  unfold scanMark
  rw [List.map_findSome?, ← List.head?_filterMap, ← List.head?_filterMap]
  refine congrArg List.head? (List.filterMap_congr fun ⟨spelling, token⟩ hmem => ?_)
  simp only [isPrefixOf_line (spellings_oneLine _ hmem), Function.comp]
  split
  · rename_i hprefix
    have hlength := (List.isPrefixOf_iff_prefix.mp hprefix).length_le
    rw [List.drop_append_of_le_length hlength]
    rfl
  · rfl

theorem scanPlain_line {b : Bool} {l : List Char} (hl : l ≠ []) (more : List Char) :
    scanPlain b (l ++ '\n' :: more) = (scanPlain b l).map (·.before ('\n' :: more)) := by
  rcases l with _ | ⟨c, l⟩
  · exact absurd rfl hl
  have hif : '\n' ∉ ['i', 'f'] := by decide
  obtain ⟨htake, hdrop⟩ := takeWhile_line (m := more) isWordRest_newline (c :: l)
  have hmark := scanMark_line (l := c :: l) more
  have hprefix := isPrefixOf_line (l := c :: l) (m := more) hif
  rw [List.cons_append] at htake hdrop hmark hprefix ⊢
  rw [scanPlain, scanPlain, htake, hdrop, hmark, hprefix]
  split_ifs with hdigit hword hkeyword
  · rfl
  · have hlength := (List.isPrefixOf_iff_prefix.mp (Bool.and_eq_true_iff.mp hkeyword).2).length_le
    have hbehind : (c :: l ++ '\n' :: more).drop 2 = (c :: l).drop 2 ++ '\n' :: more :=
      List.drop_append_of_le_length hlength
    rw [← List.cons_append, hbehind]
    rfl
  · rfl
  · rfl

theorem scanMark_some {cs : List Char} {lexeme : Lexeme} (h : scanMark cs = some lexeme) :
    ∃ spelling token, (spelling, token) ∈ spellings
      ∧ cs = spelling ++ lexeme.rest ∧ lexeme.token? = some token ∧ lexeme.newlines = 0 := by
  obtain ⟨⟨spelling, token⟩, hmem, h⟩ := List.exists_of_findSome?_eq_some h
  simp only at h
  split_ifs at h with hprefix
  obtain ⟨rest, rfl⟩ := List.isPrefixOf_iff_prefix.mp hprefix
  rw [← Option.some.inj h]
  exact ⟨spelling, token, hmem, by simp, rfl, rfl⟩

/-- A lexeme takes characters of one line. -/
structure OnLine (used cs : List Char) (lexeme : Lexeme) : Prop where
  front : cs = used ++ lexeme.rest
  nonempty : used ≠ []
  oneLine : '\n' ∉ used
  newlines : lexeme.newlines = 0
  token : lexeme.token? ≠ some .newline

theorem onLine_scanMark {cs : List Char} {lexeme : Lexeme} (h : scanMark cs = some lexeme) :
    ∃ used, OnLine used cs lexeme := by
  obtain ⟨spelling, token, hmem, hcs, htoken, hnewlines⟩ := scanMark_some h
  exact ⟨spelling, hcs, spellings_ne_nil _ hmem, spellings_oneLine _ hmem, hnewlines,
    fun heq => spellings_ne_newline _ hmem (Option.some.inj (htoken.symm.trans heq))⟩

theorem onLine_scanPlain {b : Bool} {cs : List Char} {lexeme : Lexeme}
    (h : scanPlain b cs = some lexeme) : ∃ used, OnLine used cs lexeme := by
  rcases cs with _ | ⟨c, cs⟩
  · cases h
  rw [scanPlain] at h
  split_ifs at h with hdigit hword hkeyword
  · obtain rfl := Option.some.inj h
    refine ⟨[c], rfl, List.cons_ne_nil _ _, ?_, rfl, nofun⟩
    rw [List.mem_singleton]
    rintro rfl
    exact absurd hdigit (by decide)
  · obtain rfl := Option.some.inj h
    obtain ⟨rest, hrest⟩ := List.isPrefixOf_iff_prefix.mp (Bool.and_eq_true_iff.mp hkeyword).2
    rw [← hrest]
    exact ⟨['i', 'f'], rfl, List.cons_ne_nil _ _, by decide, rfl, nofun⟩
  · obtain rfl := Option.some.inj h
    refine ⟨(c :: cs).takeWhile isWordRest, List.takeWhile_append_dropWhile.symm, ?_,
      not_mem_takeWhile isWordRest_newline _, rfl, nofun⟩
    rw [List.takeWhile_cons_of_pos (isWordRest_of_isWordStart hword)]
    exact List.cons_ne_nil _ _
  · exact onLine_scanMark h

/-- Where only the line is looked at, what stands below it does not matter. -/
theorem line_moved {scan : List Char → Option Lexeme} {used left rest : List Char}
    {lexeme : Lexeme} (hscan : ∀ {l : List Char} (more : List Char), l ≠ [] →
      scan (l ++ '\n' :: more) = (scan l).map (·.before ('\n' :: more)))
    (h : scan (used ++ (left ++ rest)) = some lexeme) (hrest : lexeme.rest = left ++ rest)
    (hused : used ≠ []) (hline : '\n' ∉ used) (hlast : (used ++ left).getLast? = some '\n')
    (rest' : List Char) :
    scan (used ++ (left ++ rest')) = some { lexeme with rest := left ++ rest' } := by
  have hleft : left ≠ [] := by
    rintro rfl
    rw [List.append_nil] at hlast
    exact hline (List.mem_of_getLast? hlast)
  rw [List.getLast?_append_of_ne_nil _ hleft] at hlast
  obtain ⟨l, m, rfl, -⟩ := exists_line hlast
  have hfull : ∀ rest : List Char,
      used ++ (l ++ '\n' :: m ++ rest) = (used ++ l) ++ '\n' :: (m ++ rest) := by simp
  rw [hfull, hscan _ (by simp [hused])] at h ⊢
  obtain ⟨found, hfound, rfl⟩ := Option.map_eq_some_iff.mp h
  rw [hfound]
  have hl : found.rest = l := by
    have hsame : found.rest ++ '\n' :: (m ++ rest) = l ++ '\n' :: (m ++ rest) := by
      rw [← List.cons_append, ← List.append_assoc l]
      exact hrest
    exact List.append_cancel_right hsame
  rw [← hl]
  simp [Lexeme.before]

end WithinLines

section AllLexemes

/-- A lexeme takes `used` off the front of a text. With the lines below some line behind it replaced
by a closing brace it is read all the same. -/
structure Cut (afterEllipsis : Bool) (cs : List Char) (lexeme : Lexeme) (used : List Char) :
    Prop where
  front : cs = used ++ lexeme.rest
  nonempty : used ≠ []
  newlines : lexeme.newlines = used.count '\n'
  newline : lexeme.token? = some .newline → ∃ text, used = text ++ ['\n'] ∧ '\n' ∉ text
  moved : ∀ left rest, lexeme.rest = left ++ rest → (used ++ left).getLast? = some '\n' →
    scanLexeme afterEllipsis (used ++ (left ++ closingLine))
      = some { lexeme with rest := left ++ closingLine }

section Cut

variable {afterEllipsis : Bool} {cs rest used : List Char} {lexeme : Lexeme}

theorem cut_blank {c : Char} (hc : c = ' ' ∨ c = '\t') :
    Cut afterEllipsis (c :: rest) ⟨none, 0, rest⟩ [c] := by
  rcases hc with rfl | rfl
  all_goals exact ⟨rfl, List.cons_ne_nil _ _, rfl, nofun, fun _ _ _ _ => rfl⟩

theorem cut_newline : Cut afterEllipsis ('\n' :: rest) ⟨some .newline, 1, rest⟩ ['\n'] :=
  ⟨rfl, List.cons_ne_nil _ _, rfl, fun _ => ⟨[], rfl, List.not_mem_nil⟩, fun _ _ _ _ => rfl⟩

theorem cut_comment (h : scanLexeme afterEllipsis ('/' :: '*' :: rest) = some lexeme) :
    ∃ used, Cut afterEllipsis ('/' :: '*' :: rest) lexeme used := by
  obtain ⟨⟨text, left⟩, hsplit, rfl⟩ := Option.map_eq_some_iff.mp h
  obtain ⟨rfl, hmoved⟩ := splitAtWord_some hsplit
  refine ⟨'/' :: '*' :: (text ++ ['*', '/']), by simp, List.cons_ne_nil _ _, by simp, nofun,
    fun more _ _ _ => Option.map_eq_some_iff.mpr ⟨(text, more ++ closingLine), ?_, rfl⟩⟩
  exact (congrArg (splitAtWord _) (List.append_assoc text _ _)).trans (hmoved _)

/-- A comment that runs to the end of its line. -/
theorem cut_lineComment (front : List Char) (hfront : front = ['#'] ∨ front = ['/', '/'])
    (h : scanLexeme afterEllipsis (front ++ rest) = some lexeme) :
    ∃ used, Cut afterEllipsis (front ++ rest) lexeme used := by
  have hscan (rest : List Char) :
      scanLexeme afterEllipsis (front ++ rest) = scanLineComment rest := by
    rcases hfront with rfl | rfl <;> rfl
  have hnewline : '\n' ∉ front := by rcases hfront with rfl | rfl <;> decide
  rw [hscan] at h
  obtain ⟨⟨text, left⟩, hsplit, rfl⟩ := Option.map_eq_some_iff.mp h
  obtain ⟨rfl, hmoved⟩ := splitAtWord_some hsplit
  have htext : '\n' ∉ text := splitAtWord_char hsplit
  refine ⟨front ++ (text ++ ['\n']), by simp, by simp, ?_, fun _ => ⟨front ++ text, by simp, ?_⟩,
    fun more _ _ _ => ?_⟩
  · simp [List.count_eq_zero_of_not_mem htext, List.count_eq_zero_of_not_mem hnewline]
  · exact fun hmem => (List.mem_append.mp hmem).elim hnewline htext
  · rw [List.append_assoc, hscan, List.append_assoc]
    exact Option.map_eq_some_iff.mpr ⟨_, hmoved _, rfl⟩

theorem cut_quoted (h : scanLexeme afterEllipsis ('"' :: rest) = some lexeme) :
    ∃ used, Cut afterEllipsis ('"' :: rest) lexeme used := by
  obtain ⟨⟨content, left⟩, hread, rfl⟩ := Option.map_eq_some_iff.mp h
  obtain ⟨rfl, hmoved⟩ := scanQuoted_some _ _ hread
  refine ⟨'"' :: (content ++ ['"']), by simp, List.cons_ne_nil _ _, by simp, nofun,
    fun more _ _ _ => Option.map_eq_some_iff.mpr ⟨(content, more ++ closingLine), ?_, rfl⟩⟩
  exact (congrArg (scanQuoted .text) (List.append_assoc content _ _)).trans (hmoved _)

/-- A heredoc, or the operator that its first bracket is where it lacks its end. -/
theorem cut_angles (h : scanLexeme afterEllipsis ('<' :: '<' :: rest) = some lexeme) :
    ∃ used, Cut afterEllipsis ('<' :: '<' :: rest) lexeme used := by
  cases hread : scanHeredoc rest with
  | some found =>
    obtain ⟨token?, newlines, left⟩ := found
    obtain rfl : (⟨token?, newlines, left⟩ : Lexeme) = lexeme := by
      simpa [scanLexeme, hread] using h
    obtain ⟨used, content, rfl, rfl, rfl, hmoved⟩ := scanHeredoc_some hread
    refine ⟨'<' :: '<' :: used, by simp, List.cons_ne_nil _ _, by simp, nofun, fun more _ _ _ => ?_⟩
    simp only [List.cons_append, scanLexeme, hmoved]
  | none =>
    have hmark : scanMark ('<' :: '<' :: rest) = some lexeme := by
      simpa [scanLexeme, hread] using h
    obtain ⟨used, hused⟩ := onLine_scanMark hmark
    refine ⟨used, hused.front, hused.nonempty, ?_, fun heq => absurd heq hused.token,
      fun left more hrest hlast => ?_⟩
    · rw [hused.newlines, List.count_eq_zero_of_not_mem hused.oneLine]
    · have hfull : '<' :: '<' :: rest = (used ++ left) ++ more := by
        rw [hused.front, hrest, List.append_assoc]
      have hmoved := line_moved (fun more _ => scanMark_line more)
        (hrest ▸ hused.front ▸ hmark) hrest hused.nonempty hused.oneLine hlast closingLine
      rw [← List.append_assoc] at hmoved ⊢
      rcases hall : used ++ left with _ | ⟨c, _ | ⟨d, front⟩⟩
      · rw [hall] at hlast
        cases hlast
      · rw [hall] at hfull hlast
        obtain ⟨rfl, -⟩ := List.cons.inj hfull
        cases hlast
      · rw [hall] at hfull hlast hmoved
        simp only [List.cons_append] at hfull
        obtain ⟨rfl, hrest⟩ := List.cons.inj hfull
        obtain ⟨rfl, rfl⟩ := List.cons.inj hrest
        have hlast : front.getLast? = some '\n' := by
          rcases front with _ | ⟨e, front⟩
          · cases hlast
          · simpa using hlast
        simp only [List.cons_append, scanLexeme, scanHeredoc_none hread hlast]
        exact hmoved

/-- The first character and the next one begin no lexeme of another form. -/
structure StartsPlain (c : Char) (next : Option Char) : Prop where
  plain : c ∉ [' ', '\t', '\n', '#', '"']
  slash : c = '/' → next ≠ some '*' ∧ next ≠ some '/'
  angle : c = '<' → next ≠ some '<'

theorem scanLexeme_plain {c : Char} (h : StartsPlain c rest.head?) :
    scanLexeme afterEllipsis (c :: rest) = scanPlain afterEllipsis (c :: rest) := by
  have hplain := h.plain
  simp only [List.mem_cons, List.not_mem_nil, or_false, not_or] at hplain
  obtain ⟨hspace, htab, hnewline, hhash, hquote⟩ := hplain
  unfold scanLexeme
  split
  case h_1 heq => cases heq
  all_goals rename_i heq
  all_goals obtain ⟨hc, hrest⟩ := List.cons.inj heq
  · exact absurd hc hspace
  · exact absurd hc htab
  · exact absurd (by rw [hrest]; rfl) (h.slash hc).1
  · exact absurd hc hnewline
  · exact absurd hc hhash
  · exact absurd (by rw [hrest]; rfl) (h.slash hc).2
  · exact absurd hc hquote
  · exact absurd (by rw [hrest]; rfl) (h.angle hc)
  · rw [← hc, ← hrest]
    rfl

theorem cut_plain {c : Char} (hplain : StartsPlain c rest.head?)
    (h : scanLexeme afterEllipsis (c :: rest) = some lexeme) :
    ∃ used, Cut afterEllipsis (c :: rest) lexeme used := by
  rw [scanLexeme_plain hplain] at h
  obtain ⟨used, hused⟩ := onLine_scanPlain h
  refine ⟨used, hused.front, hused.nonempty, ?_, fun heq => absurd heq hused.token,
    fun left more hrest hlast => ?_⟩
  · rw [hused.newlines, List.count_eq_zero_of_not_mem hused.oneLine]
  · have hfull : c :: rest = (used ++ left) ++ more := by
      rw [hused.front, hrest, List.append_assoc]
    have hmoved := line_moved (fun more hl => scanPlain_line hl more)
      (hrest ▸ hused.front ▸ h) hrest hused.nonempty hused.oneLine hlast closingLine
    rw [← List.append_assoc] at hmoved ⊢
    rcases hall : used ++ left with _ | ⟨d, _ | ⟨e, front⟩⟩
    · rw [hall] at hlast
      cases hlast
    · rw [hall] at hfull hlast
      obtain ⟨rfl, -⟩ := List.cons.inj hfull
      obtain rfl := Option.some.inj hlast
      exact absurd (by decide) hplain.plain
    · rw [hall] at hfull hmoved
      simp only [List.cons_append] at hfull
      obtain ⟨rfl, rfl⟩ := List.cons.inj hfull
      rw [← hmoved]
      exact scanLexeme_plain hplain

/-- A lexeme takes characters off the front and depends on nothing below the lines it stands in,
except for the end of a heredoc that is not there. -/
theorem scanLexeme_cut (h : scanLexeme afterEllipsis cs = some lexeme) :
    ∃ used, Cut afterEllipsis cs lexeme used := by
  by_cases hplain : ∃ c rest, cs = c :: rest ∧ StartsPlain c rest.head?
  · obtain ⟨c, rest, rfl, hplain⟩ := hplain
    exact cut_plain hplain h
  · have hread := h
    unfold scanLexeme at h
    split at h
    · cases h
    · rw [← Option.some.inj h]
      exact ⟨_, cut_blank (.inl rfl)⟩
    · rw [← Option.some.inj h]
      exact ⟨_, cut_blank (.inr rfl)⟩
    · exact cut_comment hread
    · rw [← Option.some.inj h]
      exact ⟨_, cut_newline⟩
    · exact cut_lineComment ['#'] (.inl rfl) hread
    · exact cut_lineComment ['/', '/'] (.inr rfl) hread
    · exact cut_quoted hread
    · exact cut_angles hread
    · rename_i c rest hspace htab hcomment hnewline hhash hslashes hquote hangles
      have hnext {d : Char} (h : rest.head? = some d) : ∃ more, rest = d :: more :=
        List.head?_eq_some_iff.mp h
      refine absurd ⟨c, rest, rfl, ?_, fun hc => ⟨fun h => ?_, fun h => ?_⟩, fun hc h => ?_⟩ hplain
      · simp only [List.mem_cons, List.not_mem_nil, or_false, not_or]
        exact ⟨hspace, htab, hnewline, hhash, hquote⟩
      · exact (hnext h).elim fun more hmore => hcomment more hc hmore
      · exact (hnext h).elim fun more hmore => hslashes more hc hmore
      · exact (hnext h).elim fun more hmore => hangles more hc hmore

/-- A token is a newline or some text, or it is read as a mark or by its first character. -/
theorem scanLexeme_token {token : Token} {newlines : Nat}
    (h : scanLexeme afterEllipsis cs = some ⟨some token, newlines, rest⟩) :
    token = .newline ∨ (∃ content, token = .quoted content) ∨ (∃ content, token = .heredoc content)
      ∨ scanMark cs = some ⟨some token, newlines, rest⟩
      ∨ scanPlain afterEllipsis cs = some ⟨some token, newlines, rest⟩ := by
  unfold scanLexeme at h
  split at h
  · cases h
  · cases h
  · cases h
  · obtain ⟨_, -, heq⟩ := Option.map_eq_some_iff.mp h
    cases heq
  · obtain ⟨htoken, -, -⟩ := Lexeme.mk.inj (Option.some.inj h)
    exact .inl (Option.some.inj htoken).symm
  · obtain ⟨_, -, heq⟩ := Option.map_eq_some_iff.mp h
    cases heq
    exact .inl rfl
  · obtain ⟨_, -, heq⟩ := Option.map_eq_some_iff.mp h
    cases heq
    exact .inl rfl
  · obtain ⟨⟨content, left⟩, -, heq⟩ := Option.map_eq_some_iff.mp h
    obtain ⟨htoken, -, -⟩ := Lexeme.mk.inj heq
    exact .inr (.inl ⟨content, (Option.some.inj htoken).symm⟩)
  · split at h
    · rename_i hread
      obtain rfl := Option.some.inj h
      obtain ⟨_, content, -, -, htoken, -⟩ := scanHeredoc_some hread
      exact .inr (.inr (.inl ⟨content, Option.some.inj htoken⟩))
    · exact .inr (.inr (.inr (.inl h)))
  · exact .inr (.inr (.inr (.inr h)))

end Cut

end AllLexemes

end TerraIndex.Hcl
