import TerraIndex.Proofs.Json.Spread
import TerraIndex.Proofs.Source.AttributeSpan
import TerraIndex.Proofs.Source.FoundElement
import TerraIndex.Proofs.Source.NamedChild
/-!
# Brackets line by line

The scanners read the brackets of a text line by line, and begin every line outside of strings. In
a text of JSON these are the brackets of the lists and maps of its value, in order
(`brackets_spread`), so the depth counted up to the end of a line is the number of lists and maps
that are open there (`deltas_spread`).
-/

namespace TerraIndex

open Json
open ConfigText (deltas)
open Text (firstLine linesBelow splitNewlines scanLines dropCarriageReturns)

section Brackets

mutual

/-- The brackets around the lists and maps of a value. -/
def Raw.brackets : Raw → List Char
  | .list items => '[' :: (itemBrackets items ++ [']'])
  | .map entries => '\x7b' :: (entryBrackets entries ++ ['\x7d'])
  | _ => []

def itemBrackets : List Raw → List Char
  | [] => []
  | item :: items => item.brackets ++ itemBrackets items

def entryBrackets : List (String × Raw) → List Char
  | [] => []
  | (_, value) :: entries => value.brackets ++ entryBrackets entries

end

mutual

/-- How many of the lists and maps of a value are open behind its first `n` tokens: their first
token is one of these and their last one is not. -/
def Raw.openBehind : Raw → Nat → Nat
  | .list items, n =>
    (if 0 < n ∧ n < (Raw.list items).tokens.length then 1 else 0) + itemsOpen items (n - 1)
  | .map entries, n =>
    (if 0 < n ∧ n < (Raw.map entries).tokens.length then 1 else 0) + entriesOpen entries (n - 1)
  | _, _ => 0

/-- The same for items with a comma between every two of them. -/
def itemsOpen : List Raw → Nat → Nat
  | [], _ => 0
  | item :: items, n => item.openBehind n + itemsOpen items (n - (item.tokens.length + 1))

/-- The same for members, each with two tokens in front of its value. -/
def entriesOpen : List (String × Raw) → Nat → Nat
  | [], _ => 0
  | (_, value) :: entries, n =>
    value.openBehind (n - 2) + entriesOpen entries (n - (value.tokens.length + 3))

end

/-- The brackets among tokens. -/
def bracketsOf (ks : List Token) : List Char :=
  ks.filterMap fun k => match k with
    | .mark c => if isOpening c || isClosing c then some c else none
    | _ => none

@[simp] theorem bracketsOf_nil : bracketsOf [] = [] := rfl

@[simp] theorem bracketsOf_append (ks more : List Token) :
    bracketsOf (ks ++ more) = bracketsOf ks ++ bracketsOf more := List.filterMap_append

@[simp] theorem bracketsOf_leaf (v : Raw) (ks : List Token) :
    bracketsOf (.leaf v :: ks) = bracketsOf ks := rfl

@[simp] theorem bracketsOf_text (s : String) (ks : List Token) :
    bracketsOf (.text s :: ks) = bracketsOf ks := rfl

@[simp] theorem bracketsOf_colon (ks : List Token) :
    bracketsOf (.mark ':' :: ks) = bracketsOf ks := rfl

@[simp] theorem bracketsOf_comma (ks : List Token) :
    bracketsOf (.mark ',' :: ks) = bracketsOf ks := rfl

theorem bracketsOf_bracket {c : Char} (hc : (isOpening c || isClosing c) = true)
    (ks : List Token) : bracketsOf (.mark c :: ks) = c :: bracketsOf ks :=
  List.filterMap_cons_some (if_pos hc)

theorem bracketsOf_mark {c : Char} (hc : (isOpening c || isClosing c) = false)
    (ks : List Token) : bracketsOf (.mark c :: ks) = bracketsOf ks :=
  List.filterMap_cons_none (if_neg (by simp [hc]))

mutual

theorem bracketsOf_tokens : ∀ v : Raw, bracketsOf v.tokens = v.brackets
  | .null => rfl
  | .bool _ => rfl
  | .int _ => rfl
  | .float _ => rfl
  | .text _ => rfl
  | .tuple _ => rfl
  | .other _ => rfl
  | .list [] => rfl
  | .list (item :: items) => by
    rw [Raw.tokens, bracketsOf_bracket rfl, bracketsOf_append, bracketsOf_tokens item,
      bracketsOf_itemTokens items, Raw.brackets, itemBrackets, List.append_assoc]
  | .map [] => rfl
  | .map ((_, value) :: entries) => by
    rw [Raw.tokens, bracketsOf_bracket rfl, bracketsOf_text, bracketsOf_colon,
      bracketsOf_append, bracketsOf_tokens value, bracketsOf_entryTokens entries, Raw.brackets,
      entryBrackets, List.append_assoc]

theorem bracketsOf_itemTokens : ∀ items : List Raw,
    bracketsOf (itemTokens items) = itemBrackets items ++ [']']
  | [] => rfl
  | item :: items => by
    rw [itemTokens, bracketsOf_comma, bracketsOf_append, bracketsOf_tokens item,
      bracketsOf_itemTokens items, itemBrackets, List.append_assoc]

theorem bracketsOf_entryTokens : ∀ entries : List (String × Raw),
    bracketsOf (entryTokens entries) = entryBrackets entries ++ ['\x7d']
  | [] => rfl
  | (_, value) :: entries => by
    rw [entryTokens, bracketsOf_comma, bracketsOf_text, bracketsOf_colon, bracketsOf_append,
      bracketsOf_tokens value, bracketsOf_entryTokens entries, entryBrackets, List.append_assoc]

end

end Brackets

section Depth

/-- How much deeper brackets lead. -/
def deeper (cs : List Char) : Int := (cs.map bracketStep).sum

@[simp] theorem deeper_nil : deeper [] = 0 := rfl

@[simp] theorem deeper_cons (c : Char) (cs : List Char) :
    deeper (c :: cs) = bracketStep c + deeper cs := by simp [deeper]

@[simp] theorem deeper_append (cs more : List Char) :
    deeper (cs ++ more) = deeper cs + deeper more := by simp [deeper]

mutual

/-- The brackets of a value lead back to the depth they begin at. -/
theorem deeper_value : ∀ v : Raw, deeper v.brackets = 0
  | .null => rfl
  | .bool _ => rfl
  | .int _ => rfl
  | .float _ => rfl
  | .text _ => rfl
  | .tuple _ => rfl
  | .other _ => rfl
  | .list items => by
    rw [Raw.brackets, deeper_cons, deeper_append, deeper_items items]
    rfl
  | .map entries => by
    rw [Raw.brackets, deeper_cons, deeper_append, deeper_entries entries]
    rfl

theorem deeper_items : ∀ items : List Raw, deeper (itemBrackets items) = 0
  | [] => rfl
  | item :: items => by
    rw [itemBrackets, deeper_append, deeper_value item, deeper_items items]
    rfl

theorem deeper_entries : ∀ entries : List (String × Raw), deeper (entryBrackets entries) = 0
  | [] => rfl
  | (_, value) :: entries => by
    rw [entryBrackets, deeper_append, deeper_value value, deeper_entries entries]
    rfl

end

/-- The depth behind the first `n` tokens. -/
def depthBehind (ks : List Token) (n : Nat) : Int := deeper (bracketsOf (ks.take n))

theorem depthBehind_append (ks more : List Token) (n : Nat) :
    depthBehind (ks ++ more) n = depthBehind ks n + depthBehind more (n - ks.length) := by
  simp [depthBehind, List.take_append]

theorem depthBehind_quiet {k : Token} (hk : bracketsOf [k] = []) (ks : List Token) (n : Nat) :
    depthBehind (k :: ks) n = depthBehind ks (n - 1) := by
  cases n with
  | zero => simp [depthBehind]
  | succ n =>
    have hcons : bracketsOf (k :: ks.take n) = bracketsOf [k] ++ bracketsOf (ks.take n) :=
      bracketsOf_append [k] _
    rw [depthBehind, List.take_succ_cons, hcons, hk]
    rfl

theorem depthBehind_bracket {c : Char} (hc : (isOpening c || isClosing c) = true)
    (ks : List Token) (n : Nat) :
    depthBehind (.mark c :: ks) n
      = (if 0 < n then bracketStep c else 0) + depthBehind ks (n - 1) := by
  cases n with
  | zero => simp [depthBehind]
  | succ n =>
    rw [depthBehind, List.take_succ_cons, bracketsOf_bracket hc, deeper_cons, if_pos n.succ_pos]
    rfl

theorem depthBehind_nil (n : Nat) : depthBehind [] n = 0 := by simp [depthBehind]

theorem depthBehind_leaf {k : Token} (hk : bracketsOf [k] = []) (n : Nat) :
    depthBehind [k] n = ((0 : Nat) : Int) := by
  rw [depthBehind_quiet hk, depthBehind_nil]
  rfl

theorem length_itemTokens_pos (items : List Raw) : 0 < (itemTokens items).length := by
  cases items <;> simp [itemTokens]

theorem length_entryTokens_pos (entries : List (String × Raw)) :
    0 < (entryTokens entries).length := by
  cases entries <;> simp [entryTokens]

mutual

/-- The depth behind the first tokens of a value is the number of lists and maps open there. -/
theorem depthBehind_tokens : ∀ (v : Raw) (n : Nat), depthBehind v.tokens n = v.openBehind n
  | .null, n => depthBehind_leaf rfl n
  | .bool _, n => depthBehind_leaf rfl n
  | .int _, n => depthBehind_leaf rfl n
  | .float _, n => depthBehind_leaf rfl n
  | .text _, n => depthBehind_leaf rfl n
  | .tuple _, n => depthBehind_leaf rfl n
  | .other _, n => depthBehind_leaf rfl n
  | .list [], n => by
    rw [Raw.openBehind, Raw.tokens, depthBehind_bracket rfl, depthBehind_bracket rfl,
      depthBehind_nil, itemsOpen, bracketStep_opening rfl, bracketStep_closing (by decide)]
    simp only [List.length_cons, List.length_nil]
    split_ifs <;> omega
  | .list (item :: items), n => by
    have hpos := length_itemTokens_pos items
    rw [Raw.openBehind, Raw.tokens, depthBehind_bracket rfl, depthBehind_append,
      depthBehind_tokens item, depthBehind_itemTokens items, itemsOpen, bracketStep_opening rfl,
      Nat.sub_sub (n - 1)]
    simp only [List.length_cons, List.length_append]
    split_ifs <;> omega
  | .map [], n => by
    rw [Raw.openBehind, Raw.tokens, depthBehind_bracket rfl, depthBehind_bracket rfl,
      depthBehind_nil, entriesOpen, bracketStep_opening rfl, bracketStep_closing (by decide)]
    simp only [List.length_cons, List.length_nil]
    split_ifs <;> omega
  | .map ((_, value) :: entries), n => by
    have hpos := length_entryTokens_pos entries
    rw [Raw.openBehind, Raw.tokens, depthBehind_bracket rfl, depthBehind_quiet rfl,
      depthBehind_quiet rfl, depthBehind_append, depthBehind_tokens value,
      depthBehind_entryTokens entries, entriesOpen, bracketStep_opening rfl,
      show n - 1 - 1 - 1 = n - 1 - 2 by omega,
      show n - 1 - 2 - value.tokens.length - 1 = n - 1 - (value.tokens.length + 3) by omega]
    simp only [List.length_cons, List.length_append]
    split_ifs <;> omega

/-- Behind the closing bracket it is one less. -/
theorem depthBehind_itemTokens : ∀ (items : List Raw) (n : Nat),
    depthBehind (itemTokens items) n
      = itemsOpen items (n - 1) - if n < (itemTokens items).length then 0 else 1
  | [], n => by
    rw [itemTokens, depthBehind_bracket rfl, depthBehind_nil, itemsOpen,
      bracketStep_closing (by decide)]
    simp only [List.length_cons, List.length_nil]
    split_ifs <;> omega
  | item :: items, n => by
    have hpos := length_itemTokens_pos items
    rw [itemTokens, depthBehind_quiet rfl, depthBehind_append, depthBehind_tokens item,
      depthBehind_itemTokens items, itemsOpen, Nat.sub_sub (n - 1)]
    simp only [List.length_cons, List.length_append]
    split_ifs <;> omega

theorem depthBehind_entryTokens : ∀ (entries : List (String × Raw)) (n : Nat),
    depthBehind (entryTokens entries) n
      = entriesOpen entries (n - 1) - if n < (entryTokens entries).length then 0 else 1
  | [], n => by
    rw [entryTokens, depthBehind_bracket rfl, depthBehind_nil, entriesOpen,
      bracketStep_closing (by decide)]
    simp only [List.length_cons, List.length_nil]
    split_ifs <;> omega
  | (_, value) :: entries, n => by
    have hpos := length_entryTokens_pos entries
    rw [entryTokens, depthBehind_quiet rfl, depthBehind_quiet rfl, depthBehind_quiet rfl,
      depthBehind_append, depthBehind_tokens value, depthBehind_entryTokens entries, entriesOpen,
      show n - 1 - 1 - 1 = n - 1 - 2 by omega,
      show n - 1 - 2 - value.tokens.length - 1 = n - 1 - (value.tokens.length + 3) by omega]
    simp only [List.length_cons, List.length_append]
    split_ifs <;> omega

end

end Depth

section Reading

/-- The brackets of a text that stands behind another one, read line by line. -/
def marksBehind (front cs : List Char) : List Mark :=
  lineMarks (Place.after front).line
      (bracketsFrom (Place.after front).column .outside (firstLine cs))
    ++ marks ((Place.after front).line + 1) (linesBelow cs)

theorem marksBehind_nil (cs : List Char) : marksBehind [] cs = marks 1 (splitNewlines cs) := by
  rw [Text.splitNewlines_eq_cons]
  rfl

theorem marksBehind_end (front : List Char) : marksBehind front [] = [] := rfl

theorem marksBehind_quiet {q : List Char} (front cs : List Char) (hq : Quiet q) :
    marksBehind front (q ++ cs) = marksBehind (front ++ q) cs := by
  unfold marksBehind
  rw [Text.firstLine_append _ hq.1, Text.linesBelow_append _ hq.1, hq.2,
    Place.after_append _ hq.1]

theorem marksBehind_newline (front cs : List Char) :
    marksBehind front ('\n' :: cs) = marksBehind (front ++ ['\n']) cs := by
  unfold marksBehind
  rw [Text.firstLine_newline, Text.linesBelow_newline, Place.after_newline,
    Text.splitNewlines_eq_cons]
  rfl

theorem marksBehind_bracket {c : Char} (front cs : List Char)
    (hc : (isOpening c || isClosing c) = true) :
    marksBehind front (c :: cs) = ⟨Place.after front, c⟩ :: marksBehind (front ++ [c]) cs := by
  have hn := ResourceList.newline_notMem_bracket hc
  unfold marksBehind
  rw [← List.singleton_append, Text.firstLine_append cs hn, Text.linesBelow_append cs hn,
    List.singleton_append, ResourceList.bracketsFrom_bracket _ _ hc, Place.after_append front hn]
  rfl

theorem marksBehind_blanks {w : List Char} (front cs : List Char) (hw : Blanks w) :
    marksBehind front (w ++ cs) = marksBehind (front ++ w) cs := by
  induction w generalizing front with
  | nil => simp
  | cons c w ih =>
    obtain ⟨hc, hcs⟩ := List.forall_mem_cons.mp hw
    by_cases hn : c = '\n'
    · subst hn
      rw [List.cons_append, marksBehind_newline, ih _ hcs, List.append_assoc,
        List.singleton_append]
    · have hq : Quiet [c] := by
        simp only [Json.isBlank, Bool.or_eq_true, beq_iff_eq, hn, or_false] at hc
        rcases hc with (rfl | rfl) | rfl <;> exact quiet_char (by decide)
      rw [List.cons_append, ← List.singleton_append, marksBehind_quiet _ _ hq, ih _ hcs,
        List.append_assoc, List.singleton_append]

end Reading

theorem quiet_intText (n : Int) : Quiet (intText n) := by
  obtain ⟨negative, htext, -⟩ := intText_eq n
  rw [htext]
  exact (quiet_minusText negative).append (quiet_digits (digits_repr _))

/-- A token is quiet unless it is a bracket. -/
theorem quiet_or_bracket {k : Token} {s : List Char} (hk : k.Written s)
    (hmark : ∀ c, k = .mark c → isMark c = true) :
    (Quiet s ∧ bracketsOf [k] = []) ∨
      ∃ c, k = .mark c ∧ s = [c] ∧ (isOpening c || isClosing c) = true := by
  cases hk with
  | text h => exact .inl ⟨quiet_quoted h, rfl⟩
  | spelled h =>
    cases h with
    | mark c =>
      by_cases hc : (isOpening c || isClosing c) = true
      · exact .inr ⟨c, rfl, rfl, hc⟩
      · rw [Bool.not_eq_true] at hc
        refine .inl ⟨quiet_char ?_, bracketsOf_mark hc []⟩
        have hmark := hmark c rfl
        refine ⟨?_, ?_, Bool.or_eq_false_iff.mp hc⟩ <;> rintro rfl <;> revert hmark <;> decide
    | word h => exact .inl ⟨quiet_word h, rfl⟩
    | numeral h => exact .inl ⟨quiet_numeral h, rfl⟩
    | @long n _ => exact .inl ⟨quiet_intText n, rfl⟩
    | ascii s => exact .inl ⟨quiet_quoted (stringBody_ascii _), rfl⟩
    | minimal s => exact .inl ⟨quiet_quoted (stringBody_minimal _), rfl⟩

/-- The bracket is one of the tokens of a text that stands behind another one, with whole tokens in
front of it and behind it. -/
def MarksToken (ks : List Token) (front t : List Char) (mark : Mark) : Prop :=
  ∃ n p q, ks[n]? = some (.mark mark.bracket) ∧ t = p ++ mark.bracket :: q
    ∧ Spread (ks.take n) p ∧ Spread (ks.drop (n + 1)) q ∧ mark.place = Place.after (front ++ p)

theorem MarksToken.first {ks : List Token} {w t : List Char} (front : List Char) (c : Char)
    (hw : Blanks w) (ht : Spread ks t) :
    MarksToken (.mark c :: ks) front (w ++ c :: t) ⟨Place.after (front ++ w), c⟩ :=
  ⟨0, w, t, rfl, rfl, .nil hw, ht, rfl⟩

theorem MarksToken.behind {k : Token} {ks : List Token} {w s t front : List Char} {mark : Mark}
    (hw : Blanks w) (hk : k.Written s) (h : MarksToken ks (front ++ w ++ s) t mark) :
    MarksToken (k :: ks) front (w ++ (s ++ t)) mark := by
  obtain ⟨n, p, q, hget, rfl, hp, hq, hplace⟩ := h
  refine ⟨n + 1, w ++ (s ++ p), q, hget, by simp, .cons hw hk hp, hq, ?_⟩
  rw [hplace, List.append_assoc, List.append_assoc]

/-- Reading a text meets the brackets among its tokens, in order. -/
theorem marksBehind_spread {ks : List Token} {t : List Char} (h : Spread ks t)
    (hmarks : MarksOnly ks) : ∀ front rest, ∃ run,
      marksBehind front (t ++ rest) = run ++ marksBehind (front ++ t) rest
        ∧ run.map Mark.bracket = bracketsOf ks ∧ ∀ mark ∈ run, MarksToken ks front t mark := by
  induction h with
  | nil hw =>
    intro front rest
    exact ⟨[], marksBehind_blanks front rest hw, rfl, by simp⟩
  | @cons k ks w s t hw hk ht ih =>
    intro front rest
    obtain ⟨run, hread, hrun, htokens⟩ := ih hmarks.tail (front ++ w ++ s) rest
    have hbehind : ∀ mark ∈ run, MarksToken (k :: ks) front (w ++ (s ++ t)) mark :=
      fun mark hmem => (htokens mark hmem).behind hw hk
    rw [show front ++ w ++ s ++ t = front ++ (w ++ (s ++ t)) by simp] at hread
    rw [List.append_assoc, List.append_assoc, marksBehind_blanks _ _ hw]
    rcases quiet_or_bracket hk fun c hc => hmarks c (by simp [hc]) with
      ⟨hquiet, hnone⟩ | ⟨c, rfl, rfl, hc⟩
    · refine ⟨run, by rw [marksBehind_quiet _ _ hquiet, hread], ?_, hbehind⟩
      have hcons : bracketsOf (k :: ks) = bracketsOf [k] ++ bracketsOf ks :=
        bracketsOf_append [k] ks
      rw [hrun, hcons, hnone, List.nil_append]
    · refine ⟨⟨Place.after (front ++ w), c⟩ :: run, ?_, ?_, ?_⟩
      · rw [List.singleton_append, marksBehind_bracket _ _ hc, hread]
        rfl
      · rw [List.map_cons, hrun, bracketsOf_bracket hc]
      · exact List.forall_mem_cons.mpr ⟨.first front c hw ht, hbehind⟩

theorem marks_spread {ks : List Token} {t : List Char} (h : Spread ks t) (hmarks : MarksOnly ks) :
    (marks 1 (splitNewlines t)).map Mark.bracket = bracketsOf ks
      ∧ ∀ mark ∈ marks 1 (splitNewlines t), MarksToken ks [] t mark := by
  obtain ⟨run, hread, hrun, htokens⟩ := marksBehind_spread h hmarks [] []
  rw [marksBehind_end, List.append_nil, List.append_nil, marksBehind_nil] at hread
  rw [hread]
  exact ⟨hrun, htokens⟩

section ScannedLines

theorem marks_map_dropCarriageReturns (n : Nat) (lines : List (List Char)) :
    marks n (lines.map dropCarriageReturns) = marks n lines := by
  induction lines generalizing n with
  | nil => rfl
  | cons line lines ih =>
    obtain ⟨w, hline, hw⟩ := Text.dropCarriageReturns_spec line
    have hb : brackets line 0 = brackets (dropCarriageReturns line) 0 := by
      conv_lhs => rw [hline]
      exact ResourceList.bracketsFrom_append_returns hw 0 .outside _
    rw [List.map_cons, marks, marks, hb, ih]

/-- Carriage returns at the ends of lines and a final newline make no difference. -/
theorem marks_scanLines (n : Nat) (text : List Char) :
    marks n (scanLines text) = marks n (splitNewlines text) := by
  rw [scanLines, marks_map_dropCarriageReturns]
  unfold Text.dropFinalEmpty
  split
  · rename_i h
    conv_rhs => rw [← List.dropLast_append_getLast? [] h]
    rw [marks_append]
    exact (List.append_nil _).symm
  · rfl

theorem dropFinalEmpty_append {more : List (List Char)} (h : more ≠ []) :
    ∀ lines : List (List Char),
      Text.dropFinalEmpty (lines ++ more) = lines ++ Text.dropFinalEmpty more
  | [] => rfl
  | line :: lines => by
    rw [List.cons_append, Text.dropFinalEmpty_cons _ (by simp [h]),
      dropFinalEmpty_append h lines, List.cons_append]

/-- The lines up to a newline. -/
theorem take_scanLines (p q : List Char) :
    (scanLines (p ++ '\n' :: q)).take (p.count '\n' + 1)
      = (splitNewlines p).map dropCarriageReturns := by
  have hsplit : splitNewlines (p ++ '\n' :: q) = splitNewlines p ++ splitNewlines q := by
    rw [Text.splitNewlines_append, Text.firstLine_newline, Text.linesBelow_newline,
      List.append_nil, Text.splitNewlines_eq_append p, List.append_assoc, List.singleton_append]
  rw [scanLines, hsplit, dropFinalEmpty_append (Text.splitNewlines_ne_nil q), List.map_append]
  exact List.take_left' (by rw [List.length_map, Text.length_splitNewlines])

theorem length_scanLines_le (text : List Char) :
    (scanLines text).length ≤ text.count '\n' + 1 := by
  rw [scanLines, List.length_map, ← Text.length_splitNewlines, Text.dropFinalEmpty]
  split
  · exact (List.dropLast_prefix _).length_le
  · exact Nat.le_refl _

theorem exists_newline : ∀ {t : List Char} {k : Nat}, k < t.count '\n' →
    ∃ p q, t = p ++ '\n' :: q ∧ p.count '\n' = k
  | [], _, h => by simp at h
  | c :: t, k, h => by
    by_cases hc : c = '\n'
    · subst hc
      cases k with
      | zero => exact ⟨[], t, rfl, rfl⟩
      | succ k =>
        obtain ⟨p, q, rfl, hp⟩ := exists_newline (t := t) (k := k) (by simpa using h)
        exact ⟨'\n' :: p, q, rfl, by simp [hp]⟩
    · obtain ⟨p, q, rfl, hp⟩ := exists_newline (t := t) (k := k)
        (by rwa [List.count_cons_of_ne hc] at h)
      exact ⟨c :: p, q, rfl, by rw [List.count_cons_of_ne hc, hp]⟩

theorem deeper_lineMarks (bs : List (Nat × Char)) (n : Nat) :
    bs.foldr (fun (_, c) depth => bracketStep c + depth) 0
      = deeper ((lineMarks n bs).map Mark.bracket) := by
  induction bs with
  | nil => rfl
  | cons b bs ih =>
    rw [List.foldr_cons, ih]
    rfl

theorem deltas_eq (n : Nat) (lines : List (List Char)) :
    deltas lines = deeper ((marks n lines).map Mark.bracket) := by
  induction lines generalizing n with
  | nil => rfl
  | cons line lines ih =>
    rw [ConfigText.deltas_cons, marks, List.map_append, deeper_append, ← ih, nestingDelta,
      deeper_lineMarks]

/-- The depth counted up to the end of a line is that of the tokens in front of it. -/
theorem deltas_take {ks : List Token} {p : List Char} (h : Spread ks p) (hmarks : MarksOnly ks)
    (q : List Char) :
    deltas ((scanLines (p ++ '\n' :: q)).take (p.count '\n' + 1)) = deeper (bracketsOf ks) := by
  rw [take_scanLines, deltas_eq 1, marks_map_dropCarriageReturns, (marks_spread h hmarks).1]

end ScannedLines

/-- The brackets read line by line in a text of JSON are those of the lists and maps of its value,
each one a token of the text. The depth counted over the lines is the number of lists and maps that
are open at the end of each line, and zero behind the last line. -/
theorem nesting_spread {v : Raw} {t : List Char} (h : Spread v.tokens t) :
    (marks 1 (scanLines t)).map Mark.bracket = v.brackets
      ∧ (∀ mark ∈ marks 1 (scanLines t), MarksToken v.tokens [] t mark)
      ∧ deltas (scanLines t) = 0
      ∧ (∀ k, 0 ≤ deltas ((scanLines t).take k))
      ∧ ∀ p q, t = p ++ '\n' :: q →
        (∃ n, Spread (v.tokens.take n) p ∧ Spread (v.tokens.drop n) q)
          ∧ ∀ n, Spread (v.tokens.take n) p →
            deltas ((scanLines t).take (p.count '\n' + 1)) = v.openBehind n := by
  have hmarks := marksOnly_tokens v
  obtain ⟨hbrackets, htokens⟩ := marks_spread h hmarks
  rw [← marks_scanLines] at hbrackets htokens
  have hall : deltas (scanLines t) = 0 := by
    rw [deltas_eq 1, hbrackets, bracketsOf_tokens, deeper_value]
  have hlines : ∀ p q, t = p ++ '\n' :: q →
      (∃ n, Spread (v.tokens.take n) p ∧ Spread (v.tokens.drop n) q)
        ∧ ∀ n, Spread (v.tokens.take n) p →
          deltas ((scanLines t).take (p.count '\n' + 1)) = v.openBehind n := by
    rintro p q rfl
    refine ⟨h.newline hmarks rfl, fun n hp => ?_⟩
    rw [deltas_take hp (hmarks.take n), ← depthBehind_tokens, depthBehind]
  refine ⟨hbrackets.trans (bracketsOf_tokens v), htokens, hall, fun k => ?_, hlines⟩
  cases k with
  | zero => exact Int.le_refl 0
  | succ k =>
    by_cases hk : k < t.count '\n'
    · obtain ⟨p, q, rfl, rfl⟩ := exists_newline hk
      obtain ⟨⟨n, hp, -⟩, hdepth⟩ := hlines p q rfl
      rw [hdepth n hp]
      exact Int.natCast_nonneg _
    · have hlength := length_scanLines_le t
      rw [List.take_of_length_le (by omega), hall]

/-- Brackets in a key and in a string, behind escapes, and an empty map over two lines. -/
def folded : Raw :=
  .map [("a]\"", .list [.text "\\[", .map []]), ("b", .null)]

def foldedText : List Char :=
  "\x7b\r\n \"a]\\\"\" : [\"\\\\[\",\t\x7b\n\x7d ],\n\"b\":null\r\n\x7d\n".toList

theorem spread_folded : Spread folded.tokens foldedText := by
  have hplain : StringBody "\\[".toList ['\\', '\\', '['] :=
    .letter (by rfl) (.plain (by decide) (by decide) (by decide) .nil)
  have hword : (Token.leaf .null).Written ['n', 'u', 'l', 'l'] := .spelled (.word .null)
  have hnil : Spread [] ['\n'] := .nil (by decide)
  have hb := Spread.mark ',' (w := []) (by decide) <| .cons (w := ['\n']) (by decide)
    (.spelled (.minimal "b")) <| .mark ':' (w := []) (by decide) <|
    .token hword <| .mark '\x7d' (w := ['\r', '\n']) (by decide) hnil
  have ha := Spread.mark '\x7b' (w := []) (by decide) <|
    .cons (w := ['\r', '\n', ' ']) (by decide) (.spelled (.minimal "a]\"")) <|
    .mark ':' (w := [' ']) (by decide) <|
    .mark '[' (w := [' ']) (by decide) <| .token (.text hplain) <|
    .mark ',' (w := []) (by decide) <| .mark '\x7b' (w := ['\t']) (by decide) <|
    .mark '\x7d' (w := ['\n']) (by decide) <| .mark ']' (w := [' ']) (by decide) hb
  exact ha

theorem nesting_spread_folded :
    Spread folded.tokens foldedText
      ∧ (marks 1 (scanLines foldedText)).map Mark.bracket
        = ['\x7b', '[', '\x7b', '\x7d', ']', '\x7d']
      ∧ deltas (scanLines foldedText) = 0
      ∧ ∀ p q, foldedText = p ++ '\n' :: q → ∃ n, Spread (folded.tokens.take n) p
        ∧ deltas ((scanLines foldedText).take (p.count '\n' + 1)) = folded.openBehind n := by
  obtain ⟨hbrackets, -, hall, -, hlines⟩ := nesting_spread spread_folded
  refine ⟨spread_folded, hbrackets, hall, fun p q heq => ?_⟩
  obtain ⟨⟨n, hp, -⟩, hdepth⟩ := hlines p q heq
  exact ⟨n, hp, hdepth n hp⟩

example : (scanLines foldedText).map nestingDelta = [1, 2, -2, 0, -1] := by decide

end TerraIndex
