import TerraIndex.Proofs.Hcl.Consumed
import TerraIndex.Proofs.Hcl.Lexemes
import TerraIndex.Source.Pattern
/-!
# The tokens of lines

Tokens stand in the order of their lines, and a newline is the last token of its line. So where a
line ends in a token of its own the text falls apart: what is above is read for itself, and again
the same way with a closing brace below it (`Lexed.split`).
-/

namespace TerraIndex.Hcl

/-- All tokens of a text whose first character is on the given line. -/
inductive Lexed : Bool → Nat → List Char → Tokens → Prop
  | nil {afterEllipsis : Bool} {line : Nat} : Lexed afterEllipsis line [] []
  | blank {afterEllipsis : Bool} {line newlines : Nat} {cs rest : List Char} {tokens : Tokens} :
      scanLexeme afterEllipsis cs = some ⟨none, newlines, rest⟩ →
      Lexed afterEllipsis (line + newlines) rest tokens → Lexed afterEllipsis line cs tokens
  | token {afterEllipsis : Bool} {line newlines : Nat} {cs rest : List Char} {token : Token}
      {tokens : Tokens} : scanLexeme afterEllipsis cs = some ⟨some token, newlines, rest⟩ →
      Lexed (token = .mark .ellipsis) (line + newlines) rest tokens →
      Lexed afterEllipsis line cs (⟨token, line⟩ :: tokens)

theorem lexed_of_tokensFrom : ∀ {fuel line : Nat} {afterEllipsis : Bool} {cs : List Char}
    {tokens : Tokens}, tokensFrom fuel line afterEllipsis cs = some tokens →
    Lexed afterEllipsis line cs tokens
  | fuel, line, afterEllipsis, [], tokens, h => by
    rw [tokensFrom] at h
    rw [← Option.some.inj h]
    exact .nil
  | fuel + 1, line, afterEllipsis, c :: cs, tokens, h => by
    rw [tokensFrom] at h
    · split at h
      · cases h
      · rename_i hscan
        exact .blank hscan (lexed_of_tokensFrom h)
      · rename_i hscan
        obtain ⟨tokens, htokens, rfl⟩ := Option.map_eq_some_iff.mp h
        exact .token hscan (lexed_of_tokensFrom htokens)
    · exact List.cons_ne_nil _ _

namespace Lexed

variable {afterEllipsis : Bool} {line : Nat} {cs : List Char} {tokens : Tokens}

theorem tokensFrom_eq (h : Lexed afterEllipsis line cs tokens) : ∀ {fuel : Nat},
    cs.length ≤ fuel → tokensFrom fuel line afterEllipsis cs = some tokens := by
  have hshorter : ∀ {afterEllipsis : Bool} {cs : List Char} {lexeme : Lexeme},
      scanLexeme afterEllipsis cs = some lexeme → lexeme.rest.length < cs.length := by
    intro afterEllipsis cs lexeme hscan
    obtain ⟨used, hcut⟩ := scanLexeme_cut hscan
    have hlength := List.length_pos_iff.mpr hcut.nonempty
    rw [hcut.front, List.length_append]
    omega
  induction h with
  | nil =>
    intro fuel _
    cases fuel <;> rfl
  | @blank _ _ _ cs _ _ hscan _ ih =>
    intro fuel hfuel
    have hless := hshorter hscan
    obtain ⟨fuel, rfl⟩ : ∃ n, fuel = n + 1 := ⟨fuel - 1, by omega⟩
    rw [tokensFrom, hscan]
    · exact ih (by simp only at hless; omega)
    · rintro rfl
      cases hless
  | @token _ _ _ cs _ _ _ hscan _ ih =>
    intro fuel hfuel
    have hless := hshorter hscan
    obtain ⟨fuel, rfl⟩ : ∃ n, fuel = n + 1 := ⟨fuel - 1, by omega⟩
    rw [tokensFrom, hscan]
    · simp only
      rw [ih (by simp only at hless; omega)]
      rfl
    · rintro rfl
      cases hless

theorem tokenize_eq {text : List Char} (h : Lexed false 1 text tokens) :
    tokenize text = some tokens := h.tokensFrom_eq (Nat.le_refl _)

end Lexed

section Order

/-- The line of the first token. -/
def lineOf (tokens : Tokens) : Nat := (tokens.head?.map Located.line).getD 0

/-- One token stands in front of another, and above it if it is a newline. -/
def Located.Before (t u : Located) : Prop :=
  t.line ≤ u.line ∧ (t.token = .newline → t.line < u.line)

/-- Tokens in the order of their lines, from some line on. -/
structure InLines (line : Nat) (tokens : Tokens) : Prop where
  above : ∀ t ∈ tokens, line ≤ t.line
  ordered : tokens.Pairwise Located.Before

namespace InLines

variable {line : Nat} {tokens more : Tokens}

theorem mono {above : Nat} (h : InLines line tokens) (hle : above ≤ line) :
    InLines above tokens := ⟨fun t ht => Nat.le_trans hle (h.above t ht), h.ordered⟩

theorem right (h : InLines line (tokens ++ more)) : InLines line more :=
  ⟨fun t ht => h.above t (List.mem_append_right _ ht), (List.pairwise_append.mp h.ordered).2.1⟩

end InLines

theorem Lexed.inLines {afterEllipsis : Bool} {line : Nat} {cs : List Char} {tokens : Tokens}
    (h : Lexed afterEllipsis line cs tokens) : InLines line tokens := by
  induction h with
  | nil => exact ⟨by simp, .nil⟩
  | blank _ _ ih => exact ih.mono (Nat.le_add_right _ _)
  | @token _ line _ cs _ token tokens hscan _ ih =>
    obtain ⟨used, hcut⟩ := scanLexeme_cut hscan
    refine ⟨fun t ht => ?_,
      List.pairwise_cons.mpr ⟨fun t ht => ⟨?_, fun hnewline => ?_⟩, ih.ordered⟩⟩
    · rcases List.mem_cons.mp ht with rfl | ht
      · exact Nat.le_refl _
      · exact Nat.le_trans (Nat.le_add_right _ _) (ih.above t ht)
    · exact Nat.le_trans (Nat.le_add_right _ _) (ih.above t ht)
    · obtain ⟨text, hused, htext⟩ := hcut.newline (congrArg some hnewline)
      have hone := hcut.newlines
      rw [hused, List.count_append, List.count_eq_zero_of_not_mem htext] at hone
      have habove := ih.above t ht
      simp only [List.count_singleton_self] at hone
      simp only
      omega

/-- A newline is on one of the lines of its text. -/
theorem Lexed.newline_line {afterEllipsis : Bool} {line : Nat} {cs : List Char} {tokens : Tokens}
    (h : Lexed afterEllipsis line cs tokens) {k : Nat} (hk : ⟨.newline, k⟩ ∈ tokens) :
    k < line + cs.count '\n' := by
  induction h with
  | nil => cases hk
  | blank hscan _ ih =>
    obtain ⟨used, hcut⟩ := scanLexeme_cut hscan
    have hbelow := ih hk
    have hnewlines := hcut.newlines
    rw [hcut.front, List.count_append]
    simp only at hnewlines ⊢
    omega
  | token hscan _ ih =>
    obtain ⟨used, hcut⟩ := scanLexeme_cut hscan
    have hnewlines := hcut.newlines
    rw [hcut.front, List.count_append]
    simp only at hnewlines ⊢
    rcases List.mem_cons.mp hk with heq | hk
    · obtain ⟨htoken, rfl⟩ := Located.mk.inj heq
      obtain ⟨text, rfl, -⟩ := hcut.newline (congrArg some htoken.symm)
      have hpos : 0 < (text ++ ['\n']).count '\n' := by simp
      omega
    · have hbelow := ih hk
      omega

end Order

section LineEnds

/-- Characters that hold fewer newlines than a front of the same text end within that front. -/
theorem front_of_count {used rest front more : List Char} (h : used ++ rest = front ++ more)
    (hcount : used.count '\n' < front.count '\n') :
    ∃ left, front = used ++ left ∧ rest = left ++ more ∧ left ≠ [] := by
  rcases List.append_eq_append_iff.mp h with ⟨left, hfront, hrest⟩ | ⟨left, hused, -⟩
  · refine ⟨left, hfront, hrest, ?_⟩
    rintro rfl
    rw [List.append_nil] at hfront
    rw [hfront] at hcount
    exact absurd hcount (Nat.lt_irrefl _)
  · rw [hused, List.count_append] at hcount
    omega

/-- Tokens of the same text in other lines. -/
def Renumbered (tokens tokens' : Tokens) : Prop :=
  List.Forall₂ (fun t t' : Located => t.token = t'.token) tokens tokens'

/-- The text in front of a place reads for itself: up to there the tokens are the same with a
closing brace behind it. -/
structure Splits (afterEllipsis : Bool) (front : List Char) (below : Nat) (rest : List Char)
    (own behind : Tokens) : Prop where
  behind : Lexed false below rest behind
  closed : ∀ line, ∃ own' last' below', Renumbered own own' ∧
    Lexed afterEllipsis line (front ++ closingLine)
      (own' ++ [⟨.newline, last'⟩, ⟨.mark .closeBrace, below'⟩, ⟨.newline, below'⟩])

theorem lexed_closingLine (line : Nat) :
    Lexed false line closingLine [⟨.mark .closeBrace, line⟩, ⟨.newline, line⟩] :=
  .token rfl (.token rfl .nil)

/-- A lexeme that ends above the last line of a front is read in that front too. -/
theorem Cut.within {afterEllipsis : Bool} {cs used front rest : List Char} {lexeme : Lexeme}
    (h : Cut afterEllipsis cs lexeme used) (hcs : cs = front ++ rest)
    (hfront : front.getLast? = some '\n') (habove : lexeme.newlines < front.count '\n') :
    ∃ inner, lexeme.rest = inner ++ rest ∧ inner.getLast? = some '\n'
      ∧ front.count '\n' = lexeme.newlines + inner.count '\n'
      ∧ scanLexeme afterEllipsis (front ++ closingLine)
        = some { lexeme with rest := inner ++ closingLine } := by
  have hnewlines := h.newlines
  obtain ⟨inner, rfl, hinner, hne⟩ := front_of_count (h.front.symm.trans hcs) (by omega)
  have hmoved := h.moved inner rest hinner hfront
  rw [List.getLast?_append_of_ne_nil _ hne] at hfront
  refine ⟨inner, hinner, hfront, by rw [List.count_append, hnewlines], ?_⟩
  rw [List.append_assoc]
  exact hmoved

/-- A newline at the end of the first line: nothing of that line is behind it. -/
theorem splits_newline {afterEllipsis : Bool} {line newlines : Nat} {cs left front rest : List Char}
    {tokens : Tokens} (hscan : scanLexeme afterEllipsis cs = some ⟨some .newline, newlines, left⟩)
    (hread : Lexed false (line + newlines) left tokens) (hcs : cs = front ++ rest)
    (hfront : front.getLast? = some '\n') (hone : front.count '\n' = 1) :
    Splits afterEllipsis front (line + 1) rest [] tokens := by
  obtain ⟨used, hcut⟩ := scanLexeme_cut hscan
  have hnewlines : newlines = used.count '\n' := hcut.newlines
  obtain ⟨text, rfl, htext⟩ := hcut.newline rfl
  obtain ⟨above, rfl⟩ := List.getLast?_eq_some_iff.mp hfront
  have habove : '\n' ∉ above := by
    rw [← List.count_eq_zero]
    rw [List.count_append, List.count_singleton_self] at hone
    omega
  have hfull : text ++ '\n' :: left = above ++ '\n' :: rest := by
    have hfull := hcut.front.symm.trans hcs
    rwa [List.append_assoc, List.append_assoc] at hfull
  obtain ⟨rfl, rfl⟩ := Text.first_unique htext habove hfull
  obtain rfl : newlines = 1 := hnewlines.trans hone
  refine ⟨hread, fun line => ⟨[], line, line + 1, .nil, ?_⟩⟩
  have hmoved := hcut.moved [] left rfl (by rw [List.append_nil]; exact hfront)
  rw [List.nil_append] at hmoved
  exact .token hmoved (lexed_closingLine (line + 1))

theorem Lexed.split {afterEllipsis : Bool} {line last : Nat} {cs front rest : List Char}
    {tokens : Tokens} (h : Lexed afterEllipsis line cs tokens) (hcs : cs = front ++ rest)
    (hfront : front.getLast? = some '\n') (hlast : last + 1 = line + front.count '\n')
    (hmem : ⟨.newline, last⟩ ∈ tokens) :
    ∃ own behind, tokens = own ++ ⟨.newline, last⟩ :: behind
      ∧ Splits afterEllipsis front (last + 1) rest own behind := by
  induction h generalizing front with
  | nil => cases hmem
  | @blank afterEllipsis line newlines cs left tokens hscan hread ih =>
    obtain ⟨used, hcut⟩ := scanLexeme_cut hscan
    have hbelow : line + newlines ≤ last := hread.inLines.above _ hmem
    obtain ⟨inner, hinner, hend, hcount, hmoved⟩ :=
      hcut.within hcs hfront (show newlines < _ by omega)
    simp only at hcount
    obtain ⟨own, behind, htokens, hbehind, hclosed⟩ := ih hinner hend (by omega) hmem
    refine ⟨own, behind, htokens, hbehind, fun line => ?_⟩
    obtain ⟨own', last', below', hown', hread'⟩ := hclosed (line + newlines)
    exact ⟨own', last', below', hown', .blank hmoved hread'⟩
  | @token afterEllipsis line newlines cs left token tokens hscan hread ih =>
    rcases List.mem_cons.mp hmem with heq | hmem
    · -- the newline ends the front
      obtain ⟨rfl, rfl⟩ := Located.mk.inj heq
      exact ⟨[], tokens, rfl, splits_newline hscan hread hcs hfront (by omega)⟩
    · obtain ⟨used, hcut⟩ := scanLexeme_cut hscan
      have hbelow : line + newlines ≤ last := hread.inLines.above _ hmem
      obtain ⟨inner, hinner, hend, hcount, hmoved⟩ :=
        hcut.within hcs hfront (show newlines < _ by omega)
      simp only at hcount
      obtain ⟨own, behind, htokens, hbehind, hclosed⟩ := ih hinner hend (by omega) hmem
      refine ⟨⟨token, line⟩ :: own, behind, by rw [htokens]; rfl, hbehind, fun line => ?_⟩
      obtain ⟨own', last', below', hown', hread'⟩ := hclosed (line + newlines)
      exact ⟨⟨token, line⟩ :: own', last', below', .cons rfl hown', .token hmoved hread'⟩

end LineEnds

section NamesAndSigns

/-- The characters of a word. -/
structure IsName (cs : List Char) : Prop where
  start : ∃ c rest, cs = c :: rest ∧ isWordStart c = true
  rest : ∀ c ∈ cs, isWordRest c = true

theorem spellings_ne_word (name : String) : ∀ spelling ∈ spellings, spelling.2 ≠ .word name := by
  simp [spellings]

theorem scanPlain_word {b : Bool} {cs rest : List Char} {name : String} {newlines : Nat}
    (h : scanPlain b cs = some ⟨some (.word name), newlines, rest⟩) : IsName name.toList := by
  rcases cs with _ | ⟨c, cs⟩
  · cases h
  rw [scanPlain] at h
  split_ifs at h with hdigit hword hkeyword
  · obtain ⟨htoken, -, -⟩ := Lexeme.mk.inj (Option.some.inj h)
    cases htoken
  · obtain ⟨htoken, -, -⟩ := Lexeme.mk.inj (Option.some.inj h)
    obtain rfl := Token.word.inj (Option.some.inj htoken)
    exact ⟨⟨'i', ['f'], rfl, rfl⟩,
      List.forall_mem_cons.mpr ⟨rfl, List.forall_mem_singleton.mpr rfl⟩⟩
  · obtain ⟨htoken, -, -⟩ := Lexeme.mk.inj (Option.some.inj h)
    obtain rfl := Token.word.inj (Option.some.inj htoken)
    rw [String.toList_ofList]
    refine ⟨⟨c, cs.takeWhile isWordRest, ?_, hword⟩, fun d hd => List.mem_takeWhile_imp hd⟩
    exact List.takeWhile_cons_of_pos (isWordRest_of_isWordStart hword)
  · obtain ⟨spelling, token, hmem, -, htoken, -⟩ := scanMark_some h
    exact absurd (Option.some.inj htoken).symm (spellings_ne_word name _ hmem)

theorem scanLexeme_word {b : Bool} {cs rest : List Char} {name : String} {newlines : Nat}
    (h : scanLexeme b cs = some ⟨some (.word name), newlines, rest⟩) : IsName name.toList := by
  obtain heq | ⟨_, heq⟩ | ⟨_, heq⟩ | hmark | hplain := scanLexeme_token h
  · cases heq
  · cases heq
  · cases heq
  · obtain ⟨spelling, token, hmem, -, htoken, -⟩ := scanMark_some hmark
    exact absurd (Option.some.inj htoken).symm (spellings_ne_word name _ hmem)
  · exact scanPlain_word hplain

theorem Lexed.isName {afterEllipsis : Bool} {line k : Nat} {cs : List Char} {tokens : Tokens}
    {name : String} (h : Lexed afterEllipsis line cs tokens) (hk : ⟨.word name, k⟩ ∈ tokens) :
    IsName name.toList := by
  induction h with
  | nil => cases hk
  | blank _ _ ih => exact ih hk
  | token hscan _ ih =>
    rcases List.mem_cons.mp hk with heq | hk
    · obtain ⟨rfl, -⟩ := Located.mk.inj heq
      exact scanLexeme_word hscan
    · exact ih hk

theorem isAlpha_eq (c : Char) : c.isAlpha
    = (decide (c.val ≥ 'A'.val ∧ c.val ≤ 'Z'.val) || (c.val ≥ 'a'.val && c.val ≤ 'z'.val)) := rfl

/-- Visible characters of ASCII are no white space. -/
theorem isBlank_visible {c : Char} (hlow : 33 ≤ c.toNat) (hhigh : c.toNat ≤ 126) :
    Text.isBlank c = false := by
  simp only [Text.isBlank, Text.inRanges, Text.blankRanges, List.any_cons, List.any_nil,
    Bool.or_false, Bool.or_eq_false_iff, Bool.and_eq_false_imp, decide_eq_true_eq,
    decide_eq_false_iff_not, Nat.not_le]
  omega

theorem isBlank_of_isWordRest {c : Char} (h : isWordRest c = true) : Text.isBlank c = false := by
  simp only [isWordRest, Char.isAlphanum, isAlpha_eq, Char.isDigit, Bool.or_eq_true,
    Bool.and_eq_true, decide_eq_true_eq, beq_iff_eq] at h
  rcases h with (((⟨hlow, hhigh⟩ | ⟨hlow, hhigh⟩) | ⟨hlow, hhigh⟩) | rfl) | rfl
  · exact isBlank_visible (Nat.le_trans (by decide) hlow) (Nat.le_trans hhigh (by decide))
  · exact isBlank_visible (Nat.le_trans (by decide) hlow) (Nat.le_trans hhigh (by decide))
  · exact isBlank_visible (Nat.le_trans (by decide) hlow) (Nat.le_trans hhigh (by decide))
  · decide
  · decide

theorem spellings_solid :
    ∀ spelling ∈ spellings, ∀ c ∈ spelling.1.head?, Text.isBlank c = false := by
  have hall : ∀ spelling ∈ spellings, spelling.1.head?.all (!Text.isBlank ·) = true := by decide
  intro spelling hspelling c hc
  simpa using (Option.all_eq_true _ _).mp (hall spelling hspelling) c hc

/-- White space that begins a lexeme. -/
theorem scanLexeme_isBlank {b : Bool} {c : Char} {cs : List Char} {lexeme : Lexeme}
    (h : scanLexeme b (c :: cs) = some lexeme) (hc : Text.isBlank c = true) (hne : c ≠ '\n') :
    (c = ' ' ∨ c = '\t') ∧ lexeme = ⟨none, 0, cs⟩ := by
  have hblank {d : Char} (hd : Text.isBlank d = false) : c ≠ d := by
    rintro rfl
    exact Bool.false_ne_true (hd.symm.trans hc)
  by_cases hspace : c = ' '
  · subst hspace
    exact ⟨.inl rfl, (Option.some.inj h).symm⟩
  by_cases htab : c = '\t'
  · subst htab
    exact ⟨.inr rfl, (Option.some.inj h).symm⟩
  have hplain : StartsPlain c cs.head? := by
    refine ⟨?_, fun heq => absurd heq (hblank (by decide)),
      fun heq => absurd heq (hblank (by decide))⟩
    simp only [List.mem_cons, List.not_mem_nil, or_false, not_or]
    exact ⟨hspace, htab, hne, hblank (by decide), hblank (by decide)⟩
  rw [scanLexeme_plain hplain, scanPlain] at h
  have hrest : isWordRest c = false := by
    rw [← Bool.not_eq_true]
    exact fun hrest => Bool.false_ne_true ((isBlank_of_isWordRest hrest).symm.trans hc)
  split_ifs at h with hdigit hword
  · have : isWordRest c = true := by simp [isWordRest, Char.isAlphanum, hdigit]
    exact absurd (hrest.symm.trans this) Bool.false_ne_true
  · exact absurd (hrest.symm.trans (isWordRest_of_isWordStart hword)) Bool.false_ne_true
  · exact absurd (hrest.symm.trans (isWordRest_of_isWordStart hword)) Bool.false_ne_true
  · obtain ⟨spelling, token, hmem, hcs, -, -⟩ := scanMark_some h
    rcases spelling with _ | ⟨d, spelling⟩
    · exact absurd rfl (spellings_ne_nil _ hmem)
    · obtain ⟨rfl, -⟩ := List.cons.inj hcs
      exact absurd ((spellings_solid _ hmem c rfl).symm.trans hc) Bool.false_ne_true

theorem Lexed.of_isBlank {b : Bool} {line : Nat} {c : Char} {cs : List Char} {tokens : Tokens}
    (h : Lexed b line (c :: cs) tokens) (hc : Text.isBlank c = true) (hne : c ≠ '\n') :
    Lexed b line cs tokens := by
  cases h with
  | blank hscan hread =>
    obtain ⟨-, heq⟩ := scanLexeme_isBlank hscan hc hne
    obtain ⟨-, rfl, rfl⟩ := Lexeme.mk.inj heq
    exact hread
  | token hscan =>
    obtain ⟨-, heq⟩ := scanLexeme_isBlank hscan hc hne
    obtain ⟨htoken, -, -⟩ := Lexeme.mk.inj heq
    cases htoken

theorem Lexed.of_token {b : Bool} {line newlines : Nat} {cs rest : List Char} {token : Token}
    {tokens : Tokens} (h : Lexed b line cs tokens)
    (hscan : scanLexeme b cs = some ⟨some token, newlines, rest⟩) :
    ∃ left, tokens = ⟨token, line⟩ :: left
      ∧ Lexed (token = .mark .ellipsis) (line + newlines) rest left := by
  cases h with
  | nil => cases hscan
  | blank hscan' => cases hscan.symm.trans hscan'
  | token hscan' hread =>
    obtain ⟨htoken, rfl, rfl⟩ := Lexeme.mk.inj (Option.some.inj (hscan.symm.trans hscan'))
    obtain rfl := Option.some.inj htoken
    exact ⟨_, rfl, hread⟩

/-- An equals sign assigns, or is the first part of an arrow, where no other one follows it. -/
theorem scanLexeme_equals (b : Bool) {cs : List Char} (h : cs.head? ≠ some '=') :
    ∃ sign rest, scanLexeme b ('=' :: cs) = some ⟨some sign, 0, rest⟩ ∧ sign.isSign = true := by
  rcases cs with _ | ⟨d, cs⟩
  · exact ⟨.mark .assign, [], rfl, rfl⟩
  by_cases harrow : d = '>'
  · subst harrow
    exact ⟨.mark .arrow, cs, rfl, rfl⟩
  · have hne : ¬ '=' = d := fun heq => h (by rw [← heq]; rfl)
    have hplain : StartsPlain '=' (d :: cs).head? :=
      ⟨by decide, fun heq => absurd heq (by decide), fun heq => absurd heq (by decide)⟩
    refine ⟨.mark .assign, d :: cs, ?_, rfl⟩
    rw [scanLexeme_plain hplain]
    simp [scanPlain, scanMark, spellings, isWordStart, List.cons_prefix_cons, hne, Ne.symm harrow]

/-- Behind some white space an equals sign that is not followed by another one. -/
theorem Lexed.of_sign {b : Bool} {line : Nat} {more : List Char} {tokens : Tokens} :
    ∀ {text rest : List Char}, Lexed b line (text ++ '\n' :: more) tokens → '\n' ∉ text →
    Text.trimStart text = '=' :: rest → rest.head? ≠ some '=' →
    ∃ sign left, tokens = ⟨sign, line⟩ :: left ∧ sign.isSign = true
  | [], rest, _, _, h, _ => by cases h
  | c :: text, rest, hread, hline, h, hnext => by
    obtain ⟨hne, hline⟩ : c ≠ '\n' ∧ '\n' ∉ text :=
      ⟨fun heq => hline (heq ▸ .head _), fun hmem => hline (.tail _ hmem)⟩
    by_cases hc : Text.isBlank c = true
    · rw [Text.trimStart, List.dropWhile_cons_of_pos hc] at h
      exact of_sign (hread.of_isBlank hc hne) hline h hnext
    · rw [Text.trimStart, List.dropWhile_cons_of_neg hc] at h
      obtain ⟨rfl, rfl⟩ := List.cons.inj h
      have hnext' : (text ++ '\n' :: more).head? ≠ some '=' := by
        rcases text with _ | ⟨d, text⟩
        · simp
        · exact hnext
      obtain ⟨sign, left, hscan, hsign⟩ := scanLexeme_equals b hnext'
      obtain ⟨left, rfl, -⟩ := hread.of_token hscan
      exact ⟨sign, left, rfl, hsign⟩

theorem isAssignment_some {name cs : List Char} (h : isAssignment name cs = true) :
    ∃ behind rest, cs = name ++ behind ∧ Text.trimStart behind = '=' :: rest
      ∧ rest.head? ≠ some '=' := by
  unfold isAssignment dropFront? at h
  split_ifs at h with hprefix
  · obtain ⟨behind, rfl⟩ := List.isPrefixOf_iff_prefix.mp hprefix
    rw [List.drop_left, Option.map_some] at h
    split at h
    · cases h
    · rename_i rest hnext heq
      refine ⟨behind, rest, rfl, Option.some.inj heq, fun hhead => ?_⟩
      obtain ⟨more, rfl⟩ := List.head?_eq_some_iff.mp hhead
      exact hnext more rfl
    · cases h
  · cases h

theorem isDigit_of_isWordStart {c : Char} (h : isWordStart c = true) : ¬ c.isDigit = true := by
  intro hdigit
  simp only [isWordStart, isAlpha_eq, Char.isDigit, Bool.or_eq_true, Bool.and_eq_true,
    decide_eq_true_eq, beq_iff_eq] at h hdigit
  rcases h with (⟨hlow, -⟩ | ⟨hlow, -⟩) | rfl
  · exact absurd (Nat.le_trans hlow hdigit.2) (by decide)
  · exact absurd (Nat.le_trans hlow hdigit.2) (by decide)
  · exact absurd hdigit.2 (by decide)

theorem scanLexeme_name {name behind : List Char} (hname : IsName name)
    (hbehind : ∀ c ∈ behind.head?, isWordRest c = false) :
    scanLexeme false (name ++ behind) = some ⟨some (.word (String.ofList name)), 0, behind⟩ := by
  obtain ⟨⟨c, rest, rfl, hc⟩, hrest⟩ := hname
  have hspecial {d : Char} (hd : isWordStart d = false) : c ≠ d := by
    rintro rfl
    exact Bool.false_ne_true (hd.symm.trans hc)
  have hplain : StartsPlain c (rest ++ behind).head? := by
    refine ⟨?_, fun heq => absurd heq (hspecial (by decide)),
      fun heq => absurd heq (hspecial (by decide))⟩
    simp only [List.mem_cons, List.not_mem_nil, or_false, not_or]
    exact ⟨hspecial (by decide), hspecial (by decide), hspecial (by decide), hspecial (by decide),
      hspecial (by decide)⟩
  have hstop : behind.takeWhile isWordRest = [] ∧ behind.dropWhile isWordRest = behind := by
    rcases behind with _ | ⟨d, behind⟩
    · exact ⟨rfl, rfl⟩
    · have hd : ¬ isWordRest d = true := by simp [hbehind d rfl]
      exact ⟨List.takeWhile_cons_of_neg hd, List.dropWhile_cons_of_neg hd⟩
  have htake : (c :: rest ++ behind).takeWhile isWordRest
      = c :: rest ++ behind.takeWhile isWordRest :=
    List.takeWhile_append_of_pos hrest
  have hdrop : (c :: rest ++ behind).dropWhile isWordRest = behind.dropWhile isWordRest :=
    List.dropWhile_append_of_pos hrest
  rw [hstop.1, List.append_nil] at htake
  rw [hstop.2] at hdrop
  rw [List.cons_append] at htake hdrop ⊢
  rw [scanLexeme_plain hplain, scanPlain, if_neg (isDigit_of_isWordStart hc), if_pos hc,
    htake, hdrop]
  rfl

/-- A line that begins with a name and an equals sign behind it. -/
theorem Lexed.of_assigns {line : Nat} {more name : List Char} {tokens : Tokens}
    (hname : IsName name) :
    ∀ {text : List Char}, Lexed false line (text ++ '\n' :: more) tokens → '\n' ∉ text →
    assigns name text = true → ∃ sign left,
      tokens = ⟨.word (String.ofList name), line⟩ :: ⟨sign, line⟩ :: left ∧ sign.isSign = true
  | [], _, _, h => by
    obtain ⟨c, rest, rfl, -⟩ := hname.start
    cases h
  | c :: text, hread, hline, h => by
    obtain ⟨hne, hline'⟩ : c ≠ '\n' ∧ '\n' ∉ text :=
      ⟨fun heq => hline (heq ▸ .head _), fun hmem => hline (.tail _ hmem)⟩
    rw [assigns, Bool.or_eq_true, Bool.and_eq_true] at h
    rcases h with h | ⟨hc, h⟩
    · obtain ⟨behind, rest, hfull, htrim, hnext⟩ := isAssignment_some h
      have hbehind : ∀ d ∈ (behind ++ '\n' :: more).head?, isWordRest d = false := by
        intro d hd
        rcases behind with _ | ⟨e, behind⟩
        · cases htrim
        obtain rfl := Option.some.inj hd
        rw [← Bool.not_eq_true]
        intro hword
        rw [Text.trimStart,
          List.dropWhile_cons_of_neg (by simp [isBlank_of_isWordRest hword])] at htrim
        rw [(List.cons.inj htrim).1] at hword
        exact absurd hword (by decide)
      have hscan := scanLexeme_name hname hbehind
      rw [hfull] at hline hread
      rw [List.append_assoc] at hread
      obtain ⟨left, rfl, hleft⟩ := hread.of_token hscan
      obtain ⟨sign, left, rfl, hsign⟩ :=
        hleft.of_sign (fun hmem => hline (List.mem_append_right _ hmem)) htrim hnext
      exact ⟨sign, left, rfl, hsign⟩
    · exact of_assigns hname (hread.of_isBlank hc hne) hline' h

end NamesAndSigns

/-- The tokens of a file, which the parser reads with a newline behind it. -/
def tokensOf (content : List Char) : Tokens := (tokenize (content ++ ['\n'])).getD []

theorem parse_tokensOf {content : List Char} {items : List Item} (h : parse content = some items) :
    Lexed false 1 (content ++ ['\n']) (tokensOf content)
      ∧ parseBody (8 * (tokensOf content).length + 8) (tokensOf content) = some (items, []) := by
  obtain ⟨tokens, htokens, h⟩ := Option.bind_eq_some_iff.mp h
  obtain ⟨⟨items', rest⟩, hbody, h⟩ := Option.bind_eq_some_iff.mp h
  have heq : tokensOf content = tokens := by rw [tokensOf, htokens, Option.getD_some]
  rw [heq]
  refine ⟨lexed_of_tokensFrom htokens, ?_⟩
  rcases rest with _ | ⟨t, rest⟩
  · rw [hbody, ← Option.some.inj h]
  · cases h

end TerraIndex.Hcl
