import TerraIndex.Proofs.Hcl.Consumed
/-!
# An expression is read by its own tokens

What is read as an expression depends neither on the lines of its tokens nor on what stands behind
it: with the closing brace of a block there and any number of newlines in between, if there were
some before, the same expression is read (`parseExpr_alike`). The fuel that this takes is bounded by
the number of tokens, eight steps for each.
-/

namespace TerraIndex.Hcl

section FirstToken

def first (tokens : Tokens) : Option Token := tokens.head?.map Located.token

@[simp] theorem first_cons (t : Token) (line : Nat) (tokens : Tokens) :
    first (⟨t, line⟩ :: tokens) = some t := rfl

theorem first_ne {t : Token} {tokens : Tokens}
    (h : ∀ line rest, tokens = ⟨t, line⟩ :: rest → False) : first tokens ≠ some t := by
  intro hfirst
  rcases tokens with _ | ⟨⟨u, line⟩, rest⟩
  · cases hfirst
  · obtain rfl := Option.some.inj hfirst
    exact h line rest rfl

theorem first_some {t : Token} {tokens : Tokens} (h : first tokens = some t) :
    ∃ line rest, tokens = ⟨t, line⟩ :: rest := by
  rcases tokens with _ | ⟨⟨u, line⟩, rest⟩
  · cases h
  · obtain rfl := Option.some.inj h
    exact ⟨line, rest, rfl⟩

theorem length_skipNewlines (tokens : Tokens) : (skipNewlines tokens).length ≤ tokens.length :=
  (skipNewlines_passes (s := false) tokens).length

theorem skipNewlines_of_first {tokens : Tokens} (h : first tokens ≠ some .newline) :
    skipNewlines tokens = tokens := by
  rcases tokens with _ | ⟨⟨t, line⟩, rest⟩
  · rfl
  · cases t with
    | newline => exact absurd rfl h
    | _ => rfl

theorem first_skipNewlines : ∀ tokens : Tokens, first (skipNewlines tokens) ≠ some .newline
  | [] => nofun
  | ⟨t, line⟩ :: tokens => by
    cases t with
    | newline => exact first_skipNewlines tokens
    | _ => nofun

theorem skipNewlines_shorter (tokens : Tokens) :
    (skipNewlines tokens).length < tokens.length ↔ first tokens = some .newline := by
  rcases tokens with _ | ⟨⟨t, line⟩, rest⟩
  · simp [skipNewlines, first]
  · by_cases ht : t = .newline
    · rw [ht]
      have hle := length_skipNewlines rest
      simp only [skipNewlines, List.length_cons, first_cons, iff_true]
      omega
    · have hne : first (⟨t, line⟩ :: rest) ≠ some .newline := fun h => ht (Option.some.inj h)
      rw [skipNewlines_of_first hne]
      simp only [Nat.lt_irrefl, hne]

/-! ### Steps that the first token decides -/

section First

variable {fuel : Nat} {tokens : Tokens} {left base : Expr}

theorem parseOperators_stop (hop : ∀ op, first tokens ≠ some (.operator op))
    (hquestion : first tokens ≠ some (.mark .question)) :
    parseOperators (fuel + 1) left tokens = some (left, tokens) := by
  unfold parseOperators
  split
  · exact absurd rfl (hop _)
  · exact absurd rfl hquestion
  · rfl

theorem parseOperand_term (hminus : first tokens ≠ some (.operator .minus))
    (hbang : first tokens ≠ some (.mark .bang)) :
    parseOperand (fuel + 1) tokens = parseTerm fuel tokens := by
  unfold parseOperand
  split
  · exact absurd rfl hminus
  · exact absurd rfl hbang
  · rfl

theorem parseAccess_stop {behindSplat : Bool} (hdot : first tokens ≠ some (.mark .dot))
    (hattribute : first tokens ≠ some (.mark .attributeSplat))
    (hfull : first tokens ≠ some (.mark .fullSplat))
    (hbracket : first tokens ≠ some (.mark .openBracket)) :
    parseAccess (fuel + 1) behindSplat base tokens = some (base, tokens) := by
  unfold parseAccess
  split
  · exact absurd rfl hdot
  · exact absurd rfl hdot
  · exact absurd rfl hdot
  · exact absurd rfl hattribute
  · exact absurd rfl hfull
  · exact absurd rfl hbracket
  · rfl

theorem parsePrimary_word {name : String} {line : Nat}
    (hparen : first tokens ≠ some (.mark .openParen))
    (hcolons : first tokens ≠ some (.mark .doubleColon)) :
    parsePrimary (fuel + 1) (⟨.word name, line⟩ :: tokens) = some (.word name, tokens) := by
  unfold parsePrimary
  split
  all_goals rename_i heq
  all_goals try cases heq
  · exact absurd rfl hparen
  · exact absurd rfl hcolons
  · rfl
  · exact absurd rfl (heq _ _ _)

theorem parseItems_item (h : first tokens ≠ some (.mark .closeBracket)) :
    parseItems (fuel + 1) tokens = (do
      let (item, rest) ← parseExpr fuel tokens
      match skipNewlines rest with
      | ⟨.mark .closeBracket, _⟩ :: rest => some ([item], rest)
      | ⟨.mark .comma, _⟩ :: rest =>
        let (items, rest) ← parseItems fuel (skipNewlines rest)
        some (item :: items, rest)
      | _ => none) := by
  conv => lhs; unfold parseItems
  split
  · exact absurd rfl h
  · rfl

theorem parseArguments_some (h : first tokens ≠ some (.mark .closeParen)) :
    parseArguments (fuel + 1) tokens = parseSomeArguments fuel tokens := by
  unfold parseArguments
  split
  · exact absurd rfl h
  · rfl

theorem parseBehindArgument_comma {argument : Expr} {line : Nat}
    (h : first (skipNewlines tokens) ≠ some (.mark .closeParen)) :
    parseBehindArgument fuel argument (⟨.mark .comma, line⟩ :: tokens) = (do
      let (arguments, rest) ← parseSomeArguments fuel (skipNewlines tokens)
      some (argument :: arguments, rest)) := by
  unfold parseBehindArgument
  simp only
  split
  · rename_i heq
    exact absurd (by rw [heq]; rfl) h
  · rfl

theorem parseBehindArgument_other {argument : Expr}
    (hellipsis : first tokens ≠ some (.mark .ellipsis))
    (hcomma : first tokens ≠ some (.mark .comma)) :
    parseBehindArgument fuel argument tokens = (match skipNewlines tokens with
      | ⟨.mark .closeParen, _⟩ :: rest => some ([argument], rest)
      | ⟨.mark .comma, _⟩ :: rest => do
        let (arguments, rest) ← parseSomeArguments fuel (skipNewlines rest)
        some (argument :: arguments, rest)
      | _ => none) := by
  unfold parseBehindArgument
  split
  · exact absurd rfl hellipsis
  · exact absurd rfl hcomma
  · rfl

theorem parseGuard_none (h : first tokens ≠ some (.word "if")) :
    parseGuard (fuel + 1) tokens = some (none, tokens) := by
  unfold parseGuard
  split
  · exact absurd rfl h
  · rfl

theorem expect_none {m : Mark} : expect m tokens = none ↔ first tokens ≠ some (.mark m) := by
  rcases tokens with _ | ⟨⟨t, line⟩, rest⟩
  · simp [expect, first]
  · cases t <;> simp [expect, first]

theorem startsFor_lines (t u : Token) (line line' other other' : Nat) (rest rest' : Tokens) :
    startsFor (⟨t, line⟩ :: ⟨u, other⟩ :: rest)
      = startsFor (⟨t, line'⟩ :: ⟨u, other'⟩ :: rest') := by
  by_cases hfor : t = .word "for"
  · rw [hfor]
    cases u <;> rfl
  · have hnone : ∀ (line other : Nat) (rest : Tokens),
        startsFor (⟨t, line⟩ :: ⟨u, other⟩ :: rest) = false := by
      intro line other rest
      unfold startsFor
      split
      all_goals rename_i heq
      · exact absurd (Located.mk.inj (List.cons.inj heq).1).1 hfor
      · exact absurd (Located.mk.inj (List.cons.inj heq).1).1 hfor
      · rfl
    rw [hnone, hnone]

theorem isFor_eq_true {tokens : Tokens} :
    isFor tokens = true ↔ first tokens = some (.word "for") := by
  unfold isFor
  split
  · simp
  · rename_i h
    exact iff_of_false Bool.false_ne_true (first_ne fun line rest => h line rest)

end First

end FirstToken

/-- What stands behind an expression, newlines apart: in the second place a closing brace. -/
structure Behind (behind behind' : Tokens) : Prop where
  skip : skipNewlines behind = behind
  brace : first behind' = some (.mark .closeBrace)

/-- The same tokens up to their lines in front of `behind` and `behind'`. Of the newlines directly
in front of these it only counts whether there are any. -/
inductive Alike (behind behind' : Tokens) : Tokens → Tokens → Prop
  | stop : Alike behind behind' behind behind'
  | breaks {line line' : Nat} {tokens tokens' : Tokens} : skipNewlines tokens = behind →
      skipNewlines tokens' = behind' →
      Alike behind behind' (⟨.newline, line⟩ :: tokens) (⟨.newline, line'⟩ :: tokens')
  | cons {t : Token} {line line' : Nat} {tokens tokens' : Tokens} :
      Alike behind behind' tokens tokens' →
      Alike behind behind' (⟨t, line⟩ :: tokens) (⟨t, line'⟩ :: tokens')

section Alike

variable {behind behind' : Tokens}

theorem Behind.skip' (hb : Behind behind behind') : skipNewlines behind' = behind' :=
  skipNewlines_of_first fun h => by rw [hb.brace] at h; cases h

theorem Behind.first_ne_newline (hb : Behind behind behind') : first behind ≠ some .newline :=
  fun h => absurd ((skipNewlines_shorter behind).mpr h) (by rw [hb.skip]; exact Nat.lt_irrefl _)

namespace Alike

variable {tokens tokens' : Tokens}

theorem skip (hb : Behind behind behind') (h : Alike behind behind' tokens tokens') :
    Alike behind behind' (skipNewlines tokens) (skipNewlines tokens') := by
  induction h with
  | stop =>
    rw [hb.skip, hb.skip']
    exact .stop
  | breaks h h' =>
    rw [skipNewlines, skipNewlines, h, h']
    exact .stop
  | @cons t line line' tokens tokens' h ih =>
    cases t with
    | newline => exact ih
    | _ => exact .cons h

/-- A token in front of those behind is there in both places. -/
theorem uncons {t : Token} {line : Nat} (h : Alike behind behind' (⟨t, line⟩ :: tokens) tokens')
    (ht : t ≠ .newline) (hlength : behind.length ≤ tokens.length) :
    ∃ line' rest', tokens' = ⟨t, line'⟩ :: rest' ∧ Alike behind behind' tokens rest' := by
  generalize hfull : (⟨t, line⟩ :: tokens : Tokens) = full at h
  cases h with
  | stop =>
    rw [← hfull, List.length_cons] at hlength
    omega
  | breaks => exact absurd (Located.mk.inj (List.cons.inj hfull).1).1 ht
  | cons h =>
    obtain ⟨hhead, rfl⟩ := List.cons.inj hfull
    obtain ⟨rfl, rfl⟩ := Located.mk.inj hhead
    exact ⟨_, _, rfl, h⟩

/-- A newline is there in both places. -/
theorem uncons_newline (hb : Behind behind behind') {line : Nat}
    (h : Alike behind behind' (⟨.newline, line⟩ :: tokens) tokens') :
    ∃ line' rest', tokens' = ⟨.newline, line'⟩ :: rest'
      ∧ Alike behind behind' (skipNewlines tokens) (skipNewlines rest') := by
  generalize hfull : (⟨.newline, line⟩ :: tokens : Tokens) = full at h
  cases h with
  | stop => exact absurd (by rw [← hfull]; rfl) hb.first_ne_newline
  | breaks h h' =>
    obtain ⟨-, rfl⟩ := List.cons.inj hfull
    exact ⟨_, _, rfl, by rw [h, h']; exact .stop⟩
  | cons h =>
    obtain ⟨hhead, rfl⟩ := List.cons.inj hfull
    obtain ⟨rfl, rfl⟩ := Located.mk.inj hhead
    exact ⟨_, _, rfl, h.skip hb⟩

theorem length (h : Alike behind behind' tokens tokens') : behind.length ≤ tokens.length := by
  induction h with
  | stop => exact Nat.le_refl _
  | breaks hskip =>
    rw [← hskip]
    exact Nat.le_succ_of_le (length_skipNewlines _)
  | cons _ ih => exact Nat.le_succ_of_le ih

/-- Where one side is at its end, so is the other. -/
theorem at_end (hb : Behind behind behind') (h : Alike behind behind' behind tokens') :
    tokens' = behind' := by
  generalize hfull : behind = full at h
  cases h with
  | stop => rfl
  | breaks => exact absurd (by rw [hfull]; rfl) hb.first_ne_newline
  | cons h =>
    subst hfull
    exact absurd h.length (by simp)

/-- A token in front of those behind, newlines apart, is there in both places. -/
theorem uncons_skip (hb : Behind behind behind') (h : Alike behind behind' tokens tokens')
    {t : Token} {line : Nat} {left : Tokens} (heq : skipNewlines tokens = ⟨t, line⟩ :: left)
    (hlength : behind.length ≤ left.length) :
    ∃ line' left', skipNewlines tokens' = ⟨t, line'⟩ :: left' ∧ Alike behind behind' left left'
      ∧ left'.length < tokens'.length := by
  have hskip := h.skip hb
  rw [heq] at hskip
  have ht : t ≠ .newline := by
    rintro rfl
    exact first_skipNewlines tokens (by rw [heq]; rfl)
  obtain ⟨line', left', heq', hleft⟩ := hskip.uncons ht hlength
  have hshort := length_skipNewlines tokens'
  rw [heq', List.length_cons] at hshort
  exact ⟨line', left', heq', hleft, by omega⟩

theorem first_or (hb : Behind behind behind') (h : Alike behind behind' tokens tokens') :
    first tokens' = first tokens ∨ first tokens' = some (.mark .closeBrace) := by
  cases h with
  | stop => exact .inr hb.brace
  | breaks => exact .inl rfl
  | cons => exact .inl rfl

/-- A token other than a closing brace that does not come first does not in the other place. -/
theorem first_ne (hb : Behind behind behind') (h : Alike behind behind' tokens tokens') {t : Token}
    (hne : first tokens ≠ some t) (ht : t ≠ .mark .closeBrace) : first tokens' ≠ some t := by
  rcases h.first_or hb with hsame | hbrace
  · rwa [hsame]
  · rw [hbrace]
    exact fun heq => ht (Option.some.inj heq).symm

theorem first_eq (h : Alike behind behind' tokens tokens')
    (hlength : behind.length < tokens.length) :
    first tokens' = first tokens := by
  cases h with
  | stop => exact absurd hlength (Nat.lt_irrefl _)
  | breaks => rfl
  | cons => rfl

/-- Two tokens tell whether a `for` expression begins. -/
theorem startsFor_eq (h : Alike behind behind' tokens tokens')
    (hlength : behind.length + 1 < tokens.length) : startsFor tokens' = startsFor tokens := by
  cases h with
  | stop => omega
  | breaks => rfl
  | @cons t line line' rest rest' h =>
    cases h with
    | stop => simp at hlength
    | breaks => exact startsFor_lines ..
    | cons => exact startsFor_lines ..

/-- Whether a `for` expression begins behind a bracket, if what is read goes on behind its word. -/
theorem startsFor_skip (hb : Behind behind behind') (h : Alike behind behind' tokens tokens')
    (hlength : behind.length < (skipNewlines tokens).length)
    (hword : first (skipNewlines tokens) = some (.word "for") →
      behind.length + 1 < (skipNewlines tokens).length) :
    startsFor (skipNewlines tokens') = startsFor (skipNewlines tokens)
      ∧ isFor (skipNewlines tokens') = isFor (skipNewlines tokens) := by
  have hfirst := (h.skip hb).first_eq hlength
  have hisFor : isFor (skipNewlines tokens') = isFor (skipNewlines tokens) := by
    rw [Bool.eq_iff_iff, isFor_eq_true, isFor_eq_true, hfirst]
  refine ⟨?_, hisFor⟩
  by_cases hfor : first (skipNewlines tokens) = some (.word "for")
  · exact (h.skip hb).startsFor_eq (hword hfor)
  · have hnone : ∀ {tokens : Tokens}, first tokens ≠ some (.word "for") →
        startsFor tokens = false := fun hne =>
      Bool.eq_false_iff.mpr fun hstarts => hne (isFor_eq_true.mp (isFor_of_startsFor hstarts))
    rw [hnone hfor, hnone (by rwa [hfirst])]

theorem parseLabel?_none (h : Alike behind behind' tokens tokens')
    (hlength : behind.length + 1 < tokens.length) (hnone : parseLabel? tokens = none) :
    parseLabel? tokens' = none := by
  cases h with
  | stop => omega
  | breaks => rfl
  | @cons t line line' rest rest' h =>
    cases t with
    | word name =>
      cases h with
      | stop => simp at hlength
      | breaks => rfl
      | @cons u =>
        cases u with
        | mark m => cases m <;> first | rfl | cases hnone
        | _ => rfl
    | _ => rfl

end Alike

/-- A reading gives `a` and leaves tokens like `rest`. -/
def Kept {α : Type} (behind behind' : Tokens) (read : Option (α × Tokens)) (a : α)
    (rest : Tokens) : Prop :=
  ∃ rest', read = some (a, rest') ∧ Alike behind behind' rest rest'

theorem Kept.bind {α β : Type} {read : Option (α × Tokens)}
    {next : α × Tokens → Option (β × Tokens)}
    {a : α} {b : β} {mid rest : Tokens} (h : Kept behind behind' read a mid)
    (hnext : ∀ mid', read = some (a, mid') → Alike behind behind' mid mid' →
      Kept behind behind' (next (a, mid')) b rest) :
    Kept behind behind' (read >>= next) b rest := by
  obtain ⟨mid', hread, halike⟩ := h
  rw [hread]
  exact hnext mid' hread halike

theorem Alike.kept {α : Type} {a : α} {rest rest' : Tokens} (h : Alike behind behind' rest rest') :
    Kept behind behind' (some (a, rest')) a rest := ⟨rest', rfl, h⟩

section Parts

variable {tokens tokens' rest : Tokens}

theorem expect_alike {m : Mark} (h : expect m tokens = some rest)
    (halike : Alike behind behind' tokens tokens') (hlength : behind.length ≤ rest.length) :
    ∃ rest', expect m tokens' = some rest' ∧ Alike behind behind' rest rest' := by
  obtain ⟨line, rfl⟩ := expect_some h
  obtain ⟨line', rest', rfl, hrest⟩ := halike.uncons nofun hlength
  exact ⟨rest', if_pos rfl, hrest⟩

theorem expect_length {m : Mark} (h : expect m tokens = some rest) :
    rest.length < tokens.length := by
  obtain ⟨line, rfl⟩ := expect_some h
  exact Nat.lt_succ_self _

theorem expectWord_alike {name : String} (h : expectWord tokens = some (name, rest))
    (halike : Alike behind behind' tokens tokens') (hlength : behind.length ≤ rest.length) :
    Kept behind behind' (expectWord tokens') name rest := by
  obtain ⟨line, rfl⟩ := expectWord_some h
  obtain ⟨line', rest', rfl, hrest⟩ := halike.uncons nofun hlength
  exact hrest.kept

theorem expectBinder_length (h : expectBinder tokens = some rest) :
    rest.length < tokens.length := by
  obtain ⟨t, line, rfl, -⟩ := expectBinder_some h
  exact Nat.lt_succ_self _

theorem expectBinder_alike (h : expectBinder tokens = some rest)
    (halike : Alike behind behind' tokens tokens') (hlength : behind.length ≤ rest.length) :
    ∃ rest', expectBinder tokens' = some rest' ∧ Alike behind behind' rest rest' := by
  obtain ⟨t, line, rfl, ht⟩ := expectBinder_some h
  obtain ⟨line', rest', rfl, hrest⟩ := halike.uncons (by rcases ht with rfl | rfl <;> nofun) hlength
  refine ⟨rest', ?_, hrest⟩
  rcases ht with rfl | rfl <;> rfl

theorem spanDigits_stop (h : ∀ d, first tokens ≠ some (.digit d)) :
    spanDigits tokens = ([], tokens) := by
  unfold spanDigits
  split
  · exact absurd rfl (h _)
  · rfl

theorem spanDigits_alike (hb : Behind behind behind') (h : Alike behind behind' tokens tokens')
    (hlength : behind.length ≤ (spanDigits tokens).2.length) :
    (spanDigits tokens').1 = (spanDigits tokens).1
      ∧ Alike behind behind' (spanDigits tokens).2 (spanDigits tokens').2 := by
  induction h with
  | stop =>
    have hnone : ∀ d, first behind ≠ some (.digit d) := by
      intro d hd
      rcases behind with _ | ⟨⟨t, line⟩, rest⟩
      · cases hd
      · obtain rfl := Option.some.inj hd
        have hle := (spanDigits_passes (s := false) rest).length
        simp only [spanDigits, List.length_cons] at hlength
        omega
    have hnone' : ∀ d, first behind' ≠ some (.digit d) := fun d hd => by
      rw [hb.brace] at hd
      cases hd
    rw [spanDigits_stop hnone, spanDigits_stop hnone']
    exact ⟨rfl, .stop⟩
  | breaks h h' => exact ⟨rfl, .breaks h h'⟩
  | @cons t line line' rest rest' h ih =>
    cases t with
    | digit d =>
      obtain ⟨hdigits, hrest⟩ := ih hlength
      exact ⟨by simp only [spanDigits, hdigits], hrest⟩
    | _ => exact ⟨rfl, .cons h⟩

theorem parseNumber_alike (hb : Behind behind behind') {e : Expr}
    (h : parseNumber tokens = some (e, rest)) (halike : Alike behind behind' tokens tokens')
    (hlength : behind.length ≤ rest.length) : Kept behind behind' (parseNumber tokens') e rest := by
  have hpassed := (parseNumber_passes (s := false) h).length
  obtain ⟨hdigits, hmid⟩ := spanDigits_alike hb halike (Nat.le_trans hlength hpassed)
  unfold parseNumber at h ⊢
  simp only [hdigits] at h ⊢
  split at h
  · rename_i line mid heq
    rw [heq] at hmid hpassed
    split_ifs at h with hempty
    obtain ⟨rfl, rfl⟩ := Prod.mk.inj (Option.some.inj h)
    have hfraction := (spanDigits_passes (s := false) mid).length
    obtain ⟨line', mid', heq', halike'⟩ := hmid.uncons nofun (Nat.le_trans hlength hfraction)
    obtain ⟨hdigits', hrest⟩ := spanDigits_alike hb halike' hlength
    rw [heq']
    simp only [hdigits', hempty]
    exact hrest.kept
  · rename_i hdot
    have hnext := hmid.first_ne hb (first_ne hdot) nofun
    split
    · rename_i heq
      rw [heq] at hnext
      exact absurd rfl hnext
    · split_ifs at h ⊢ with hmany
      obtain ⟨rfl, rfl⟩ := Prod.mk.inj (Option.some.inj h)
      exact hmid.kept

theorem parseIn_alike (hb : Behind behind behind') {names bound : List String}
    (h : parseIn bound tokens = some (names, rest)) (halike : Alike behind behind' tokens tokens')
    (hlength : behind.length ≤ rest.length) :
    Kept behind behind' (parseIn bound tokens') names rest := by
  obtain ⟨rfl, line, left, hleft, rfl⟩ := parseIn_some h
  obtain ⟨line', left', hleft', hrest, -⟩ :=
    halike.uncons_skip hb hleft (Nat.le_trans hlength (length_skipNewlines left))
  refine ⟨skipNewlines left', ?_, hrest.skip hb⟩
  rw [parseIn, hleft']
  rfl

theorem parseForNames_alike (hb : Behind behind behind') {names : List String}
    (h : parseForNames tokens = some (names, rest)) (halike : Alike behind behind' tokens tokens')
    (hlength : behind.length ≤ rest.length) :
    Kept behind behind' (parseForNames tokens') names rest := by
  rw [parseForNames_eq] at h ⊢
  obtain ⟨⟨name, mid⟩, hname, h⟩ := Option.bind_eq_some_iff.mp h
  simp only at h
  split at h
  · rename_i line mid
    obtain ⟨⟨second, left⟩, hsecond, h⟩ := Option.bind_eq_some_iff.mp h
    have hle : rest.length ≤ left.length := (parseIn_passes (s := false) h).length
    obtain ⟨line', hline'⟩ := expectWord_some hsecond
    have hmid : behind.length ≤ mid.length := by
      rw [hline', List.length_cons]
      omega
    refine (expectWord_alike hname (halike.skip hb) (by rw [List.length_cons]; omega)).bind
      fun found _ hfound => ?_
    obtain ⟨line'', mid', rfl, hmid'⟩ := hfound.uncons nofun hmid
    exact (expectWord_alike hsecond hmid' (by omega)).bind fun _ _ hleft =>
      parseIn_alike hb h hleft hlength
  · rename_i hcomma
    have hle := (parseIn_passes (s := false) h).length
    refine (expectWord_alike hname (halike.skip hb) (by omega)).bind fun mid' _ hmid' => ?_
    have hnext := hmid'.first_ne hb (first_ne hcomma) nofun
    simp only
    split
    · exact absurd rfl hnext
    · exact parseIn_alike hb h hmid' hlength

theorem parseQualified_alike {first name : String}
    (h : parseQualified first tokens = some (name, rest))
    (halike : Alike behind behind' tokens tokens') (hlength : behind.length ≤ rest.length) :
    Kept behind behind' (parseQualified first tokens') name rest := by
  obtain ⟨⟨second, mid⟩, hsecond, h⟩ := Option.bind_eq_some_iff.mp h
  obtain ⟨left, hcolons, h⟩ := Option.bind_eq_some_iff.mp h
  obtain ⟨⟨third, rest'⟩, hthird, h⟩ := Option.bind_eq_some_iff.mp h
  obtain ⟨rfl, rfl⟩ := Prod.mk.inj (Option.some.inj h)
  have hleft : rest'.length ≤ left.length := by
    obtain ⟨line, rfl⟩ := expectWord_some hthird
    exact Nat.le_succ _
  have hmid : left.length ≤ mid.length := by
    obtain ⟨line, rfl⟩ := expect_some hcolons
    exact Nat.le_succ _
  refine (expectWord_alike hsecond halike (by omega)).bind fun mid' _ hmid' => ?_
  obtain ⟨left', hcolons', hleft'⟩ := expect_alike hcolons hmid' (by omega)
  simp only [hcolons']
  exact (expectWord_alike hthird hleft' hlength).bind fun _ _ hrest => hrest.kept

/-- An ellipsis is there in both places or in neither. -/
theorem takeEllipsis_alike (hb : Behind behind behind')
    (halike : Alike behind behind' tokens tokens')
    (hlength : behind.length ≤ (takeEllipsis tokens).2.length) :
    (takeEllipsis tokens').1 = (takeEllipsis tokens).1
      ∧ Alike behind behind' (takeEllipsis tokens).2 (takeEllipsis tokens').2 := by
  unfold takeEllipsis at hlength ⊢
  cases hmark : expect .ellipsis tokens with
  | some rest =>
    rw [hmark] at hlength
    obtain ⟨rest', hrest', halike'⟩ := expect_alike hmark halike hlength
    rw [hrest']
    exact ⟨rfl, halike'⟩
  | none =>
    rw [expect_none.mpr (halike.first_ne hb (expect_none.mp hmark) nofun)]
    exact ⟨rfl, halike⟩

theorem parseLabel?_alike {key : Expr} (h : parseLabel? tokens = some (key, rest))
    (halike : Alike behind behind' tokens tokens') (hlength : behind.length < rest.length) :
    Kept behind behind' (parseLabel? tokens') key rest := by
  unfold parseLabel? at h
  split at h
  · obtain ⟨rfl, rfl⟩ := Prod.mk.inj (Option.some.inj h)
    obtain ⟨line, left, rfl, hleft⟩ := halike.uncons nofun (Nat.le_of_lt hlength)
    obtain ⟨line', rest', rfl, hrest⟩ := hleft.uncons nofun (Nat.lt_succ_iff.mp hlength)
    exact ⟨_, rfl, .cons hrest⟩
  · obtain ⟨rfl, rfl⟩ := Prod.mk.inj (Option.some.inj h)
    obtain ⟨line, left, rfl, hleft⟩ := halike.uncons nofun (Nat.le_of_lt hlength)
    obtain ⟨line', rest', rfl, hrest⟩ := hleft.uncons nofun (Nat.lt_succ_iff.mp hlength)
    exact ⟨_, rfl, .cons hrest⟩
  · cases h

/-- An element of an object is read alike where its value is. -/
theorem parseField_alike {fuel fuel' : Nat} {field : Expr × Expr}
    (hexpr : ∀ {tokens tokens' rest : Tokens} {e : Expr},
      parseExpr fuel tokens = some (e, rest) → Alike behind behind' tokens tokens' →
      behind.length ≤ rest.length → 8 * tokens'.length + 3 < fuel' →
      Kept behind behind' (parseExpr fuel' tokens') e rest)
    (h : parseField fuel tokens = some (field, rest))
    (halike : Alike behind behind' tokens tokens') (hlength : behind.length ≤ rest.length)
    (hfuel : 8 * tokens'.length + 3 < fuel') :
    Kept behind behind' (parseField fuel' tokens') field rest := by
  obtain ⟨⟨key, mid⟩, hkey, h⟩ := Option.bind_eq_some_iff.mp h
  obtain ⟨behindBinder, hbinder, h⟩ := Option.bind_eq_some_iff.mp h
  obtain ⟨⟨value, left⟩, hvalue, h⟩ := Option.bind_eq_some_iff.mp h
  obtain ⟨rfl, rfl⟩ := Prod.mk.inj (Option.some.inj h)
  have hvalueShort := (parseExpr_reads fuel hvalue).2
  have hbinderShort := expectBinder_length hbinder
  have hkeyKept : Kept behind behind' (parseKey fuel' tokens') key mid := by
    unfold parseKey at hkey ⊢
    split at hkey
    · rename_i found hlabel
      rw [hkey] at hlabel
      obtain ⟨mid', hlabel', hmid'⟩ := parseLabel?_alike hlabel halike (by omega)
      rw [hlabel']
      exact hmid'.kept
    · rename_i hlabel
      have hkeyShort := (parseExpr_reads fuel hkey).2
      rw [halike.parseLabel?_none (by omega) hlabel]
      exact hexpr hkey halike (by omega) hfuel
  refine hkeyKept.bind fun mid' hread hmid' => ?_
  obtain ⟨behindBinder', hbinder', hbehind'⟩ := expectBinder_alike hbinder hmid' (by omega)
  have hbinderShort' := expectBinder_length hbinder'
  have hkeyShort := (parseKey_reads (fun hexpr => parseExpr_reads fuel' hexpr) hread).2
  simp only [hbinder']
  exact (hexpr hvalue hbehind' hlength (by omega)).bind fun left' _ hleft' => hleft'.kept

end Parts

section Expressions

/-- What a function of the parser reads with this fuel it reads alike with eight steps for each
token and more than `c` in addition. -/
def ReadsAlike {α : Type} (behind behind' : Tokens) (parse : Nat → Tokens → Option (α × Tokens))
    (c fuel : Nat) : Prop :=
  ∀ ⦃tokens tokens' rest : Tokens⦄ ⦃a : α⦄, parse fuel tokens = some (a, rest) →
    Alike behind behind' tokens tokens' → behind.length ≤ rest.length →
    ∀ ⦃fuel' : Nat⦄, 8 * tokens'.length + c < fuel' →
    Kept behind behind' (parse fuel' tokens') a rest

theorem ReadsAlike.zero {α : Type} {parse : Nat → Tokens → Option (α × Tokens)} {c : Nat}
    (h : ∀ tokens, parse 0 tokens = none) : ReadsAlike behind behind' parse c 0 :=
  fun _ _ _ _ hread => absurd ((h _).symm.trans hread) nofun

theorem ReadsAlike.succ {α : Type} {parse : Nat → Tokens → Option (α × Tokens)} {c fuel : Nat}
    (h : ∀ ⦃tokens tokens' rest : Tokens⦄ ⦃a : α⦄, parse (fuel + 1) tokens = some (a, rest) →
      Alike behind behind' tokens tokens' → behind.length ≤ rest.length →
      ∀ ⦃fuel' : Nat⦄, 8 * tokens'.length + c < fuel' + 1 →
      Kept behind behind' (parse (fuel' + 1) tokens') a rest) :
    ReadsAlike behind behind' parse c (fuel + 1) := by
  intro tokens tokens' rest a hread halike hlength fuel' hfuel
  obtain ⟨n, rfl⟩ : ∃ n, fuel' = n + 1 := ⟨fuel' - 1, by omega⟩
  exact h hread halike hlength hfuel

/-- What is read behind newlines. -/
theorem ReadsAlike.skip {α : Type} {parse : Nat → Tokens → Option (α × Tokens)} {c fuel : Nat}
    (hb : Behind behind behind') (hparse : ReadsAlike behind behind' parse c fuel)
    {tokens tokens' rest : Tokens} {a : α} (h : parse fuel (skipNewlines tokens) = some (a, rest))
    (halike : Alike behind behind' tokens tokens') (hlength : behind.length ≤ rest.length)
    {fuel' : Nat} (hfuel : 8 * tokens'.length + c < fuel') :
    Kept behind behind' (parse fuel' (skipNewlines tokens')) a rest := by
  have hskip := length_skipNewlines tokens'
  exact hparse h (halike.skip hb) hlength (by omega)

/-- What is read behind the word `for` with newlines in front of it. -/
theorem ReadsAlike.behind_for {α : Type} {parse : Nat → Tokens → Option (α × Tokens)} {c fuel : Nat}
    (hb : Behind behind behind') (hparse : ReadsAlike behind behind' parse c fuel)
    {tokens tokens' rest : Tokens} {a : α} (hfor : isFor (skipNewlines tokens) = true)
    (h : parse fuel ((skipNewlines tokens).drop 1) = some (a, rest))
    (hshort : rest.length < ((skipNewlines tokens).drop 1).length)
    (halike : Alike behind behind' tokens tokens') (hlength : behind.length ≤ rest.length)
    {fuel' : Nat} (hfuel : 8 * tokens'.length + c < fuel' + 8) :
    Kept behind behind' (parse fuel' ((skipNewlines tokens').drop 1)) a rest := by
  obtain ⟨line, left, hleft⟩ := isFor_some hfor
  rw [hleft, List.drop_one, List.tail_cons] at h hshort
  obtain ⟨line', left', hleft', hleftAlike, hless⟩ :=
    halike.uncons_skip hb hleft (by omega)
  rw [hleft']
  exact hparse h hleftAlike hlength (by omega)

/-- All functions of the parser read alike what they read with this fuel. -/
structure AllAlike (behind behind' : Tokens) (fuel : Nat) : Prop where
  expr : ReadsAlike behind behind' parseExpr 3 fuel
  operators (left : Expr) : ReadsAlike behind behind' (parseOperators · left ·) 0 fuel
  operand : ReadsAlike behind behind' parseOperand 2 fuel
  term : ReadsAlike behind behind' parseTerm 1 fuel
  access (behindSplat : Bool) (base : Expr) :
    ReadsAlike behind behind' (parseAccess · behindSplat base ·) 0 fuel
  primary : ReadsAlike behind behind' parsePrimary 0 fuel
  items : ReadsAlike behind behind' parseItems 4 fuel
  fields : ReadsAlike behind behind' parseFields 4 fuel
  arguments : ReadsAlike behind behind' parseArguments 5 fuel
  someArguments : ReadsAlike behind behind' parseSomeArguments 4 fuel
  forHead : ReadsAlike behind behind' parseForHead 4 fuel
  guard : ReadsAlike behind behind' parseGuard 0 fuel
  forTuple : ReadsAlike behind behind' parseForTuple 5 fuel
  forObject : ReadsAlike behind behind' parseForObject 5 fuel

section Step

variable {fuel : Nat} (hb : Behind behind behind') (hall : AllAlike behind behind' fuel)
include hall

include hb in
/-- An expression behind newlines, and the mark that is expected behind it. -/
theorem AllAlike.expr_mark (fuel' : Nat) {mark : Mark} {e : Expr}
    {tokens tokens' mid left : Tokens}
    (hexpr : parseExpr fuel (skipNewlines tokens) = some (e, mid))
    (hmark : expect mark (skipNewlines mid) = some left)
    (halike : Alike behind behind' tokens tokens') (hlength : behind.length ≤ left.length)
    (hfuel : 8 * tokens'.length + 3 < fuel') :
    ∃ mid' left', parseExpr fuel' (skipNewlines tokens') = some (e, mid')
      ∧ expect mark (skipNewlines mid') = some left' ∧ Alike behind behind' left left'
      ∧ left'.length + 2 ≤ tokens'.length := by
  have hmarked := expect_length hmark
  have hskip := length_skipNewlines mid
  obtain ⟨mid', hexpr', hmid'⟩ := hall.expr.skip hb hexpr halike (by omega) hfuel
  obtain ⟨left', hmark', hleft'⟩ := expect_alike hmark (hmid'.skip hb) hlength
  have hshort := (parseExpr_reads fuel' hexpr').2
  have hmarked' := expect_length hmark'
  have hskip' := length_skipNewlines mid'
  have hskips := length_skipNewlines tokens'
  exact ⟨mid', left', hexpr', hmark', hleft', by omega⟩

theorem AllAlike.expr_succ :
    ReadsAlike behind behind' parseExpr 3 (fuel + 1) := by
  refine .succ fun tokens tokens' rest e h halike hlength fuel' hfuel => ?_
  obtain ⟨⟨left, mid⟩, hleft, h⟩ := Option.bind_eq_some_iff.mp h
  have hmid := (parseOperators_passes fuel h).length
  refine (hall.operand hleft halike (by omega) (by omega)).bind
    fun mid' hread hmid' => ?_
  have hshort := (parseOperand_reads fuel' hread).2
  exact hall.operators _ h hmid' hlength (by omega)

include hb in
theorem AllAlike.operators_succ (left : Expr) :
    ReadsAlike behind behind' (parseOperators · left ·) 0 (fuel + 1) := by
  refine .succ fun tokens tokens' rest e h halike hlength fuel' hfuel => ?_
  unfold parseOperators at h
  split at h
  · rename_i op line behindOp
    obtain ⟨⟨right, mid⟩, hright, h⟩ := Option.bind_eq_some_iff.mp h
    have hmid := (parseOperators_passes fuel h).length
    have hskip := length_skipNewlines mid
    have hoperand := (parseExpr_reads fuel hright).2
    have hskip' := length_skipNewlines behindOp
    obtain ⟨line', behindOp', rfl, hbehind⟩ := halike.uncons (by simp) (by omega)
    rw [List.length_cons] at hfuel
    refine (hall.expr.skip hb hright hbehind (by omega) (by omega)).bind fun mid' hread hmid' => ?_
    have hshort := (parseExpr_reads fuel' hread).2
    have hskip'' := length_skipNewlines behindOp'
    exact (hall.operators _).skip hb h hmid' hlength (by omega)
  · rename_i line behindMark
    obtain ⟨⟨yes, mid⟩, hyes, h⟩ := Option.bind_eq_some_iff.mp h
    obtain ⟨behindColon, hcolon, h⟩ := Option.bind_eq_some_iff.mp h
    obtain ⟨⟨no, left⟩, hno, h⟩ := Option.bind_eq_some_iff.mp h
    obtain ⟨rfl, rfl⟩ := Prod.mk.inj (Option.some.inj h)
    have hlengths := (parseExpr_reads fuel hyes).2
    have hlengths' := (parseExpr_reads fuel hno).2
    have hcolons := expect_length hcolon
    have hskips := And.intro (length_skipNewlines behindMark)
      (And.intro (length_skipNewlines mid) (length_skipNewlines behindColon))
    obtain ⟨line', behindMark', rfl, hbehind⟩ := halike.uncons (by simp) (by omega)
    rw [List.length_cons] at hfuel
    obtain ⟨mid', behindColon', hyes', hcolon', hbehind', hless⟩ :=
      hall.expr_mark hb fuel' hyes hcolon hbehind (by omega) (by omega)
    rw [parseOperators, hyes', Option.bind_eq_bind, Option.bind_some]
    simp only [hcolon']
    exact (hall.expr.skip hb hno hbehind' hlength (by omega)).bind fun _ _ hrest => hrest.kept
  · rename_i hop hquestion
    obtain ⟨rfl, rfl⟩ := Prod.mk.inj (Option.some.inj h)
    rw [parseOperators_stop
      (fun op => halike.first_ne hb (first_ne fun line rest => hop op line rest) (by simp))
      (halike.first_ne hb (first_ne hquestion) (by simp))]
    exact halike.kept

include hb in
theorem AllAlike.operand_succ :
    ReadsAlike behind behind' parseOperand 2 (fuel + 1) := by
  refine .succ fun tokens tokens' rest e h halike hlength fuel' hfuel => ?_
  unfold parseOperand at h
  split at h
  · obtain ⟨⟨operand, mid⟩, hoperand, h⟩ := Option.bind_eq_some_iff.mp h
    obtain ⟨rfl, rfl⟩ := Prod.mk.inj (Option.some.inj h)
    have hshort := (parseTerm_reads fuel hoperand).2
    obtain ⟨line', mark', rfl, hbehind⟩ := halike.uncons (by simp) (by omega)
    rw [List.length_cons] at hfuel
    exact (hall.term hoperand hbehind hlength (by omega)).bind
      fun _ _ hrest => hrest.kept
  · obtain ⟨⟨operand, mid⟩, hoperand, h⟩ := Option.bind_eq_some_iff.mp h
    obtain ⟨rfl, rfl⟩ := Prod.mk.inj (Option.some.inj h)
    have hshort := (parseTerm_reads fuel hoperand).2
    obtain ⟨line', mark', rfl, hbehind⟩ := halike.uncons (by simp) (by omega)
    rw [List.length_cons] at hfuel
    exact (hall.term hoperand hbehind hlength (by omega)).bind
      fun _ _ hrest => hrest.kept
  · rename_i hminus hbang
    rw [parseOperand_term (halike.first_ne hb (first_ne hminus) (by simp))
      (halike.first_ne hb (first_ne hbang) (by simp))]
    exact hall.term h halike hlength (by omega)

theorem AllAlike.term_succ :
    ReadsAlike behind behind' parseTerm 1 (fuel + 1) := by
  refine .succ fun tokens tokens' rest e h halike hlength fuel' hfuel => ?_
  obtain ⟨⟨base, mid⟩, hbase, h⟩ := Option.bind_eq_some_iff.mp h
  have hmid := (parseAccess_passes fuel h).length
  refine (hall.primary hbase halike (by omega) (by omega)).bind
    fun mid' hread hmid' => ?_
  have hshort := (parsePrimary_reads fuel' hread).2
  exact hall.access _ _ h hmid' hlength (by omega)

include hb in
theorem AllAlike.access_succ (behindSplat : Bool) (base : Expr) :
    ReadsAlike behind behind' (parseAccess · behindSplat base ·) 0 (fuel + 1) := by
  refine .succ fun tokens tokens' rest e h halike hlength fuel' hfuel => ?_
  unfold parseAccess at h
  split at h
  · have hle := (parseAccess_passes fuel h).length
    obtain ⟨line, word, rfl, hword⟩ := halike.uncons (by simp) (by rw [List.length_cons]; omega)
    obtain ⟨line', mid', rfl, hmid⟩ := hword.uncons (by simp) (by omega)
    simp only [List.length_cons] at hfuel
    exact hall.access _ _ h hmid hlength (by omega)
  · rename_i mid
    split_ifs at h with hsplat
    have hle := (parseAccess_passes fuel h).length
    have hdigits := (spanDigits_passes (s := false) mid).length
    obtain ⟨line, digit, rfl, hdigit⟩ := halike.uncons (by simp) (by rw [List.length_cons]; omega)
    obtain ⟨line', mid', rfl, hmid⟩ := hdigit.uncons (by simp) (by omega)
    obtain ⟨-, hrest⟩ := spanDigits_alike hb hmid (by omega)
    have hdigits' := (spanDigits_passes (s := false) mid').length
    simp only [List.length_cons] at hfuel
    rw [parseAccess, if_neg hsplat]
    exact hall.access _ _ h hrest hlength (by omega)
  · cases h
  · have hle := (parseAccess_passes fuel h).length
    obtain ⟨line, mid', rfl, hmid⟩ := halike.uncons (by simp) (by omega)
    rw [List.length_cons] at hfuel
    exact hall.access _ _ h hmid hlength (by omega)
  · have hle := (parseAccess_passes fuel h).length
    obtain ⟨line, mid', rfl, hmid⟩ := halike.uncons (by simp) (by omega)
    rw [List.length_cons] at hfuel
    exact hall.access _ _ h hmid hlength (by omega)
  · rename_i line inside
    obtain ⟨⟨position, mid⟩, hposition, h⟩ := Option.bind_eq_some_iff.mp h
    obtain ⟨left, hclose, h⟩ := Option.bind_eq_some_iff.mp h
    have hle := (parseAccess_passes fuel h).length
    have hshort := (parseExpr_reads fuel hposition).2
    have hclosing := expect_length hclose
    have hskips := And.intro (length_skipNewlines inside) (length_skipNewlines mid)
    obtain ⟨line', inside', rfl, hinside⟩ := halike.uncons (by simp) (by omega)
    rw [List.length_cons] at hfuel
    obtain ⟨mid', left', hposition', hclose', hleft', hless⟩ :=
      hall.expr_mark hb fuel' hposition hclose hinside (by omega) (by omega)
    rw [parseAccess, hposition', Option.bind_eq_bind, Option.bind_some]
    simp only [hclose']
    exact hall.access _ _ h hleft' hlength (by omega)
  · rename_i hword hdigit hdot hattribute hfull hbracket
    obtain ⟨rfl, rfl⟩ := Prod.mk.inj (Option.some.inj h)
    rw [parseAccess_stop (halike.first_ne hb (first_ne hdot) (by simp))
      (halike.first_ne hb (first_ne hattribute) (by simp))
      (halike.first_ne hb (first_ne hfull) (by simp))
      (halike.first_ne hb (first_ne hbracket) (by simp))]
    exact halike.kept

section Primary

variable {fuel' : Nat} {inside tokens' rest : Tokens} {e : Expr}

include hb in
/-- A tuple: where it is a `for` expression in one place, it is one in the other. -/
theorem AllAlike.primary_bracket {line : Nat}
    (h : parsePrimary (fuel + 1) (⟨.mark .openBracket, line⟩ :: inside) = some (e, rest))
    (halike : Alike behind behind' (⟨.mark .openBracket, line⟩ :: inside) tokens')
    (hlength : behind.length ≤ rest.length) (hfuel : 8 * tokens'.length < fuel' + 1) :
    Kept behind behind' (parsePrimary (fuel' + 1) tokens') e rest := by
  rw [parsePrimary] at h
  have hinside := parsePrimary_bracket (n := 0) (parseForTuple_closes fuel)
    (parseItems_closes fuel) h
  have hshort := hinside.length
  have hskip := length_skipNewlines inside
  obtain ⟨line', inside', rfl, hbehind⟩ := halike.uncons (by simp) (by omega)
  obtain ⟨hstarts, hword⟩ := hbehind.startsFor_skip hb (by omega) fun hfor => by
    have := hinside.length_first fun line rest heq => by rw [heq] at hfor; cases hfor
    omega
  have hbreaks : (skipNewlines inside').length < inside'.length
      ↔ (skipNewlines inside).length < inside.length := by
    rw [skipNewlines_shorter, skipNewlines_shorter, hbehind.first_eq (by omega)]
  rw [List.length_cons] at hfuel
  rw [parsePrimary]
  simp only [hstarts, hword, hbreaks] at h ⊢
  split at h
  · rename_i hfor
    rw [if_pos hfor]
    exact hall.forTuple.behind_for hb (isFor_of_or hfor) h (parseForTuple_closes fuel h).length
      hbehind hlength (by omega)
  · rename_i hfor
    rw [if_neg hfor]
    obtain ⟨⟨items, left⟩, hitems, h⟩ := Option.bind_eq_some_iff.mp h
    obtain ⟨rfl, rfl⟩ := Prod.mk.inj (Option.some.inj h)
    exact (hall.items.skip hb hitems hbehind hlength (by omega)).bind fun _ _ hrest => hrest.kept

include hb in
/-- An object, likewise. -/
theorem AllAlike.primary_brace {line : Nat}
    (h : parsePrimary (fuel + 1) (⟨.mark .openBrace, line⟩ :: inside) = some (e, rest))
    (halike : Alike behind behind' (⟨.mark .openBrace, line⟩ :: inside) tokens')
    (hlength : behind.length ≤ rest.length) (hfuel : 8 * tokens'.length < fuel' + 1) :
    Kept behind behind' (parsePrimary (fuel' + 1) tokens') e rest := by
  rw [parsePrimary] at h
  have hinside := parsePrimary_brace (n := 0) (parseForObject_closes fuel)
    (parseFields_closes fuel) h
  have hshort := hinside.length
  have hskip := length_skipNewlines inside
  obtain ⟨line', inside', rfl, hbehind⟩ := halike.uncons (by simp) (by omega)
  obtain ⟨hstarts, -⟩ := hbehind.startsFor_skip hb (by omega) fun hfor => by
    have := hinside.length_first fun line rest heq => by rw [heq] at hfor; cases hfor
    omega
  rw [List.length_cons] at hfuel
  rw [parsePrimary]
  simp only [hstarts] at h ⊢
  split at h
  · rename_i hfor
    rw [if_pos hfor]
    exact hall.forObject.behind_for hb (isFor_of_startsFor hfor) h
      (parseForObject_closes fuel h).length hbehind hlength (by omega)
  · rename_i hfor
    rw [if_neg hfor]
    obtain ⟨⟨fields, left⟩, hfields, h⟩ := Option.bind_eq_some_iff.mp h
    obtain ⟨rfl, rfl⟩ := Prod.mk.inj (Option.some.inj h)
    exact (hall.fields.skip hb hfields hbehind hlength (by omega)).bind fun _ _ hrest => hrest.kept

include hb in
/-- A call of a function with a name in three parts. -/
theorem AllAlike.primary_qualified {name : String} {line line' : Nat}
    (h : parsePrimary (fuel + 1) (⟨.word name, line⟩ :: ⟨.mark .doubleColon, line'⟩ :: inside)
      = some (e, rest))
    (halike : Alike behind behind' (⟨.word name, line⟩ :: ⟨.mark .doubleColon, line'⟩ :: inside)
      tokens')
    (hlength : behind.length ≤ rest.length) (hfuel : 8 * tokens'.length < fuel' + 1) :
    Kept behind behind' (parsePrimary (fuel' + 1) tokens') e rest := by
  obtain ⟨⟨function, behindName⟩, hfunction, h⟩ := Option.bind_eq_some_iff.mp h
  obtain ⟨behindParen, hopen, h⟩ := Option.bind_eq_some_iff.mp h
  obtain ⟨⟨arguments, left⟩, harguments, h⟩ := Option.bind_eq_some_iff.mp h
  obtain ⟨rfl, rfl⟩ := Prod.mk.inj (Option.some.inj h)
  have hshort := (parseArguments_reads fuel harguments).2
  have hskip := length_skipNewlines behindParen
  have hopening := expect_length hopen
  have hname := (parseQualified_reads (s := false) hfunction).2
  obtain ⟨_, colons', rfl, hcolons⟩ := halike.uncons (by simp) (by rw [List.length_cons]; omega)
  obtain ⟨_, inside', rfl, hinside⟩ := hcolons.uncons (by simp) (by omega)
  simp only [List.length_cons] at hfuel
  refine (parseQualified_alike hfunction hinside (by omega)).bind
    fun behindName' hread hname' => ?_
  have hshort' := (parseQualified_reads (s := false) hread).2
  obtain ⟨behindParen', hopen', hparen⟩ := expect_alike hopen hname' (by omega)
  have hopening' := expect_length hopen'
  simp only [hopen']
  exact (hall.arguments.skip hb harguments hparen hlength (by omega)).bind
    fun _ _ hrest => hrest.kept

end Primary

include hb in
theorem AllAlike.primary_succ :
    ReadsAlike behind behind' parsePrimary 0 (fuel + 1) := by
  refine .succ fun tokens tokens' rest e h halike hlength fuel' hfuel => ?_
  have hread := h
  unfold parsePrimary at h
  split at h
  · rename_i line inside
    obtain ⟨⟨inner, mid⟩, hinner, h⟩ := Option.bind_eq_some_iff.mp h
    obtain ⟨left, hclose, h⟩ := Option.bind_eq_some_iff.mp h
    obtain ⟨rfl, rfl⟩ := Prod.mk.inj (Option.some.inj h)
    have hshort := (parseExpr_reads fuel hinner).2
    have hclosing := expect_length hclose
    have hskips := And.intro (length_skipNewlines inside) (length_skipNewlines mid)
    obtain ⟨line', inside', rfl, hinside⟩ := halike.uncons (by simp) (by omega)
    rw [List.length_cons] at hfuel
    obtain ⟨mid', left', hinner', hclose', hleft', -⟩ :=
      hall.expr_mark hb fuel' hinner hclose hinside hlength (by omega)
    rw [parsePrimary, hinner', Option.bind_eq_bind, Option.bind_some]
    simp only [hclose']
    exact hleft'.kept
  · have hshort := (parseNumber_reads (s := false) h).2
    rw [List.length_cons] at hshort
    obtain ⟨line', left', rfl, hleft⟩ := halike.uncons (by simp) (by omega)
    exact parseNumber_alike hb h halike hlength
  · obtain ⟨rfl, rfl⟩ := Prod.mk.inj (Option.some.inj h)
    obtain ⟨line', left', rfl, hleft⟩ := halike.uncons (by simp) hlength
    exact hleft.kept
  · obtain ⟨rfl, rfl⟩ := Prod.mk.inj (Option.some.inj h)
    obtain ⟨line', left', rfl, hleft⟩ := halike.uncons (by simp) hlength
    exact hleft.kept
  · exact hall.primary_bracket hb hread halike hlength hfuel
  · exact hall.primary_brace hb hread halike hlength hfuel
  · rename_i name line line' inside
    obtain ⟨⟨arguments, left⟩, harguments, h⟩ := Option.bind_eq_some_iff.mp h
    obtain ⟨rfl, rfl⟩ := Prod.mk.inj (Option.some.inj h)
    have hshort := (parseArguments_reads fuel harguments).2
    have hskip := length_skipNewlines inside
    obtain ⟨_, paren', rfl, hparen⟩ := halike.uncons (by simp) (by rw [List.length_cons]; omega)
    obtain ⟨_, inside', rfl, hinside⟩ := hparen.uncons (by simp) (by omega)
    simp only [List.length_cons] at hfuel
    exact (hall.arguments.skip hb harguments hinside hlength (by omega)).bind
      fun _ _ hrest => hrest.kept
  · exact hall.primary_qualified hb hread halike hlength hfuel
  · rename_i name line mid hparen hcolons
    obtain ⟨rfl, rfl⟩ := Prod.mk.inj (Option.some.inj h)
    obtain ⟨line', mid', rfl, hmid⟩ := halike.uncons (by simp) hlength
    have hparen' : first mid' ≠ some (.mark .openParen) := hmid.first_ne hb
      (first_ne hparen) (by simp)
    have hcolons' : first mid' ≠ some (.mark .doubleColon) := hmid.first_ne hb
      (first_ne hcolons) (by simp)
    rw [parsePrimary_word hparen' hcolons']
    exact hmid.kept
  · cases h

include hb in
theorem AllAlike.items_succ :
    ReadsAlike behind behind' parseItems 4 (fuel + 1) := by
  refine .succ fun tokens tokens' rest items h halike hlength fuel' hfuel => ?_
  have hshort := (parseItems_closes (fuel + 1) h).length
  by_cases hclose : first tokens = some (.mark .closeBracket)
  · obtain ⟨line, left, rfl⟩ := first_some hclose
    obtain ⟨rfl, rfl⟩ := Prod.mk.inj (Option.some.inj h)
    obtain ⟨line', left', rfl, hleft⟩ := halike.uncons (by simp) hlength
    exact hleft.kept
  · rw [parseItems_item hclose] at h
    rw [parseItems_item (by rwa [halike.first_eq (by omega)])]
    obtain ⟨⟨item, mid⟩, hitem, h⟩ := Option.bind_eq_some_iff.mp h
    have hskip := length_skipNewlines mid
    simp only at h
    split at h
    · rename_i line left heq
      obtain ⟨rfl, rfl⟩ := Prod.mk.inj (Option.some.inj h)
      rw [heq, List.length_cons] at hskip
      refine (hall.expr hitem halike (by omega) (by omega)).bind
        fun mid' _ hmid' => ?_
      obtain ⟨line', left', heq', hleft, -⟩ := hmid'.uncons_skip hb heq hlength
      simp only [heq']
      exact hleft.kept
    · rename_i line left heq
      obtain ⟨⟨more, last⟩, hmore, h⟩ := Option.bind_eq_some_iff.mp h
      obtain ⟨rfl, rfl⟩ := Prod.mk.inj (Option.some.inj h)
      have hlast : behind.length ≤ last.length := hlength
      have hmoreShort := (parseItems_closes fuel hmore).length
      have hskipleft := length_skipNewlines left
      rw [heq, List.length_cons] at hskip
      refine (hall.expr hitem halike (by omega) (by omega)).bind
        fun mid' hread hmid' => ?_
      have hreadShort := (parseExpr_reads fuel' hread).2
      obtain ⟨line', left', heq', hleft, hless⟩ := hmid'.uncons_skip hb heq (by omega)
      simp only [heq']
      exact (hall.items.skip hb hmore hleft hlength (by omega)).bind fun _ _ hrest => hrest.kept
    · cases h

include hb in
theorem AllAlike.fields_succ :
    ReadsAlike behind behind' parseFields 4 (fuel + 1) := by
  refine .succ fun tokens tokens' rest fields h halike hlength fuel' hfuel => ?_
  have hshort := (parseFields_closes (fuel + 1) h).length
  by_cases hclose : first tokens = some (.mark .closeBrace)
  · obtain ⟨line, left, rfl⟩ := first_some hclose
    obtain ⟨rfl, rfl⟩ := Prod.mk.inj (Option.some.inj h)
    obtain ⟨line', left', rfl, hleft⟩ := halike.uncons (by simp) hlength
    exact hleft.kept
  · have hne : ∀ {tokens : Tokens}, first tokens ≠ some (.mark .closeBrace) →
        ∀ line rest, tokens ≠ ⟨.mark .closeBrace, line⟩ :: rest :=
      fun hfirst line rest heq => hfirst (by rw [heq]; rfl)
    rw [parseFields_field fuel (hne hclose)] at h
    rw [parseFields_field fuel' (hne (by rwa [halike.first_eq (by omega)]))]
    obtain ⟨⟨field, left⟩, hfield, h⟩ := Option.bind_eq_some_iff.mp h
    have hkept (hle : behind.length ≤ left.length) :
        Kept behind behind' (parseField fuel' tokens') field left :=
      parseField_alike
        (fun h halike hle hfuel => hall.expr h halike hle hfuel)
        hfield halike hle (by omega)
    have hread {left' : Tokens} (h : parseField fuel' tokens' = some (field, left')) :
        8 * left'.length + 8 ≤ fuel' := by
      have hless := (parseField_reads (fun hexpr => parseExpr_reads fuel' hexpr) h).2
      omega
    simp only at h
    split at h
    · obtain ⟨rfl, rfl⟩ := Prod.mk.inj (Option.some.inj h)
      refine (hkept (by rw [List.length_cons]; omega)).bind fun left' _ hleft' => ?_
      obtain ⟨line', rest', rfl, hrest⟩ := hleft'.uncons (by simp) hlength
      exact hrest.kept
    · rename_i line more
      obtain ⟨⟨others, last⟩, hothers, h⟩ := Option.bind_eq_some_iff.mp h
      obtain ⟨rfl, rfl⟩ := Prod.mk.inj (Option.some.inj h)
      have hlast : behind.length ≤ last.length := hlength
      have hothersShort := (parseFields_closes fuel hothers).length
      have hskip := length_skipNewlines more
      refine (hkept (by rw [List.length_cons]; omega)).bind fun left' hread' hleft' => ?_
      have hfuel' := hread hread'
      obtain ⟨line', more', rfl, hmore⟩ := hleft'.uncons_newline hb
      have hskip' := length_skipNewlines more'
      rw [List.length_cons] at hfuel'
      exact (hall.fields hothers hmore hlength (by omega)).bind
        fun _ _ hrest => hrest.kept
    · rename_i line more
      obtain ⟨⟨others, last⟩, hothers, h⟩ := Option.bind_eq_some_iff.mp h
      obtain ⟨rfl, rfl⟩ := Prod.mk.inj (Option.some.inj h)
      have hlast : behind.length ≤ last.length := hlength
      have hothersShort := (parseFields_closes fuel hothers).length
      have hskip := length_skipNewlines more
      refine (hkept (by rw [List.length_cons]; omega)).bind fun left' hread' hleft' => ?_
      have hfuel' := hread hread'
      obtain ⟨line', more', rfl, hmore⟩ := hleft'.uncons (by simp) (by omega)
      rw [List.length_cons] at hfuel'
      exact (hall.fields.skip hb hothers hmore hlength (by omega)).bind
        fun _ _ hrest => hrest.kept
    · cases h

include hb in
theorem AllAlike.arguments_succ :
    ReadsAlike behind behind' parseArguments 5 (fuel + 1) := by
  refine .succ fun tokens tokens' rest arguments h halike hlength fuel' hfuel => ?_
  unfold parseArguments at h
  split at h
  · obtain ⟨rfl, rfl⟩ := Prod.mk.inj (Option.some.inj h)
    obtain ⟨line', left', rfl, hleft⟩ := halike.uncons (by simp) hlength
    exact hleft.kept
  · rename_i hclose
    rw [parseArguments_some (halike.first_ne hb (first_ne hclose) (by simp))]
    exact hall.someArguments h halike hlength (by omega)

include hb in
/-- What follows an argument. A comma or an ellipsis tells how to go on if it comes right behind the
argument. -/
theorem AllAlike.behindArgument {fuel' : Nat} {argument : Expr} {tokens tokens' rest : Tokens}
    {arguments : List Expr} (h : parseBehindArgument fuel argument tokens = some (arguments, rest))
    (halike : Alike behind behind' tokens tokens') (hlength : behind.length ≤ rest.length)
    (hfuel : 8 * tokens'.length + 4 < fuel') :
    Kept behind behind' (parseBehindArgument fuel' argument tokens') arguments rest := by
  unfold parseBehindArgument at h
  split at h
  · rename_i line mid
    obtain ⟨left, hclose, h⟩ := Option.bind_eq_some_iff.mp h
    obtain ⟨rfl, rfl⟩ := Prod.mk.inj (Option.some.inj h)
    have hclosing := expect_length hclose
    have hskip := length_skipNewlines mid
    obtain ⟨line', mid', rfl, hmid⟩ := halike.uncons (by simp) (by omega)
    obtain ⟨left', hclose', hleft'⟩ := expect_alike hclose (hmid.skip hb) hlength
    simp only [parseBehindArgument, hclose']
    exact hleft'.kept
  · rename_i line mid
    have hskip := length_skipNewlines mid
    split at h
    · rename_i _ left heq
      obtain ⟨rfl, rfl⟩ := Prod.mk.inj (Option.some.inj h)
      rw [heq, List.length_cons] at hskip
      obtain ⟨line', mid', rfl, hmid⟩ := halike.uncons (by simp) (by omega)
      obtain ⟨_, left', heq', hleft', -⟩ := hmid.uncons_skip hb heq hlength
      simp only [parseBehindArgument, heq']
      exact hleft'.kept
    · rename_i hparen
      obtain ⟨⟨more, last⟩, hmore, h⟩ := Option.bind_eq_some_iff.mp h
      obtain ⟨rfl, rfl⟩ := Prod.mk.inj (Option.some.inj h)
      have hmoreShort := (parseSomeArguments_reads fuel hmore).2
      obtain ⟨line', mid', rfl, hmid⟩ := halike.uncons (by simp) (by omega)
      rw [List.length_cons] at hfuel
      rw [parseBehindArgument_comma ((hmid.skip hb).first_ne hb (first_ne hparen) (by simp))]
      exact (hall.someArguments.skip hb hmore hmid hlength (by omega)).bind
        fun _ _ hrest => hrest.kept
  · rename_i hellipsis hcomma
    have hskip := length_skipNewlines tokens
    rw [parseBehindArgument_other (halike.first_ne hb (first_ne hellipsis) (by simp))
      (halike.first_ne hb (first_ne hcomma) (by simp))]
    split at h
    · rename_i _ left heq
      obtain ⟨rfl, rfl⟩ := Prod.mk.inj (Option.some.inj h)
      obtain ⟨_, left', heq', hleft', -⟩ := halike.uncons_skip hb heq hlength
      simp only [heq']
      exact hleft'.kept
    · rename_i _ left heq
      obtain ⟨⟨more, last⟩, hmore, h⟩ := Option.bind_eq_some_iff.mp h
      obtain ⟨rfl, rfl⟩ := Prod.mk.inj (Option.some.inj h)
      have hmoreShort := (parseSomeArguments_reads fuel hmore).2
      have hskipleft := length_skipNewlines left
      obtain ⟨_, left', heq', hleft', hless⟩ := halike.uncons_skip hb heq (by omega)
      simp only [heq']
      exact (hall.someArguments.skip hb hmore hleft' hlength (by omega)).bind
        fun _ _ hrest => hrest.kept
    · cases h

include hb in
theorem AllAlike.someArguments_succ :
    ReadsAlike behind behind' parseSomeArguments 4 (fuel + 1) := by
  refine .succ fun tokens tokens' rest arguments h halike hlength fuel' hfuel => ?_
  rw [parseSomeArguments_eq] at h ⊢
  obtain ⟨⟨argument, mid⟩, hargument, h⟩ := Option.bind_eq_some_iff.mp h
  have hmid := (parseBehindArgument_passes
    (fun hmore => parseSomeArguments_reads fuel hmore) h).length
  refine (hall.expr hargument halike (by omega) (by omega)).bind fun mid' hread hmid' => ?_
  have hshort := (parseExpr_reads fuel' hread).2
  exact hall.behindArgument hb h hmid' hlength (by omega)

include hb in
theorem AllAlike.guard_succ :
    ReadsAlike behind behind' parseGuard 0 (fuel + 1) := by
  refine .succ fun tokens tokens' rest guard h halike hlength fuel' hfuel => ?_
  unfold parseGuard at h
  split at h
  · rename_i line mid
    obtain ⟨⟨condition, left⟩, hcondition, h⟩ := Option.bind_eq_some_iff.mp h
    obtain ⟨rfl, rfl⟩ := Prod.mk.inj (Option.some.inj h)
    have hshort := (parseExpr_reads fuel hcondition).2
    have hskip := length_skipNewlines mid
    obtain ⟨line', mid', rfl, hmid⟩ := halike.uncons (by simp) (by omega)
    rw [List.length_cons] at hfuel
    exact (hall.expr.skip hb hcondition hmid hlength (by omega)).bind fun _ _ hrest => hrest.kept
  · rename_i hif
    obtain ⟨rfl, rfl⟩ := Prod.mk.inj (Option.some.inj h)
    rw [parseGuard_none (halike.first_ne hb (first_ne hif) (by simp))]
    exact halike.kept

include hb in
theorem AllAlike.forHead_succ :
    ReadsAlike behind behind' parseForHead 4 (fuel + 1) := by
  refine .succ fun tokens tokens' rest head h halike hlength fuel' hfuel => ?_
  obtain ⟨⟨names, mid⟩, hnames, h⟩ := Option.bind_eq_some_iff.mp h
  obtain ⟨⟨source, left⟩, hsource, h⟩ := Option.bind_eq_some_iff.mp h
  obtain ⟨behindColon, hcolon, h⟩ := Option.bind_eq_some_iff.mp h
  obtain ⟨rfl, rfl⟩ := Prod.mk.inj (Option.some.inj h)
  have hshort := (parseExpr_reads fuel hsource).2
  have hcolons := expect_length hcolon
  have hskips := And.intro (length_skipNewlines left) (length_skipNewlines behindColon)
  refine (parseForNames_alike hb hnames halike (by omega)).bind fun mid' hread hmid' => ?_
  have hshort' := (parseForNames_reads (s := false) hread).2
  refine (hall.expr hsource hmid' (by omega) (by omega)).bind
    fun left' _ hleft' => ?_
  obtain ⟨behindColon', hcolon', hbehind'⟩ := expect_alike hcolon (hleft'.skip hb) (by omega)
  simp only [hcolon']
  exact (hbehind'.skip hb).kept

include hb in
theorem AllAlike.forTuple_succ :
    ReadsAlike behind behind' parseForTuple 5 (fuel + 1) := by
  refine .succ fun tokens tokens' rest e h halike hlength fuel' hfuel => ?_
  obtain ⟨⟨⟨names, source⟩, mid⟩, hhead, h⟩ := Option.bind_eq_some_iff.mp h
  obtain ⟨⟨item, mid₁⟩, hitem, h⟩ := Option.bind_eq_some_iff.mp h
  obtain ⟨⟨guard, mid₂⟩, hguard, h⟩ := Option.bind_eq_some_iff.mp h
  obtain ⟨left, hclose, h⟩ := Option.bind_eq_some_iff.mp h
  obtain ⟨rfl, rfl⟩ := Prod.mk.inj (Option.some.inj h)
  have hshort := (parseExpr_reads fuel hitem).2
  have hguards := (parseGuard_passes fuel hguard).length
  have hclosing := expect_length hclose
  have hskips := And.intro (length_skipNewlines mid₁) (length_skipNewlines mid₂)
  refine (hall.forHead hhead halike (by omega) (by omega)).bind
    fun mid' hread hmid' => ?_
  have hshort' := (parseForHead_reads fuel' hread).2
  refine (hall.expr hitem hmid' (by omega) (by omega)).bind
    fun mid₁' hread₁ hmid₁' => ?_
  have hshort₁ := (parseExpr_reads fuel' hread₁).2
  refine (hall.guard.skip hb hguard hmid₁' (by omega) (by omega)).bind fun mid₂' _ hmid₂' => ?_
  obtain ⟨left', hclose', hleft'⟩ := expect_alike hclose (hmid₂'.skip hb) hlength
  simp only [hclose']
  exact hleft'.kept

include hb in
theorem AllAlike.forObject_succ :
    ReadsAlike behind behind' parseForObject 5 (fuel + 1) := by
  refine .succ fun tokens tokens' rest e h halike hlength fuel' hfuel => ?_
  rw [parseForObject_eq] at h ⊢
  obtain ⟨⟨⟨names, source⟩, mid⟩, hhead, h⟩ := Option.bind_eq_some_iff.mp h
  obtain ⟨⟨key, behindKey⟩, hkey, h⟩ := Option.bind_eq_some_iff.mp h
  obtain ⟨behindArrow, harrow, h⟩ := Option.bind_eq_some_iff.mp h
  obtain ⟨⟨value, behindValue⟩, hvalue, h⟩ := Option.bind_eq_some_iff.mp h
  obtain ⟨⟨guard, behindGuard⟩, hguard, h⟩ := Option.bind_eq_some_iff.mp h
  obtain ⟨left, hclose, h⟩ := Option.bind_eq_some_iff.mp h
  obtain ⟨rfl, rfl⟩ := Prod.mk.inj (Option.some.inj h)
  have hkeys := (parseExpr_reads fuel hkey).2
  have harrows := expect_length harrow
  have hvalues := (parseExpr_reads fuel hvalue).2
  have hellipsis := (takeEllipsis_passes (s := false) behindValue).length
  have hguards := (parseGuard_passes fuel hguard).length
  have hclosing := expect_length hclose
  have hskips := And.intro (length_skipNewlines behindArrow)
    (And.intro (length_skipNewlines (takeEllipsis behindValue).2) (length_skipNewlines behindGuard))
  refine (hall.forHead hhead halike (by omega) (by omega)).bind
    fun mid' hread hmid' => ?_
  have hread := (parseForHead_reads fuel' hread).2
  refine (hall.expr hkey hmid' (by omega) (by omega)).bind
    fun behindKey' hreadKey hbehindKey' => ?_
  have hreadKey := (parseExpr_reads fuel' hreadKey).2
  obtain ⟨behindArrow', harrow', hbehindArrow'⟩ := expect_alike harrow hbehindKey' (by omega)
  have harrows' := expect_length harrow'
  have hskipArrow := length_skipNewlines behindArrow'
  simp only [harrow']
  refine (hall.expr.skip hb hvalue hbehindArrow' (by omega) (by omega)).bind
    fun behindValue' hreadValue hbehindValue' => ?_
  have hreadValue := (parseExpr_reads fuel' hreadValue).2
  obtain ⟨hgrouped, hbehindMark⟩ := takeEllipsis_alike hb hbehindValue' (by omega)
  have hellipsis' := (takeEllipsis_passes (s := false) behindValue').length
  simp only [hgrouped]
  refine (hall.guard.skip hb hguard hbehindMark (by omega) (by omega)).bind
    fun behindGuard' _ hbehindGuard' => ?_
  obtain ⟨left', hclose', hleft'⟩ := expect_alike hclose (hbehindGuard'.skip hb) hlength
  simp only [hclose']
  exact hleft'.kept

end Step

theorem allAlike (hb : Behind behind behind') : ∀ fuel, AllAlike behind behind' fuel
  | 0 => by constructor <;> intros <;> exact ReadsAlike.zero fun _ => rfl
  | fuel + 1 =>
    have hall := allAlike hb fuel
    { expr := hall.expr_succ
      operators := hall.operators_succ hb
      operand := hall.operand_succ hb
      term := hall.term_succ
      access := hall.access_succ hb
      primary := hall.primary_succ hb
      items := hall.items_succ hb
      fields := hall.fields_succ hb
      arguments := hall.arguments_succ hb
      someArguments := hall.someArguments_succ hb
      forHead := hall.forHead_succ hb
      guard := hall.guard_succ hb
      forTuple := hall.forTuple_succ hb
      forObject := hall.forObject_succ hb }

/-- An expression is read alike whatever the lines of its tokens and what stands behind it. -/
theorem parseExpr_alike {fuel fuel' : Nat} {tokens tokens' rest : Tokens} {e : Expr}
    (hb : Behind behind behind') (h : parseExpr fuel tokens = some (e, rest))
    (halike : Alike behind behind' tokens tokens') (hlength : behind.length ≤ rest.length)
    (hfuel : 8 * tokens'.length + 3 < fuel') :
    Kept behind behind' (parseExpr fuel' tokens') e rest :=
  (allAlike hb fuel).expr h halike hlength hfuel

end Expressions

end Alike

end TerraIndex.Hcl
