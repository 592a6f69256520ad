import TerraIndex.Proofs.Json.Written
import Mathlib.Tactic.Common
/-!
# Reading written JSON

The decoder reads a written text back to its value (`decode_written`). A scanning function reads
its part of a text and leaves what follows it, which for a number has to begin with none of the
characters that would go on with it (`Ends`). The fuel a part needs is bounded by its length.
-/

namespace TerraIndex.Json

section Strings

theorem letterEscape?_u : letterEscape? 'u' = none := by decide

theorem scanString_plain {c : Char} (opening cs : List Char) (hq : c ≠ '"') (hb : c ≠ '\\')
    (hc : 0x20 ≤ c.toNat) :
    scanString opening (c :: cs)
      = (do let (s, left) ← scanString opening cs; return (c :: s, left)) := by
  rw [scanString]
  · rw [if_neg (by omega)]
  · exact hq
  · rintro rfl
    exact absurd rfl hb
  · intros
    simp_all
  · intros
    simp_all

theorem scanString_letter {e c : Char} (opening cs : List Char) (h : letterEscape? e = some c) :
    scanString opening ('\\' :: e :: cs)
      = (do let (s, left) ← scanString opening cs; return (c :: s, left)) := by
  have hu : e ≠ 'u' := by
    rintro rfl
    simp [letterEscape?_u] at h
  rw [scanString]
  · simp [hu, h]
  · simp [hu]

theorem scanString_unit {a b c d : Char} {n : Nat} (opening : List Char) {cs : List Char}
    (h : unit? a b c d = some n) (hne : cs ≠ [])
    (hlow : isHighSurrogate n = true → ¬ LowUnitFirst cs) :
    scanString opening ('\\' :: 'u' :: a :: b :: c :: d :: cs)
      = (do let (s, left) ← scanString opening cs; return (unitChar n :: s, left)) := by
  obtain ⟨next, rest, rfl⟩ := List.exists_cons_of_ne_nil hne
  rw [scanString, h]
  simp only []
  split
  · rename_i e f g h' last rest
    split_ifs with hn
    · split
      · rename_i hu
        rw [scanString, hu]
        rfl
      · rename_i low hu
        have : isLowSurrogate low = false := by
          by_contra hl
          exact hlow hn ⟨e, f, g, h', low, _, rfl, hu, by simpa using hl⟩
        simp [this]
    · rfl
  · rfl

theorem scanString_pair {a b c d e f g h : Char} {high low : Nat} (opening : List Char)
    {cs : List Char} (hu : unit? a b c d = some high) (hh : isHighSurrogate high = true)
    (hu' : unit? e f g h = some low) (hl : isLowSurrogate low = true) (hne : cs ≠ []) :
    scanString opening
        ('\\' :: 'u' :: a :: b :: c :: d :: '\\' :: 'u' :: e :: f :: g :: h :: cs)
      = (do let (s, left) ← scanString opening cs; return (pairChar high low :: s, left)) := by
  obtain ⟨next, rest, rfl⟩ := List.exists_cons_of_ne_nil hne
  rw [scanString, hu]
  simp [hh, hu', hl]

theorem isSome_of_unit? {a b c d : Char} {n : Nat} (h : unit? a b c d = some n) :
    (hexValue? a).isSome ∧ (hexValue? b).isSome ∧ (hexValue? c).isSome ∧ (hexValue? d).isSome := by
  unfold unit? at h
  simp only [Option.bind_eq_bind, Option.bind_eq_some_iff] at h
  obtain ⟨x, hx, y, hy, z, hz, w, hw, -⟩ := h
  simp [hx, hy, hz, hw]

theorem hexValue?_quote : hexValue? '"' = none := by decide

/-- The quote that ends a string is no part of an escape. -/
theorem lowUnitFirst_of_quote {t rest : List Char} (h : LowUnitFirst (t ++ '"' :: rest)) :
    LowUnitFirst t := by
  obtain ⟨a, b, c, d, n, more, ht, hu, hn⟩ := h
  obtain ⟨ha, hb, hc, hd⟩ := isSome_of_unit? hu
  match t with
  | [] => simp at ht
  | [_] => simp at ht
  | [_, _] =>
    simp only [List.cons_append, List.nil_append, List.cons.injEq] at ht
    rw [← ht.2.2.1, hexValue?_quote] at ha
    simp at ha
  | [_, _, _] =>
    simp only [List.cons_append, List.nil_append, List.cons.injEq] at ht
    rw [← ht.2.2.2.1, hexValue?_quote] at hb
    simp at hb
  | [_, _, _, _] =>
    simp only [List.cons_append, List.nil_append, List.cons.injEq] at ht
    rw [← ht.2.2.2.2.1, hexValue?_quote] at hc
    simp at hc
  | [_, _, _, _, _] =>
    simp only [List.cons_append, List.nil_append, List.cons.injEq] at ht
    rw [← ht.2.2.2.2.2.1, hexValue?_quote] at hd
    simp at hd
  | _ :: _ :: _ :: _ :: _ :: _ :: t =>
    simp only [List.cons_append, List.cons.injEq] at ht
    obtain ⟨rfl, rfl, rfl, rfl, rfl, rfl, -⟩ := ht
    exact ⟨_, _, _, _, n, t, rfl, hu, hn⟩

theorem scanString_body (opening rest : List Char) {s t : List Char} (h : StringBody s t) :
    scanString opening (t ++ '"' :: rest) = .ok (s, rest) := by
  induction h with
  | nil => rw [List.nil_append, scanString]
  | plain hq hb hc _ ih =>
    rw [List.cons_append, scanString_plain _ _ hq hb hc, ih]
    rfl
  | letter he _ ih =>
    rw [List.cons_append, List.cons_append, scanString_letter _ _ he, ih]
    rfl
  | unit hu hlow _ ih =>
    simp only [List.cons_append]
    rw [scanString_unit _ hu (by simp) fun hn => ?_, ih]
    · rfl
    · exact fun hl => hlow hn (lowUnitFirst_of_quote hl)
  | pair hu hh hu' hl _ ih =>
    simp only [List.cons_append]
    rw [scanString_pair _ hu hh hu' hl (by simp), ih]
    rfl

end Strings

section WordsAndNumbers

/-- What follows a number does not go on with it. -/
def Ends (rest : List Char) : Prop :=
  ∀ c ∈ rest.head?, c.isDigit = false ∧ c ≠ '.' ∧ c ≠ 'e' ∧ c ≠ 'E'

theorem scanWord?_word {v : Raw} {t : List Char} (rest : List Char) (h : Word v t) :
    scanWord? (t ++ rest) = some (v, rest) := by
  cases h <;> simp [scanWord?]

theorem spanDigits_append {cs rest : List Char} (h : Digits cs)
    (hrest : ∀ c ∈ rest.head?, c.isDigit = false) : spanDigits (cs ++ rest) = (cs, rest) := by
  have hrest' : rest.takeWhile Char.isDigit = [] ∧ rest.dropWhile Char.isDigit = rest := by
    cases rest with
    | nil => exact ⟨rfl, rfl⟩
    | cons c cs =>
      have hc := hrest c rfl
      simp [hc]
  unfold spanDigits
  rw [List.takeWhile_append_of_pos h, List.dropWhile_append_of_pos h, hrest'.1, hrest'.2,
    List.append_nil]

theorem scanInteger?_whole {cs rest : List Char} (h : Whole cs)
    (hrest : ∀ c ∈ rest.head?, c.isDigit = false) :
    scanInteger? (cs ++ rest) = some (cs, rest) := by
  cases h with
  | zero => rfl
  | digits hc hd =>
    unfold scanInteger?
    split
    · simp_all
    · rw [spanDigits_append hd hrest]
      rfl

theorem scanFraction_fraction {fs f rest : List Char} (h : Fraction fs f)
    (hrest : ∀ c ∈ rest.head?, c.isDigit = false ∧ c ≠ '.') :
    scanFraction (f ++ rest) = (fs, rest) := by
  cases h with
  | none =>
    unfold scanFraction
    split
    · rename_i cs heq
      rw [List.nil_append] at heq
      have := hrest '.' (by rw [heq]; rfl)
      simp at this
    · rfl
  | some hne hd =>
    unfold scanFraction
    simp only [List.cons_append]
    rw [spanDigits_append hd fun c hc => (hrest c hc).1]
    simp [hne]

theorem isDigit_ne {c d : Char} (hc : c.isDigit = true) (hd : d.isDigit = false) : c ≠ d := by
  rintro rfl
  simp [hc] at hd

theorem scanExponent_exponent {e : Option Int} {x rest : List Char} (h : Exponent e x)
    (hrest : Ends rest) : scanExponent (x ++ rest) = (e, rest) := by
  cases h with
  | none =>
    rw [List.nil_append]
    unfold scanExponent
    simp only []
    split
    · have := hrest 'e' rfl
      simp at this
    · have := hrest 'E' rfl
      simp at this
    · rfl
  | @some mark negative sign cs hm hs hne hd =>
    obtain ⟨d, ds, rfl⟩ := List.exists_cons_of_ne_nil hne
    have hspan : spanDigits (d :: (ds ++ rest)) = (d :: ds, rest) :=
      spanDigits_append hd fun c hc => (hrest c hc).1
    have hdig : d.isDigit = true := hd d (by simp)
    have hminus : d ≠ '-' := isDigit_ne hdig (by decide)
    have hplus : d ≠ '+' := isDigit_ne hdig (by decide)
    rcases hm with rfl | rfl <;> cases hs <;> simp [scanExponent, hspan, hminus, hplus]

theorem head?_fraction_exponent {fs f x rest : List Char} {e : Option Int} (hf : Fraction fs f)
    (hx : Exponent e x) (hrest : Ends rest) :
    (∀ c ∈ (x ++ rest).head?, c.isDigit = false ∧ c ≠ '.')
      ∧ ∀ c ∈ (f ++ (x ++ rest)).head?, c.isDigit = false := by
  have hxr : ∀ c ∈ (x ++ rest).head?, c.isDigit = false ∧ c ≠ '.' := by
    cases hx with
    | none => exact fun c hc => ⟨(hrest c hc).1, (hrest c hc).2.1⟩
    | some hm => rcases hm with rfl | rfl <;> simp
  refine ⟨hxr, ?_⟩
  cases hf with
  | none => exact fun c hc => (hxr c hc).1
  | some => simp

theorem scanUnsigned_int {cs rest : List Char} (start : List Char) (negative : Bool)
    (h : Whole cs) (hlen : cs.length ≤ maxIntegerDigits) (hrest : Ends rest) :
    scanUnsigned start negative (cs ++ rest)
      = .ok (.int (if negative then -(digitsValue cs : Int) else digitsValue cs), rest) := by
  have hf : scanFraction ([] ++ rest) = ([], rest) :=
    scanFraction_fraction .none fun c hc => ⟨(hrest c hc).1, (hrest c hc).2.1⟩
  have he := scanExponent_exponent Exponent.none hrest
  rw [List.nil_append] at hf he
  unfold scanUnsigned
  rw [scanInteger?_whole h fun c hc => (hrest c hc).1]
  simp only [hf, he]
  rw [if_pos (by rfl), if_neg (by omega)]

theorem scanUnsigned_float {cs fs f x rest : List Char} {e : Option Int} (start : List Char)
    (negative : Bool) (h : Whole cs) (hf : Fraction fs f) (hx : Exponent e x)
    (hne : fs ≠ [] ∨ e ≠ none) (hrest : Ends rest) :
    scanUnsigned start negative (cs ++ (f ++ (x ++ rest)))
      = .ok (.float (Binary64.ofDecimal negative (digitsValue (cs ++ fs))
          (e.getD 0 - (fs.length : Int))), rest) := by
  obtain ⟨hxr, hfr⟩ := head?_fraction_exponent hf hx hrest
  unfold scanUnsigned
  rw [scanInteger?_whole h hfr]
  simp only [scanFraction_fraction hf hxr, scanExponent_exponent hx hrest]
  rw [if_neg]
  rcases hne with hne | hne
  · simp [hne]
  · simp [hne]

theorem whole_head {cs : List Char} (h : Whole cs) : ∃ c ds, cs = c :: ds ∧ c.isDigit = true := by
  cases h with
  | zero => exact ⟨'0', [], rfl, rfl⟩
  | digits _ hd => exact ⟨_, _, rfl, hd _ (by simp)⟩

/-- A number begins with a digit or with a minus sign in front of one. -/
theorem numeral_head {v : Raw} {t : List Char} (h : Numeral v t) :
    ∃ c ds, c.isDigit = true ∧ (t = c :: ds ∨ t = '-' :: c :: ds) := by
  cases h with
  | int negative hw =>
    obtain ⟨c, ds, rfl, hc⟩ := whole_head hw
    refine ⟨c, ds, hc, ?_⟩
    cases negative
    · exact .inl rfl
    · exact .inr rfl
  | @float negative cs fs f x e hw =>
    obtain ⟨c, ds, rfl, hc⟩ := whole_head hw
    refine ⟨c, ds ++ (f ++ x), hc, ?_⟩
    cases negative
    · exact .inl rfl
    · exact .inr rfl

theorem scanNumber_whole {cs : List Char} (rest : List Char) (h : Whole cs) :
    scanNumber (cs ++ rest) = scanUnsigned (cs ++ rest) false (cs ++ rest) := by
  obtain ⟨c, ds, rfl, hc⟩ := whole_head h
  unfold scanNumber
  split
  · rename_i heq
    have hm : c = '-' := by simpa using congrArg List.head? heq
    exact absurd hm (isDigit_ne hc (by decide))
  · rfl

theorem scanNumber_numeral {v : Raw} {t rest : List Char} (h : Numeral v t) (hrest : Ends rest) :
    scanNumber (t ++ rest) = .ok (v, rest) := by
  cases h with
  | int negative hw hlen =>
    cases negative
    · simp only [minusText, Bool.false_eq_true, if_false, List.nil_append]
      rw [scanNumber_whole rest hw, scanUnsigned_int _ _ hw hlen hrest]
      rfl
    · exact scanUnsigned_int _ true hw hlen hrest
  | float negative hw hf hx hne =>
    cases negative
    · simp only [minusText, Bool.false_eq_true, if_false, List.nil_append, List.append_assoc]
      rw [scanNumber_whole _ hw, scanUnsigned_float _ _ hw hf hx hne hrest]
    · simp only [minusText, if_true, List.append_assoc, List.cons_append, List.nil_append]
      exact scanUnsigned_float _ true hw hf hx hne hrest

theorem scanWord?_digit {c : Char} (rest : List Char) (h : c.isDigit = true) :
    scanWord? (c :: rest) = none := by
  have hne : ∀ d : Char, d.isDigit = false → ¬ d = c := fun d hd => (isDigit_ne h hd).symm
  simp [scanWord?, hne 'n' rfl, hne 't' rfl, hne 'f' rfl, hne 'N' rfl, hne 'I' rfl, hne '-' rfl]

theorem scanWord?_minus {c : Char} (rest : List Char) (h : c.isDigit = true) :
    scanWord? ('-' :: c :: rest) = none := by
  have hne : ¬ 'I' = c := (isDigit_ne h (by decide)).symm
  simp [scanWord?, hne]

theorem scanWord?_numeral {v : Raw} {t : List Char} (rest : List Char) (h : Numeral v t) :
    scanWord? (t ++ rest) = none := by
  obtain ⟨c, ds, hc, rfl | rfl⟩ := numeral_head h
  · exact scanWord?_digit (ds ++ rest) hc
  · exact scanWord?_minus (ds ++ rest) hc

end WordsAndNumbers

section Values

theorem skipBlanks_append {w rest : List Char} {c : Char} (hw : Blanks w)
    (hc : isBlank c = false) : skipBlanks (w ++ c :: rest) = c :: rest := by
  unfold skipBlanks
  rw [List.dropWhile_append_of_pos hw, List.dropWhile_cons, hc]
  rfl

theorem isDigit_not_blank {c : Char} (h : c.isDigit = true) : isBlank c = false := by
  have h1 := isDigit_ne h (by decide : ' '.isDigit = false)
  have h2 := isDigit_ne h (by decide : '\t'.isDigit = false)
  have h3 := isDigit_ne h (by decide : '\n'.isDigit = false)
  have h4 := isDigit_ne h (by decide : '\r'.isDigit = false)
  simp [isBlank, h1, h2, h3, h4]

/-- A value begins with no white space, no closing bracket and no byte order mark. -/
theorem written_head {v : Raw} {t : List Char} (h : Written v t) :
    ∃ c cs, t = c :: cs ∧ isBlank c = false ∧ c ≠ ']' ∧ c ≠ '\ufeff' := by
  cases h with
  | word h => cases h <;> exact ⟨_, _, rfl, by decide, by decide, by decide⟩
  | numeral h =>
    obtain ⟨c, ds, hc, rfl | rfl⟩ := numeral_head h
    · exact ⟨c, ds, rfl, isDigit_not_blank hc, isDigit_ne hc (by decide),
        isDigit_ne hc (by decide)⟩
    · exact ⟨'-', c :: ds, rfl, by decide, by decide, by decide⟩
  | text => exact ⟨_, _, rfl, by decide, by decide, by decide⟩
  | emptyList => exact ⟨_, _, rfl, by decide, by decide, by decide⟩
  | list => exact ⟨_, _, rfl, by decide, by decide, by decide⟩
  | emptyMap => exact ⟨_, _, rfl, by decide, by decide, by decide⟩
  | map => exact ⟨_, _, rfl, by decide, by decide, by decide⟩

theorem member_head {m : String × Raw} {t : List Char} (h : Member m t) :
    ∃ cs, t = '"' :: cs := by
  cases h
  exact ⟨_, rfl⟩

theorem blanks_head_ends {w : List Char} (hw : Blanks w) (c : Char) (rest : List Char)
    (hc : c.isDigit = false ∧ c ≠ '.' ∧ c ≠ 'e' ∧ c ≠ 'E') : Ends (w ++ c :: rest) := by
  cases w with
  | nil => simpa [Ends] using hc
  | cons d ds =>
    have hd := hw d (by simp)
    simp only [isBlank, Bool.or_eq_true, beq_iff_eq] at hd
    simp only [Ends, List.cons_append, List.head?_cons, Option.mem_def, Option.some.injEq,
      forall_eq']
    rcases hd with ((rfl | rfl) | rfl) | rfl <;> decide

theorem ends_moreItems {vs : List Raw} {u : List Char} (rest : List Char) (h : MoreItems vs u) :
    Ends (u ++ rest) := by
  cases h with
  | last hw =>
    rw [List.append_assoc]
    exact blanks_head_ends hw _ _ (by decide)
  | next hw =>
    rw [List.append_assoc]
    exact blanks_head_ends hw _ _ (by decide)

theorem ends_moreMembers {ms : List (String × Raw)} {u : List Char} (rest : List Char)
    (h : MoreMembers ms u) : Ends (u ++ rest) := by
  cases h with
  | last hw =>
    rw [List.append_assoc]
    exact blanks_head_ends hw _ _ (by decide)
  | next hw =>
    rw [List.append_assoc]
    exact blanks_head_ends hw _ _ (by decide)

theorem scanValue_token {c : Char} (fuel : Nat) (cs : List Char) (hq : c ≠ '"') (hl : c ≠ '[')
    (hm : c ≠ '{') : scanValue (fuel + 1) (c :: cs) =
      match scanWord? (c :: cs) with
      | some found => .ok found
      | none => scanNumber (c :: cs) := by
  cases hw : scanWord? (c :: cs) <;> simp [scanValue, hq, hl, hm, hw]

theorem scanValue_word {v : Raw} {t : List Char} (fuel : Nat) (rest : List Char) (h : Word v t) :
    scanValue (fuel + 1) (t ++ rest) = .ok (v, rest) := by
  have hw := scanWord?_word rest h
  cases h <;>
    (rw [List.cons_append] at hw ⊢
     rw [scanValue_token _ _ (by decide) (by decide) (by decide), hw])

theorem scanValue_numeral {v : Raw} {t rest : List Char} (fuel : Nat) (h : Numeral v t)
    (hrest : Ends rest) : scanValue (fuel + 1) (t ++ rest) = .ok (v, rest) := by
  have hw := scanWord?_numeral rest h
  have hn := scanNumber_numeral h hrest
  obtain ⟨c, ds, hc, rfl | rfl⟩ := numeral_head h
  · rw [List.cons_append] at hw hn ⊢
    rw [scanValue_token _ _ (isDigit_ne hc (by decide)) (isDigit_ne hc (by decide))
      (isDigit_ne hc (by decide)), hw, hn]
  · rw [List.cons_append] at hw hn ⊢
    rw [scanValue_token _ _ (by decide) (by decide) (by decide), hw, hn]

theorem ok_bind {ε α β : Type} (a : α) (f : α → Except ε β) : (Except.ok a >>= f) = f a := rfl

mutual

theorem scanValue_written : ∀ {v : Raw} {t : List Char} (fuel : Nat) (rest : List Char),
    Written v t → 2 * t.length ≤ fuel → Ends rest → scanValue fuel (t ++ rest) = .ok (v, rest)
  | _, _, 0, _, h, hfuel, _ => by
    obtain ⟨c, cs, rfl, -⟩ := written_head h
    simp at hfuel
  | _, _, fuel + 1, rest, .word h, _, _ => scanValue_word fuel rest h
  | _, _, fuel + 1, _, .numeral h, _, hrest => scanValue_numeral fuel h hrest
  | _, _, fuel + 1, rest, .text h, _, _ => by
    simp only [List.cons_append, List.append_assoc, List.nil_append]
    rw [scanValue, scanString_body _ _ h]
    rfl
  | _, _, fuel + 1, rest, .emptyList hw, _, _ => by
    simp only [List.cons_append, List.append_assoc, List.nil_append]
    rw [scanValue, skipBlanks_append hw (by decide)]
    rfl
  | _, _, fuel + 1, rest, .list hw ht hu, hfuel, _ => by
    have ih := scanItems_written fuel rest ht hu (by simp at hfuel; omega)
    obtain ⟨c, cs, rfl, hc, hc', -⟩ := written_head ht
    simp only [List.cons_append, List.append_assoc] at ih ⊢
    rw [scanValue, skipBlanks_append hw hc]
    split
    · simp_all
    · rw [ih]
      rfl
  | _, _, fuel + 1, rest, .emptyMap hw, _, _ => by
    simp only [List.cons_append, List.append_assoc, List.nil_append]
    rw [scanValue, skipBlanks_append hw (by decide)]
    rfl
  | _, _, fuel + 1, rest, .map hw ht hu, hfuel, _ => by
    have ih := scanMembers_written fuel [] rest ht hu (by simp at hfuel; omega)
    obtain ⟨cs, rfl⟩ := member_head ht
    simp only [List.cons_append, List.append_assoc] at ih ⊢
    rw [scanValue, skipBlanks_append hw (by decide)]
    show (do let (entries, left) ← scanMembers fuel [] _; return (Raw.map entries, left)) = _
    rw [ih]
    rfl

theorem scanItems_written : ∀ {v : Raw} {vs : List Raw} {t u : List Char} (fuel : Nat)
    (rest : List Char), Written v t → MoreItems vs u → 2 * (t.length + u.length) < fuel →
    scanItems fuel (t ++ (u ++ rest)) = .ok (v :: vs, rest)
  | _, _, _, _, 0, _, _, _, hfuel => by omega
  | _, _, _, _, fuel + 1, rest, ht, .last hw, hfuel => by
    have ih := scanValue_written fuel (_ ++ rest) ht (by simp at hfuel; omega)
      (ends_moreItems rest (.last hw))
    rw [scanItems, ih, ok_bind]
    simp only [List.append_assoc, List.cons_append, List.nil_append]
    rw [skipBlanks_append hw (by decide)]
    rfl
  | _, _, _, _, fuel + 1, rest, ht, .next hw hw' ht' hu', hfuel => by
    have ih := scanValue_written fuel (_ ++ rest) ht (by simp at hfuel; omega)
      (ends_moreItems rest (.next hw hw' ht' hu'))
    have ih' := scanItems_written fuel rest ht' hu' (by simp at hfuel ⊢; omega)
    obtain ⟨c, cs, rfl, hc, -⟩ := written_head ht'
    rw [scanItems, ih, ok_bind]
    simp only [List.append_assoc, List.cons_append] at ih' ⊢
    rw [skipBlanks_append hw (by decide)]
    simp only []
    rw [skipBlanks_append hw' hc, ih']
    rfl

theorem scanMembers_written : ∀ {m : String × Raw} {ms : List (String × Raw)} {t u : List Char}
    (fuel : Nat) (entries : List (String × Raw)) (rest : List Char), Member m t →
    MoreMembers ms u → 2 * (t.length + u.length) < fuel →
    scanMembers fuel entries (t ++ (u ++ rest)) = .ok (mergeEntries entries (m :: ms), rest)
  | _, _, _, _, 0, _, _, _, _, hfuel => by omega
  | _, _, _, _, fuel + 1, entries, rest, .mk hs hw hw' ht, .last hl, hfuel => by
    have ih := scanValue_written fuel (_ ++ rest) ht (by simp at hfuel; omega)
      (ends_moreMembers rest (.last hl))
    obtain ⟨c, cs, rfl, hc, -⟩ := written_head ht
    simp only [List.append_assoc, List.cons_append, List.nil_append] at ih ⊢
    rw [scanMembers, scanString_body _ _ hs, ok_bind]
    simp only []
    rw [skipBlanks_append hw (by decide)]
    simp only []
    rw [skipBlanks_append hw' hc, ih, ok_bind]
    simp only []
    rw [skipBlanks_append hl (by decide)]
    rfl
  | _, _, _, _, fuel + 1, entries, rest, .mk hs hw hw' ht, .next hn hn' ht' hu', hfuel => by
    have ih := scanValue_written fuel (_ ++ rest) ht (by simp at hfuel; omega)
      (ends_moreMembers rest (.next hn hn' ht' hu'))
    have ih' := fun es => scanMembers_written fuel es rest ht' hu' (by simp at hfuel ⊢; omega)
    obtain ⟨c, cs, rfl, hc, -⟩ := written_head ht
    obtain ⟨ds, rfl⟩ := member_head ht'
    simp only [List.append_assoc, List.cons_append] at ih ih' ⊢
    rw [scanMembers, scanString_body _ _ hs, ok_bind]
    simp only []
    rw [skipBlanks_append hw (by decide)]
    simp only []
    rw [skipBlanks_append hw' hc, ih, ok_bind]
    simp only []
    rw [skipBlanks_append hn (by decide)]
    simp only []
    rw [skipBlanks_append hn' (by decide), ih']
    rfl

end

/-- The decoder reads a written text to its value. -/
theorem decode_written {v : Raw} {t : List Char} (h : Written v t) : decode t = .ok v := by
  obtain ⟨c, cs, rfl, hc, -, hbom⟩ := written_head h
  have hread := scanValue_written (2 * (c :: cs).length + 2) [] h (by omega) (by simp [Ends])
  have hskip : skipBlanks (c :: cs) = c :: cs := skipBlanks_append (w := []) (by decide) hc
  rw [List.append_nil] at hread
  unfold decode decodeWhole
  split
  · simp_all
  · rw [hskip, decodeFirst, hread]
    rfl

end Values

end TerraIndex.Json
