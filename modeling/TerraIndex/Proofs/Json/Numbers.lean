import TerraIndex.Json.Encode
import TerraIndex.Proofs.Json.LineEnds
import TerraIndex.Proofs.Number.Shortest
/-!
# Numbers are written JSON

The text of an integer is a numeral for it, up to the digits that the decoder reads
(`numeral_intText`). The text of a finite floating-point number is a numeral for that number
(`numeral_text`): the text of a decimal is read as a decimal of the same value, with no leading zero
because the shortest decimal has no zero digits with a power above one. The text of any other is a
word for one (`token_floatText`).
-/

namespace TerraIndex.Json

section Digits

theorem digits_repr (n : Nat) : Digits n.repr.toList := by
  rw [Nat.toList_repr]
  exact fun c hc => Nat.isDigit_of_mem_toDigits (by decide) (by decide) hc

theorem digitsValue_repr (n : Nat) : digitsValue n.repr.toList = n := by
  have h := Nat.ofDigitChars_ten_toDigits (n := n)
  rw [Nat.ofDigitChars_eq_foldl] at h
  rw [Nat.toList_repr, digitsValue]
  simp only [Nat.mul_comm 10] at h
  exact h

/-- A number other than zero is written without a leading zero. -/
theorem repr_head {n : Nat} (hn : n ≠ 0) : ∃ c cs, n.repr.toList = c :: cs ∧ c ≠ '0' := by
  rw [Nat.toList_repr]
  induction n using Nat.strongRecOn with
  | ind n ih =>
    by_cases hlt : n < 10
    · refine ⟨n.digitChar, [], Nat.toDigits_of_lt_base hlt, ?_⟩
      have : ∀ k < 10, k ≠ 0 → Nat.digitChar k ≠ '0' := by decide
      exact this n hlt hn
    · obtain ⟨c, cs, h, hc⟩ := ih (n / 10) (by omega) (by omega)
      exact ⟨c, cs ++ [(n % 10).digitChar],
        by rw [Nat.toDigits_of_base_le (by decide) (by omega), h]; rfl, hc⟩

theorem whole_repr (n : Nat) : Whole n.repr.toList := by
  by_cases hn : n = 0
  · rw [hn, Nat.toList_repr, Nat.toDigits_zero]
    exact .zero
  · obtain ⟨c, cs, h, hc⟩ := repr_head hn
    have hd := digits_repr n
    rw [h] at hd ⊢
    exact .digits hc hd

theorem digits_append {cs ds : List Char} (hc : Digits cs) (hd : Digits ds) :
    Digits (cs ++ ds) := fun c h => (List.mem_append.mp h).elim (hc c) (hd c)

theorem digits_zeros (k : Nat) : Digits (List.replicate k '0') := fun c hc => by
  rw [List.eq_of_mem_replicate hc]
  decide

theorem digitsValue_zeros_append (k : Nat) (cs : List Char) :
    digitsValue (List.replicate k '0' ++ cs) = digitsValue cs := by
  induction k with
  | zero => rfl
  | succ k ih => rw [List.replicate_succ, List.cons_append, ← ih]; rfl

theorem digitsValue_append_zeros (cs : List Char) (k : Nat) :
    digitsValue (cs ++ List.replicate k '0') = digitsValue cs * 10 ^ k := by
  induction k with
  | zero => rw [List.replicate_zero, List.append_nil, Nat.pow_zero, Nat.mul_one]
  | succ k ih =>
    have hlast : digitsValue (cs ++ List.replicate k '0' ++ ['0'])
        = digitsValue (cs ++ List.replicate k '0') * 10 := by
      rw [digitsValue, List.foldl_append]
      rfl
    rw [List.replicate_succ', ← List.append_assoc, hlast, ih, Nat.pow_succ, Nat.mul_assoc]

end Digits

theorem intText_eq (n : Int) :
    ∃ negative : Bool, intText n = minusText negative ++ n.natAbs.repr.toList
      ∧ n = if negative then -(n.natAbs : Int) else n.natAbs := by
  cases n with
  | ofNat k => exact ⟨false, rfl, rfl⟩
  | negSucc k => exact ⟨true, rfl, rfl⟩

theorem numeral_intText {n : Int} (h : n.natAbs.repr.toList.length ≤ maxIntegerDigits) :
    Numeral (.int n) (intText n) := by
  obtain ⟨negative, htext, hn⟩ := intText_eq n
  have hint := Numeral.int negative (whole_repr n.natAbs) h
  rw [digitsValue_repr, ← hn] at hint
  rw [htext]
  exact hint

theorem intText_chars (n : Int) : ∀ c ∈ intText n, c.isDigit = true ∨ c = '-' := by
  obtain ⟨negative, htext, -⟩ := intText_eq n
  rw [htext]
  intro c hc
  rcases List.mem_append.mp hc with hc | hc
  · cases negative with
    | false => cases hc
    | true => exact .inr (List.mem_singleton.mp hc)
  · exact .inl (digits_repr _ c hc)

theorem intText_not_mem (n : Int) {c : Char} (hdigit : c.isDigit = false) (hc : c ≠ '-') :
    c ∉ intText n := fun hmem =>
  (intText_chars n c hmem).elim (fun htrue => Bool.false_ne_true (hdigit.symm.trans htrue)) hc

theorem intText_injective {m n : Int} (h : intText m = intText n) : m = n := by
  have hrepr : ∀ {k l : Nat}, k.repr.toList = l.repr.toList → k = l := fun {k l} heq => by
    rw [← digitsValue_repr k, heq, digitsValue_repr]
  have hminus : ∀ {k : Nat} {rest : List Char}, k.repr.toList ≠ '-' :: rest := fun {k _} heq =>
    absurd (digits_repr k '-' (heq ▸ List.mem_cons_self ..)) (by decide)
  cases m with
  | ofNat k =>
    cases n with
    | ofNat l => rw [hrepr h]
    | negSucc l => exact absurd h hminus
  | negSucc k =>
    cases n with
    | ofNat l => exact absurd h.symm hminus
    | negSucc l => rw [Nat.succ.inj (hrepr (List.cons.inj h).2)]

section Floats

theorem exponent_exponentText (e : Int) :
    Exponent (some e) (Decimal.exponentText e).toList := by
  have hzero : ∃ k, (if e.natAbs < 10 then "0" else "").toList = List.replicate k '0' := by
    split_ifs
    · exact ⟨1, rfl⟩
    · exact ⟨0, rfl⟩
  obtain ⟨k, hzero⟩ := hzero
  have hsign : Sign (decide (e < 0)) (if e < 0 then "-" else "+").toList := by
    split_ifs with h
    · rw [decide_eq_true h]
      exact .minus
    · rw [decide_eq_false h]
      exact .plus
  have hdigits := digits_append (digits_zeros k) (digits_repr e.natAbs)
  have hne : List.replicate k '0' ++ e.natAbs.repr.toList ≠ [] := by
    simp [Nat.toList_repr, Nat.toDigits_ne_nil]
  have hexponent := Exponent.some (.inl rfl) hsign hne hdigits
  have hvalue : (if decide (e < 0) = true then -(e.natAbs : Int) else e.natAbs) = e := by
    simp only [decide_eq_true_eq]
    split_ifs <;> omega
  rw [digitsValue_zeros_append, digitsValue_repr, hvalue] at hexponent
  have htext : (Decimal.exponentText e).toList = 'e' :: ((if e < 0 then "-" else "+").toList
      ++ ((if e.natAbs < 10 then "0" else "").toList ++ e.natAbs.repr.toList)) := by
    simp [Decimal.exponentText]
  rw [htext, hzero]
  exact hexponent

/-- The first digits of a number, with zeros behind them unless it is zero, are an integer part. -/
theorem whole_take {n m : Nat} (k : Nat) (hm : n = 0 → m = 0) :
    Whole (n.repr.toList.take (k + 1) ++ List.replicate m '0') := by
  by_cases hn : n = 0
  · rw [hm hn, hn, Nat.toList_repr, Nat.toDigits_zero]
    simpa using Whole.zero
  · obtain ⟨c, cs, h, hc⟩ := repr_head hn
    have hd := digits_repr n
    rw [h] at hd ⊢
    have htake : Digits ((c :: cs).take (k + 1)) := fun d hmem => hd d (List.mem_of_mem_take hmem)
    exact .digits hc (digits_append htake (digits_zeros m))

/-- The text of a number with a fraction or an exponent and without a sign, and the decimal that is
read in it. -/
inductive Unsigned : Decimal → List Char → Prop
  | mk {cs fs f x : List Char} {e : Option Int} : Whole cs → Fraction fs f → Exponent e x →
      fs ≠ [] ∨ e ≠ none →
      Unsigned ⟨digitsValue (cs ++ fs), e.getD 0 - (fs.length : Int)⟩ (cs ++ (f ++ x))

theorem Unsigned.point {cs fs : List Char} (hc : Whole cs) (hne : fs ≠ []) (hf : Digits fs) :
    Unsigned ⟨digitsValue (cs ++ fs), -(fs.length : Int)⟩ (cs ++ '.' :: fs) := by
  have h := Unsigned.mk hc (.some hne hf) .none (.inl hne)
  rwa [List.append_nil, Option.getD_none, zero_sub] at h

/-- A decimal of the same value is read in the text. -/
def ReadsAs (d : Decimal) (text : List Char) : Prop :=
  ∃ read : Decimal, read.value = d.value ∧ Unsigned read text

theorem digits_drop_repr (n k : Nat) : Digits (n.repr.toList.drop k) := fun c hc =>
  digits_repr n c (List.mem_of_mem_drop hc)

theorem whole_take_repr (n k : Nat) : Whole (n.repr.toList.take (k + 1)) := by
  simpa using whole_take (n := n) (m := 0) k (fun _ => rfl)

/-- One digit in front of the point, and an exponent. -/
theorem readsAs_scientific (d : Decimal) {e : Int}
    (he : d.power + d.digits.repr.toList.length = e + 1) :
    ReadsAs d (d.digits.repr.toList.take 1 ++ ((if (d.digits.repr.toList.drop 1).isEmpty then []
      else '.' :: d.digits.repr.toList.drop 1) ++ (Decimal.exponentText e).toList)) := by
  have hpos : 0 < d.digits.repr.toList.length := by simp [Nat.toList_repr, Nat.length_toDigits_pos]
  have hfrac : Fraction (d.digits.repr.toList.drop 1)
      (if (d.digits.repr.toList.drop 1).isEmpty then []
        else '.' :: d.digits.repr.toList.drop 1) := by
    by_cases htail : d.digits.repr.toList.drop 1 = []
    · rw [htail]
      exact .none
    · rw [if_neg (by simpa using htail)]
      exact .some htail (digits_drop_repr _ 1)
  refine ⟨_, ?_, .mk (whole_take_repr _ 0) hfrac (exponent_exponentText e) (.inr (by simp))⟩
  have hpower : e - ((d.digits.repr.toList.drop 1).length : Int) = d.power := by
    rw [List.length_drop]
    omega
  rw [List.take_append_drop, digitsValue_repr, Option.getD_some, hpower]

/-- A zero, the point, and zeros in front of the digits. -/
theorem readsAs_small (d : Decimal) {k : Nat}
    (hk : d.power + d.digits.repr.toList.length = -(k : Int)) :
    ReadsAs d ("0.".toList ++ (List.replicate k '0' ++ d.digits.repr.toList)) := by
  have hne : List.replicate k '0' ++ d.digits.repr.toList ≠ [] := by
    simp [Nat.toList_repr, Nat.toDigits_ne_nil]
  have htext : "0.".toList ++ (List.replicate k '0' ++ d.digits.repr.toList)
      = ['0'] ++ '.' :: (List.replicate k '0' ++ d.digits.repr.toList) := rfl
  rw [htext]
  refine ⟨_, ?_, .point .zero hne (digits_append (digits_zeros k) (digits_repr d.digits))⟩
  have hpower : -(((List.replicate k '0' ++ d.digits.repr.toList).length : Nat) : Int)
      = d.power := by
    rw [List.length_append, List.length_replicate]
    omega
  have hzeros : ['0'] ++ (List.replicate k '0' ++ d.digits.repr.toList)
      = List.replicate (k + 1) '0' ++ d.digits.repr.toList := rfl
  rw [hpower, hzeros, digitsValue_zeros_append, digitsValue_repr]

/-- Zeros behind the digits, the point, and a zero. No zeros are appended to a zero, so it has no
leading zero. -/
theorem readsAs_large (d : Decimal) {k : Nat} (hd : d.digits = 0 → d.power ≤ 0)
    (hk : d.power = k) :
    ReadsAs d (d.digits.repr.toList ++ List.replicate k '0' ++ ".0".toList) := by
  have hpos : 0 < d.digits.repr.toList.length := by simp [Nat.toList_repr, Nat.length_toDigits_pos]
  have hwhole := whole_take (n := d.digits) (m := k) (d.digits.repr.toList.length - 1)
    (fun h => by have := hd h; omega)
  rw [Nat.sub_add_cancel hpos, List.take_length] at hwhole
  have hpoint : ".0".toList = '.' :: List.replicate 1 '0' := rfl
  rw [hpoint]
  refine ⟨_, ?_, .point hwhole (by simp) (digits_zeros 1)⟩
  have hpower : -(((List.replicate 1 '0').length : Nat) : Int) = d.power - (k + 1 : Nat) := by
    rw [List.length_replicate]
    omega
  rw [List.append_assoc, ← List.replicate_add, digitsValue_append_zeros, digitsValue_repr, hpower]
  exact Decimal.value_shift d.digits d.power _

/-- The point between the digits. -/
theorem readsAs_inner (d : Decimal) {k : Nat} (hlt : k + 1 < d.digits.repr.toList.length)
    (hk : d.power + d.digits.repr.toList.length = k + 1) :
    ReadsAs d (d.digits.repr.toList.take (k + 1) ++ '.' :: d.digits.repr.toList.drop (k + 1)) := by
  have hne : d.digits.repr.toList.drop (k + 1) ≠ [] := by
    rw [Ne, List.drop_eq_nil_iff]
    omega
  refine ⟨_, ?_, .point (whole_take_repr _ k) hne (digits_drop_repr _ _)⟩
  have hpower : -((d.digits.repr.toList.drop (k + 1)).length : Int) = d.power := by
    rw [List.length_drop]
    omega
  rw [List.take_append_drop, digitsValue_repr, hpower]

theorem unsigned_decimal (d : Decimal) (hd : d.digits = 0 → d.power ≤ 0) :
    ReadsAs d d.text.toList := by
  unfold Decimal.text
  simp only []
  generalize hpoint : d.power + (d.digits.repr.toList.length : Int) = point
  by_cases hscientific : point < -3 ∨ 16 < point
  · rw [if_pos hscientific, String.toList_append, String.toList_ofList, List.append_assoc]
    exact readsAs_scientific d (by omega)
  rw [if_neg hscientific]
  by_cases hsmall : point ≤ 0
  · rw [if_pos hsmall, String.toList_ofList, List.append_assoc]
    exact readsAs_small d (by omega)
  rw [if_neg hsmall]
  by_cases hlarge : (d.digits.repr.toList.length : Int) ≤ point
  · rw [if_pos hlarge, String.toList_ofList]
    exact readsAs_large d hd (by omega)
  · obtain ⟨k, hk⟩ : ∃ k, point.toNat = k + 1 := ⟨point.toNat - 1, by omega⟩
    rw [if_neg hlarge, String.toList_ofList, hk]
    exact readsAs_inner d (by omega) (by omega)

theorem trimZeros_digits (fuel : Nat) (d : Decimal) (hd : d.digits = 0 → d.power ≤ 0) :
    (d.trimZeros fuel).digits = 0 → (d.trimZeros fuel).power ≤ 0 := by
  induction fuel generalizing d with
  | zero => exact hd
  | succ fuel ih =>
    rw [Decimal.trimZeros]
    split_ifs with h
    · refine ih _ fun hz => ?_
      simp only at hz
      omega
    · exact hd

theorem isZero_ofSignMagnitude (negative : Bool) :
    (Binary64.ofSignMagnitude negative 0).isZero = true := by
  cases negative <;> decide

theorem shortest_digits (x : Binary64) : x.shortest.digits = 0 → x.shortest.power ≤ 0 := by
  unfold Binary64.shortest
  simp only []
  split_ifs with hz
  · exact fun _ => Int.le_refl _
  · refine trimZeros_digits _ _ ?_
    rcases hfound : List.findSome? _ ((List.range 17).map (· + 1)) with _ | d
    · exact fun _ => Int.le_refl _
    · -- a decimal without digits reads back as a zero
      obtain ⟨n, -, hn⟩ := List.exists_of_findSome?_eq_some hfound
      obtain ⟨m, hm, rfl⟩ := Option.map_eq_some_iff.mp hn
      have hx := List.find?_some hm
      rw [beq_iff_eq] at hx
      intro hdigits
      simp only [Option.getD_some] at hdigits
      rw [hdigits, Binary64.ofDecimal, if_pos rfl] at hx
      rw [← hx, isZero_ofSignMagnitude] at hz
      exact absurd rfl hz

theorem numeral_unsigned {d : Decimal} {t : List Char} (negative : Bool) (h : Unsigned d t) :
    Numeral (.float (Binary64.ofDecimal negative d.digits d.power)) (minusText negative ++ t) := by
  cases h with
  | mk hc hf hx hne => exact .float negative hc hf hx hne

/-- A decimal with the value of the shortest one reads back, like it. -/
theorem ofDecimal_value {x : Binary64} {d : Decimal} (hx : x.isFinite = true)
    (hvalue : d.value = x.shortest.value) :
    Binary64.ofDecimal x.isNegative d.digits d.power = x := by
  have hreads := Binary64.ofDecimal_shortest hx
  cases hzero : x.isZero with
  | true =>
    have hshortest : x.shortest = ⟨0, 0⟩ := by
      rw [Binary64.shortest]
      exact if_pos hzero
    have hdigits : d.digits = 0 := by
      rw [hshortest, Decimal.value, Decimal.value, Nat.cast_zero, zero_mul, mul_eq_zero] at hvalue
      exact_mod_cast hvalue.resolve_right (by positivity)
    rw [Binary64.ofDecimal, if_pos hdigits]
    exact Binary64.eq_of_isZero hzero
  | false =>
    rw [Binary64.ofDecimal_congr hvalue (by rw [hreads]; exact hx) (by rw [hreads]; exact hzero)]
    exact hreads

/-- The text of a finite number is a numeral for that number. -/
theorem numeral_text {x : Binary64} (hx : x.isFinite = true) :
    Numeral (.float x) x.text.toList := by
  have hsign : x.text.toList = minusText x.isNegative ++ x.shortest.text.toList := by
    rw [Binary64.text, if_pos hx, String.toList_append]
    cases x.isNegative <;> rfl
  obtain ⟨d, hvalue, hd⟩ := unsigned_decimal _ (shortest_digits x)
  have hnumeral := numeral_unsigned x.isNegative hd
  rw [ofDecimal_value hx hvalue, ← hsign] at hnumeral
  exact hnumeral

/-- The text of a floating-point number is a token for one. -/
theorem token_floatText (x : Binary64) :
    ∃ y, Numeral (.float y) (Style.floatText x) ∨ Word (.float y) (Style.floatText x) := by
  unfold Style.floatText
  split_ifs with hf hn hs
  · exact ⟨x, .inl (numeral_text hf)⟩
  · exact ⟨_, .inr .nan⟩
  · exact ⟨_, .inr .negativeInfinity⟩
  · exact ⟨_, .inr .infinity⟩

end Floats

end TerraIndex.Json
