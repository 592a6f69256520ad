import TerraIndex.Source.Brackets
import TerraIndex.Proofs.Json.LineEnds
/-!
# Brackets of written JSON

A text is quiet when it stays on its line and none of its brackets stand outside strings, and
balanced when every bracket it opens is closed again in it. Written scalars are quiet, and a
written array or object is a balanced text between two brackets (`written_quiet_or_box`).
-/

namespace TerraIndex

open Json

/-- Reading the text from outside strings meets no bracket and ends outside strings. -/
def Quiet (t : List Char) : Prop :=
  '\n' ∉ t ∧ ∀ column rest,
    bracketsFrom column .outside (t ++ rest) = bracketsFrom (column + t.length) .outside rest

inductive Balanced : List Char → Prop
  | nil : Balanced []
  | newline {t : List Char} : Balanced t → Balanced ('\n' :: t)
  | quiet {q t : List Char} : Quiet q → Balanced t → Balanced (q ++ t)
  | box {o c : Char} {m t : List Char} : isOpening o = true → isClosing c = true → Balanced m →
      Balanced t → Balanced (o :: (m ++ c :: t))

/-- A balanced text between two brackets. -/
def Box (t : List Char) : Prop :=
  ∃ o m c, t = o :: (m ++ [c]) ∧ isOpening o = true ∧ isClosing c = true ∧ Balanced m

section QuietTexts

theorem quiet_nil : Quiet [] := ⟨by simp, fun _ _ => rfl⟩

theorem Quiet.append {t u : List Char} (ht : Quiet t) (hu : Quiet u) : Quiet (t ++ u) := by
  refine ⟨by simp [ht.1, hu.1], fun column rest => ?_⟩
  rw [List.append_assoc, ht.2, hu.2, List.length_append, Nat.add_assoc]

theorem quiet_char {c : Char}
    (h : c ≠ '\n' ∧ c ≠ '"' ∧ isOpening c = false ∧ isClosing c = false) : Quiet [c] := by
  obtain ⟨hn, hq, ho, hc⟩ := h
  refine ⟨by simpa using Ne.symm hn, fun column rest => ?_⟩
  rw [List.cons_append, bracketsFrom, if_neg hq, ho, hc]
  rfl

theorem quiet_of_forall {t : List Char}
    (h : ∀ c ∈ t, c ≠ '\n' ∧ c ≠ '"' ∧ isOpening c = false ∧ isClosing c = false) : Quiet t := by
  induction t with
  | nil => exact quiet_nil
  | cons c cs ih =>
    obtain ⟨hc, hcs⟩ := List.forall_mem_cons.mp h
    exact (quiet_char hc).append (ih hcs)

theorem bracketsFrom_inside {c : Char} (column : Nat) (rest : List Char) (hq : c ≠ '"')
    (hb : c ≠ '\\') :
    bracketsFrom column .inside (c :: rest) = bracketsFrom (column + 1) .inside rest := by
  simp [bracketsFrom, hq, hb]

theorem bracketsFrom_escape (c : Char) (column : Nat) (rest : List Char) :
    bracketsFrom column .inside ('\\' :: c :: rest) = bracketsFrom (column + 2) .inside rest := by
  simp [bracketsFrom]

theorem hexValue?_plain {c : Char} (h : (hexValue? c).isSome) : c ≠ '"' ∧ c ≠ '\\' := by
  refine ⟨?_, ?_⟩ <;> (rintro rfl; revert h; decide)

theorem bracketsFrom_unit {a b c d : Char} {n : Nat} (column : Nat) (rest : List Char)
    (h : unit? a b c d = some n) :
    bracketsFrom column .inside ('\\' :: 'u' :: a :: b :: c :: d :: rest)
      = bracketsFrom (column + 6) .inside rest := by
  obtain ⟨ha, hb, hc, hd⟩ := isSome_of_unit? h
  rw [bracketsFrom_escape,
    bracketsFrom_inside _ _ (hexValue?_plain ha).1 (hexValue?_plain ha).2,
    bracketsFrom_inside _ _ (hexValue?_plain hb).1 (hexValue?_plain hb).2,
    bracketsFrom_inside _ _ (hexValue?_plain hc).1 (hexValue?_plain hc).2,
    bracketsFrom_inside _ _ (hexValue?_plain hd).1 (hexValue?_plain hd).2]

theorem bracketsFrom_body {s t : List Char} (h : StringBody s t) (column : Nat)
    (rest : List Char) :
    bracketsFrom column .inside (t ++ '"' :: rest)
      = bracketsFrom (column + t.length + 1) .outside rest := by
  induction h generalizing column with
  | nil => simp [bracketsFrom]
  | plain hq hb _ _ ih =>
    rw [List.cons_append, bracketsFrom_inside _ _ hq hb, ih, List.length_cons]
    congr 1
    omega
  | letter _ _ ih =>
    rw [List.cons_append, List.cons_append, bracketsFrom_escape, ih]
    simp only [List.length_cons]
    congr 1
    omega
  | unit hu _ _ ih =>
    simp only [List.cons_append]
    rw [bracketsFrom_unit _ _ hu, ih]
    simp only [List.length_cons]
    congr 1
    omega
  | pair hu _ hu' _ _ ih =>
    simp only [List.cons_append]
    rw [bracketsFrom_unit _ _ hu, bracketsFrom_unit _ _ hu', ih]
    simp only [List.length_cons]
    congr 1
    omega

theorem quiet_quoted {s t : List Char} (h : StringBody s t) : Quiet ('"' :: (t ++ ['"'])) := by
  refine ⟨(quoted_noControls h).not_mem (by decide), fun column rest => ?_⟩
  simp only [List.cons_append, List.append_assoc, List.nil_append]
  rw [bracketsFrom, if_pos rfl, bracketsFrom_body h]
  simp only [List.length_cons, List.length_append, List.length_nil]
  congr 1
  omega

theorem isOpening_of_isDigit {c : Char} (h : c.isDigit = true) : isOpening c = false := by
  rw [isOpening, Bool.or_eq_false_iff, beq_eq_false_iff_ne, beq_eq_false_iff_ne]
  exact ⟨isDigit_ne h (by decide), isDigit_ne h (by decide)⟩

theorem isClosing_of_isDigit {c : Char} (h : c.isDigit = true) : isClosing c = false := by
  rw [isClosing, Bool.or_eq_false_iff, beq_eq_false_iff_ne, beq_eq_false_iff_ne]
  exact ⟨isDigit_ne h (by decide), isDigit_ne h (by decide)⟩

theorem quiet_digits {cs : List Char} (h : Digits cs) : Quiet cs :=
  quiet_of_forall fun c hc => by
    have hd := h c hc
    exact ⟨isDigit_ne hd (by decide), isDigit_ne hd (by decide), isOpening_of_isDigit hd,
      isClosing_of_isDigit hd⟩

theorem quiet_whole {cs : List Char} (h : Whole cs) : Quiet cs := by
  cases h with
  | zero => exact quiet_digits (by decide)
  | digits _ hd => exact quiet_digits hd

theorem quiet_minusText (negative : Bool) : Quiet (minusText negative) := by
  cases negative
  · exact quiet_nil
  · exact quiet_char (by decide)

theorem quiet_numeral {v : Raw} {t : List Char} (h : Numeral v t) : Quiet t := by
  cases h with
  | int negative hw _ => exact (quiet_minusText negative).append (quiet_whole hw)
  | float negative hw hf hx _ =>
    refine (quiet_minusText negative).append ((quiet_whole hw).append (.append ?_ ?_))
    · cases hf with
      | none => exact quiet_nil
      | some _ hd =>
        exact (quiet_char (by decide)).append (quiet_digits hd)
    · cases hx with
      | none => exact quiet_nil
      | @some mark negative sign cs hm hs _ hd =>
        have hmark : Quiet [mark] := by
          rcases hm with rfl | rfl <;> exact quiet_char (by decide)
        have hsign : Quiet sign := by
          cases hs with
          | none => exact quiet_nil
          | plus => exact quiet_char (by decide)
          | minus => exact quiet_char (by decide)
        exact hmark.append (hsign.append (quiet_digits hd))

theorem quiet_word {v : Raw} {t : List Char} (h : Word v t) : Quiet t := by
  cases h <;> exact quiet_of_forall (by simp [isOpening, isClosing])

end QuietTexts

section BalancedTexts

theorem Balanced.append {t u : List Char} (ht : Balanced t) (hu : Balanced u) :
    Balanced (t ++ u) := by
  induction ht with
  | nil => exact hu
  | newline _ ih => exact .newline ih
  | quiet hq _ ih =>
    rw [List.append_assoc]
    exact .quiet hq ih
  | box ho hc hm _ _ ih =>
    rw [List.cons_append, List.append_assoc]
    exact .box ho hc hm ih

theorem Quiet.balanced {t : List Char} (h : Quiet t) : Balanced t := by
  rw [← List.append_nil t]
  exact .quiet h .nil

theorem Box.balanced {t : List Char} (h : Box t) : Balanced t := by
  obtain ⟨o, m, c, rfl, ho, hc, hm⟩ := h
  exact .box ho hc hm .nil

theorem balanced_blanks {w : List Char} (hw : Blanks w) : Balanced w := by
  induction w with
  | nil => exact .nil
  | cons c w ih =>
    obtain ⟨hc, hcs⟩ := List.forall_mem_cons.mp hw
    simp only [Json.isBlank, Bool.or_eq_true, beq_iff_eq] at hc
    rcases hc with ((rfl | rfl) | rfl) | rfl
    · exact (quiet_char (by decide)).balanced.append (ih hcs)
    · exact (quiet_char (by decide)).balanced.append (ih hcs)
    · exact .newline (ih hcs)
    · exact (quiet_char (by decide)).balanced.append (ih hcs)

theorem balanced_char {c : Char} {t : List Char} (hc : Quiet [c]) (ht : Balanced t) :
    Balanced (c :: t) := .quiet hc ht

theorem quiet_comma : Quiet [','] := quiet_char (by decide)

theorem quiet_colon : Quiet [':'] := quiet_char (by decide)

theorem balanced_of_quiet_or_box {t : List Char} {p : Prop} (h : Quiet t ∧ p ∨ Box t) :
    Balanced t := by
  rcases h with h | h
  · exact h.1.balanced
  · exact h.balanced

mutual

/-- A written value is quiet, and then it is no object, or a box. -/
theorem written_quiet_or_box : ∀ {v : Raw} {t : List Char}, Written v t →
    (Quiet t ∧ ∀ entries, v ≠ .map entries) ∨ Box t
  | _, _, .word h => .inl ⟨quiet_word h, by cases h <;> simp⟩
  | _, _, .numeral h => .inl ⟨quiet_numeral h, by cases h <;> simp⟩
  | _, _, .text h => .inl ⟨quiet_quoted h, by simp⟩
  | _, _, .emptyList hw =>
    .inr ⟨_, _, _, rfl, by decide, by decide, balanced_blanks hw⟩
  | _, _, .list (w := w) (t := t) hw ht hu => by
    obtain ⟨m, rfl, hm⟩ := balanced_moreItems hu
    refine .inr ⟨'[', w ++ (t ++ m), ']', by simp, by decide, by decide, ?_⟩
    exact (balanced_blanks hw).append
      ((balanced_of_quiet_or_box (written_quiet_or_box ht)).append hm)
  | _, _, .emptyMap hw =>
    .inr ⟨_, _, _, rfl, by decide, by decide, balanced_blanks hw⟩
  | _, _, .map (w := w) (t := t) hw ht hu => by
    obtain ⟨m, rfl, hm⟩ := balanced_moreMembers hu
    refine .inr ⟨'\x7b', w ++ (t ++ m), '\x7d', by simp, by decide, by decide, ?_⟩
    exact (balanced_blanks hw).append ((balanced_member ht).append hm)

theorem balanced_moreItems : ∀ {vs : List Raw} {u : List Char}, MoreItems vs u →
    ∃ m, u = m ++ [']'] ∧ Balanced m
  | _, _, .last hw => ⟨_, rfl, balanced_blanks hw⟩
  | _, _, @MoreItems.next _ _ w w' t _ hw hw' ht hu => by
    obtain ⟨m, rfl, hm⟩ := balanced_moreItems hu
    refine ⟨w ++ ',' :: (w' ++ (t ++ m)), by simp, ?_⟩
    have ht' := balanced_of_quiet_or_box (written_quiet_or_box ht)
    exact (balanced_blanks hw).append (balanced_char quiet_comma
      ((balanced_blanks hw').append (ht'.append hm)))

theorem balanced_member : ∀ {m : String × Raw} {t : List Char}, Member m t → Balanced t
  | _, _, @Member.mk _ k _ w w' t hs hw hw' ht => by
    have ht' := balanced_of_quiet_or_box (written_quiet_or_box ht)
    have hkey := (quiet_quoted hs).balanced.append ((balanced_blanks hw).append
      (balanced_char quiet_colon ((balanced_blanks hw').append ht')))
    simpa using hkey

theorem balanced_moreMembers : ∀ {ms : List (String × Raw)} {u : List Char},
    MoreMembers ms u → ∃ m, u = m ++ ['\x7d'] ∧ Balanced m
  | _, _, .last hw => ⟨_, rfl, balanced_blanks hw⟩
  | _, _, @MoreMembers.next _ _ w w' t _ hw hw' ht hu => by
    obtain ⟨m, rfl, hm⟩ := balanced_moreMembers hu
    refine ⟨w ++ ',' :: (w' ++ (t ++ m)), by simp, ?_⟩
    exact (balanced_blanks hw).append (balanced_char quiet_comma
      ((balanced_blanks hw').append ((balanced_member ht).append hm)))

end

end BalancedTexts

end TerraIndex
