import TerraIndex.Source.Pattern
import TerraIndex.Source.Brackets
import TerraIndex.Proofs.Json.Quoted
/-!
# Lines that begin with a key

A line that begins with a key, a colon and an opening bracket opens the container of that key,
whatever blanks stand around them (`opensContainer_key`); carriage returns at its end do not
matter.
-/

namespace TerraIndex

namespace Text

theorem trimStart_append {w : List Char} (cs : List Char) (hw : ∀ c ∈ w, isBlank c = true) :
    trimStart (w ++ cs) = trimStart cs := List.dropWhile_append_of_pos hw

theorem trimStart_cons {c : Char} (cs : List Char) (hc : isBlank c = false) :
    trimStart (c :: cs) = c :: cs := by
  simp [trimStart, hc]

theorem trimStart_of_blank {w : List Char} (hw : ∀ c ∈ w, isBlank c = true) :
    trimStart w = [] := by
  rw [← List.append_nil w, trimStart_append [] hw]
  rfl

theorem trimEnd_append {c : Char} (a b : List Char) (hc : isBlank c = false) :
    trimEnd (a ++ c :: b) = a ++ c :: trimEnd b := by
  unfold trimEnd
  rw [List.reverse_append, List.reverse_cons, List.append_assoc, List.dropWhile_append]
  split_ifs with h
  · simp [hc, List.isEmpty_iff.mp h]
  · simp

theorem trimEnd_append_blank {w : List Char} (a : List Char) (hw : ∀ c ∈ w, isBlank c = true) :
    trimEnd (a ++ w) = trimEnd a := by
  unfold trimEnd
  rw [List.reverse_append, List.dropWhile_append_of_pos (by simpa using hw)]

theorem dropCarriageReturns_spec (line : List Char) :
    ∃ w, line = dropCarriageReturns line ++ w ∧ ∀ c ∈ w, c = '\r' := by
  refine ⟨(line.reverse.takeWhile (· == '\r')).reverse, ?_, fun c hc => ?_⟩
  · unfold dropCarriageReturns
    rw [← List.reverse_append, List.takeWhile_append_dropWhile, List.reverse_reverse]
  · simpa using List.all_eq_true.mp List.all_takeWhile c (List.mem_reverse.mp hc)

theorem trimStart_append_of_ne_nil {a : List Char} (b : List Char) (h : trimStart a ≠ []) :
    trimStart (a ++ b) = trimStart a ++ b := by
  unfold trimStart at h ⊢
  rw [List.dropWhile_append, if_neg (by simpa using h)]

theorem trimStart_append_blank {a w : List Char} (hw : ∀ c ∈ w, isBlank c = true)
    (h : trimStart a = []) : trimStart (a ++ w) = [] := by
  unfold trimStart at h ⊢
  rw [List.dropWhile_append, h]
  exact trimStart_of_blank hw

/-- The blanks at the end of a line that is not blank stay when those in front go. -/
theorem trimStart_dropCarriageReturns (line : List Char) :
    ∃ w, (∀ c ∈ w, c = '\r') ∧ trimStart line = trimStart (dropCarriageReturns line) ++ w := by
  obtain ⟨w, hline, hw⟩ := dropCarriageReturns_spec line
  have hblank : ∀ c ∈ w, isBlank c = true := by
    intro c hc
    rw [hw c hc]
    decide
  by_cases h : trimStart (dropCarriageReturns line) = []
  · have hnil := trimStart_append_blank hblank h
    rw [← hline] at hnil
    exact ⟨[], by simp, by rw [hnil, h, List.append_nil]⟩
  · have happ := trimStart_append_of_ne_nil w h
    rw [← hline] at happ
    exact ⟨w, hw, happ⟩

theorem trim_dropCarriageReturns (line : List Char) :
    trim (dropCarriageReturns line) = trim line := by
  obtain ⟨w, hw, hline⟩ := trimStart_dropCarriageReturns line
  rw [trim, trim, hline, trimEnd_append_blank]
  intro c hc
  rw [hw c hc]
  decide

end Text

open Json (Quoted quoted_minimal quoted_unique)
open Text (isBlank trim trimStart trimEnd quoteMinimal)

theorem dropFront?_append (front cs : List Char) : dropFront? front (front ++ cs) = some cs := by
  simp [dropFront?]

theorem behindKey?_key {w w' : List Char} (key : String) (cs : List Char)
    (hw : ∀ c ∈ w, isBlank c = true) (hw' : ∀ c ∈ w', isBlank c = true) :
    behindKey? key (quoteMinimal key.toList ++ (w ++ ':' :: (w' ++ cs))) = some (trimStart cs) := by
  unfold behindKey?
  rw [dropFront?_append, Option.map_some, Text.trimStart_append _ hw,
    Text.trimStart_cons _ (by decide)]
  simp only []
  rw [Text.trimStart_append _ hw']

/-- Blanks within a line. -/
def Margin (w : List Char) : Prop := ∀ c ∈ w, isBlank c = true ∧ c ≠ '\n'

instance (w : List Char) : Decidable (Margin w) := Json.decidableForallMem _ w

theorem Margin.blank {w : List Char} (hw : Margin w) : ∀ c ∈ w, isBlank c = true :=
  fun c hc => (hw c hc).1

theorem trim_char {w : List Char} {c : Char} (rest : List Char) (hw : ∀ c ∈ w, isBlank c = true)
    (hc : isBlank c = false) : trim (w ++ c :: rest) = c :: trimEnd rest := by
  rw [trim, Text.trimStart_append _ hw, Text.trimStart_cons _ hc]
  exact Text.trimEnd_append [] rest hc

theorem trim_quoted {w s q : List Char} (rest : List Char) (hw : ∀ c ∈ w, isBlank c = true)
    (hq : Quoted s q) : trim (w ++ (q ++ rest)) = q ++ trimEnd rest := by
  obtain ⟨t, -, rfl⟩ := hq
  rw [trim, Text.trimStart_append _ hw, List.cons_append, Text.trimStart_cons _ (by decide),
    List.append_assoc, ← List.cons_append, List.singleton_append,
    Text.trimEnd_append _ _ (by decide)]
  simp

theorem trim_key {w w' w'' : List Char} {c : Char} (key : String) (rest : List Char)
    (hw : Margin w) (hc : isBlank c = false) :
    trim (w ++ (quoteMinimal key.toList ++ (w' ++ ':' :: (w'' ++ c :: rest))))
      = quoteMinimal key.toList ++ (w' ++ ':' :: (w'' ++ c :: trimEnd rest)) := by
  have hend : trimEnd (w' ++ ':' :: (w'' ++ c :: rest))
      = w' ++ ':' :: (w'' ++ c :: trimEnd rest) := by
    rw [Text.trimEnd_append _ _ (by decide), Text.trimEnd_append _ _ hc]
  rw [trim_quoted _ hw.blank (quoted_minimal _), hend]

/-- A line that begins with the key opens its container when the value begins with a bracket. -/
theorem opensContainer_key {w w' w'' : List Char} {c : Char} (key : String) (rest : List Char)
    (hw : Margin w) (hw' : Margin w') (hw'' : Margin w'') (hc : isBlank c = false) :
    opensContainer key (w ++ (quoteMinimal key.toList ++ (w' ++ ':' :: (w'' ++ c :: rest))))
      = isOpening c := by
  unfold opensContainer
  rw [trim_key key rest hw hc, behindKey?_key key _ hw'.blank hw''.blank, Text.trimStart_cons _ hc]
  split <;> simp_all [isOpening]

theorem opensMap_key {w w' w'' : List Char} {c : Char} (key : String) (rest : List Char)
    (hw : Margin w) (hw' : Margin w') (hw'' : Margin w'') (hc : isBlank c = false) :
    opensMap key (w ++ (quoteMinimal key.toList ++ (w' ++ ':' :: (w'' ++ c :: rest))))
      = (c == '\x7b') := by
  unfold opensMap
  rw [trim_key key rest hw hc, behindKey?_key key _ hw'.blank hw''.blank, Text.trimStart_cons _ hc]
  split <;> simp_all

section OtherLines

/-- The line does not begin with the key and a colon. -/
def LacksKey (key : String) (line : List Char) : Prop := behindKey? key (trim line) = none

theorem LacksKey.opensContainer {key : String} {line : List Char} (h : LacksKey key line) :
    opensContainer key line = false := by
  rw [TerraIndex.opensContainer, h]

theorem LacksKey.opensMap {key : String} {line : List Char} (h : LacksKey key line) :
    opensMap key line = false := by
  rw [TerraIndex.opensMap, h]

theorem dropFront?_eq_none {front cs : List Char} (h : ∀ rest, cs ≠ front ++ rest) :
    dropFront? front cs = none := by
  unfold dropFront?
  rw [if_neg]
  intro hp
  obtain ⟨rest, hrest⟩ := List.isPrefixOf_iff_prefix.mp hp
  exact h rest hrest.symm

theorem lacksKey_char {w : List Char} {c : Char} (key : String) (rest : List Char)
    (hw : ∀ c ∈ w, isBlank c = true) (hc : isBlank c = false) (hq : c ≠ '"') :
    LacksKey key (w ++ c :: rest) := by
  have hnone : dropFront? (quoteMinimal key.toList) (c :: trimEnd rest) = none :=
    dropFront?_eq_none fun more h => hq (List.cons.inj h).1
  rw [LacksKey, trim_char _ hw hc, behindKey?, hnone]
  rfl

theorem dropFront?_quoted {s q : List Char} (key : String) (rest : List Char) (h : Quoted s q)
    (hne : q ≠ quoteMinimal key.toList) :
    dropFront? (quoteMinimal key.toList) (q ++ rest) = none :=
  dropFront?_eq_none fun _ heq => hne (quoted_unique h (quoted_minimal _) heq).2

theorem lacksKey_quoted {w s q : List Char} (key : String) (rest : List Char)
    (hw : ∀ c ∈ w, isBlank c = true) (h : Quoted s q) (hne : q ≠ quoteMinimal key.toList) :
    LacksKey key (w ++ (q ++ rest)) := by
  rw [LacksKey, trim_quoted _ hw h, behindKey?, dropFront?_quoted key _ h hne]
  rfl

/-- A string without a colon behind it is no key. -/
theorem lacksKey_string {w s q back : List Char} (key : String) (hw : ∀ c ∈ w, isBlank c = true)
    (h : Quoted s q) (hback : back = [] ∨ back = [',']) : LacksKey key (w ++ (q ++ back)) := by
  by_cases hq : q = quoteMinimal key.toList
  · rw [LacksKey, trim_quoted _ hw h, behindKey?, hq, dropFront?_append]
    rcases hback with rfl | rfl <;> rfl
  · exact lacksKey_quoted key back hw h hq

theorem lacksKey_nil (key : String) : LacksKey key [] := rfl

end OtherLines

theorem opensContainer_dropCarriageReturns (key : String) (line : List Char) :
    opensContainer key (Text.dropCarriageReturns line) = opensContainer key line := by
  rw [opensContainer, Text.trim_dropCarriageReturns, opensContainer]

end TerraIndex
