import TerraIndex.Entity.Validation
import TerraIndex.Proofs.Hcl.Places
/-!
# Validation blocks that are found

A block is found by its heading: the word `validation`, blanks and an opening brace. Where a block
has text and no closing brace between its braces, all of it is found (`IsPlain.found`). Of a text
that has as many headings as such blocks, one behind another, these blocks are found and nothing
else (`validationBlocks_inOrder`).
-/

namespace TerraIndex

open Hcl (InOrder)

def validationWord : List Char := "validation".toList

/-- What follows the word and the blanks behind it. -/
def behindWord (cs : List Char) : List Char :=
  (cs.drop validationWord.length).dropWhile Text.isBlank

/-- A text begins with the word, blanks and an opening brace. -/
def isHeading (cs : List Char) : Bool :=
  validationWord.isPrefixOf cs && (behindWord cs).head? == some '\x7b'

/-- How often a heading begins in a text. -/
def headings (cs : List Char) : Nat := cs.tails.countP isHeading

/-- The text of a block without a closing brace inside, and with some text inside. -/
inductive IsPlain : List Char → Prop
  | block {blanks inner : List Char} (hblanks : ∀ c ∈ blanks, Text.isBlank c = true)
      (hinner : '\x7d' ∉ inner) (hne : inner ≠ []) :
      IsPlain (validationWord ++ (blanks ++ '\x7b' :: (inner ++ ['\x7d'])))

section Block

theorem validationAt?_eq (cs : List Char) : validationAt? cs =
    if validationWord.isPrefixOf cs then
      match behindWord cs with
      | '\x7b' :: rest =>
        match rest.dropWhile (· != '\x7d') with
        | '\x7d' :: left =>
          if (rest.takeWhile (· != '\x7d')).isEmpty then none
          else some (validationWord ++ (cs.drop validationWord.length).takeWhile Text.isBlank
            ++ '\x7b' :: rest.takeWhile (· != '\x7d') ++ ['\x7d'], left)
        | _ => none
      | _ => none
    else none := rfl

theorem validationAt?_of_not_heading {cs : List Char} (h : isHeading cs = false) :
    validationAt? cs = none := by
  rw [validationAt?_eq]
  split_ifs with hword
  · split
    · rename_i hbrace
      rw [isHeading, hword, hbrace] at h
      cases h
    · rfl
  · rfl

section Plain

variable {blanks : List Char} (hblanks : ∀ c ∈ blanks, Text.isBlank c = true)

include hblanks in
theorem behindWord_append (rest : List Char) :
    behindWord (validationWord ++ (blanks ++ '\x7b' :: rest)) = '\x7b' :: rest := by
  rw [behindWord, List.drop_left, List.dropWhile_append_of_pos hblanks]
  exact List.dropWhile_cons_of_neg (by decide)

include hblanks in
theorem isHeading_append (rest : List Char) :
    isHeading (validationWord ++ (blanks ++ '\x7b' :: rest)) = true := by
  rw [isHeading, behindWord_append hblanks, List.isPrefixOf_iff_prefix.mpr (List.prefix_append _ _)]
  rfl

end Plain

namespace IsPlain

variable {text : List Char}

theorem begins (h : IsPlain text) (rest : List Char) : isHeading (text ++ rest) = true := by
  obtain ⟨hblanks, -, -⟩ := h
  simp only [List.append_assoc, List.cons_append]
  exact isHeading_append hblanks _

theorem found (h : IsPlain text) (rest : List Char) :
    validationAt? (text ++ rest) = some (text, rest) := by
  obtain @⟨blanks, inner, hblanks, hinner, hne⟩ := h
  have hkeep : ∀ c ∈ inner, (c != '\x7d') = true := fun c hc =>
    bne_iff_ne.mpr fun heq => hinner (heq ▸ hc)
  have htake : (inner ++ '\x7d' :: rest).takeWhile (· != '\x7d') = inner := by
    rw [List.takeWhile_append_of_pos hkeep, List.takeWhile_cons_of_neg (by decide), List.append_nil]
  have hdrop : (inner ++ '\x7d' :: rest).dropWhile (· != '\x7d') = '\x7d' :: rest := by
    rw [List.dropWhile_append_of_pos hkeep, List.dropWhile_cons_of_neg (by decide)]
  have hblank : (blanks ++ '\x7b' :: (inner ++ '\x7d' :: rest)).takeWhile Text.isBlank
      = blanks := by
    rw [List.takeWhile_append_of_pos hblanks, List.takeWhile_cons_of_neg (by decide),
      List.append_nil]
  have hcs : validationWord ++ (blanks ++ '\x7b' :: (inner ++ ['\x7d'])) ++ rest
      = validationWord ++ (blanks ++ '\x7b' :: (inner ++ '\x7d' :: rest)) := by simp
  rw [validationAt?_eq, hcs, behindWord_append hblanks, List.drop_left,
    if_pos (List.isPrefixOf_iff_prefix.mpr (List.prefix_append _ _))]
  simp only [htake, hdrop, hblank, List.isEmpty_iff, hne, if_false]
  simp

theorem exists_cons (h : IsPlain text) : ∃ c cs, text = c :: cs := by
  obtain ⟨-, -, -⟩ := h
  exact ⟨_, _, rfl⟩

end IsPlain

end Block

section AllBlocks

theorem headings_cons (c : Char) (cs : List Char) :
    headings (c :: cs) = headings cs + if isHeading (c :: cs) then 1 else 0 := by
  rw [headings, List.tails, List.countP_cons]
  rfl

theorem headings_append (front rest : List Char) : headings rest ≤ headings (front ++ rest) := by
  induction front with
  | nil => exact Nat.le_refl _
  | cons c front ih =>
    rw [List.cons_append, headings_cons]
    exact Nat.le_add_right_of_le ih

theorem IsPlain.headings_lt {text : List Char} (h : IsPlain text) (rest : List Char) :
    headings rest < headings (text ++ rest) := by
  have hheading := h.begins rest
  obtain ⟨c, cs, rfl⟩ := h.exists_cons
  rw [List.cons_append] at hheading ⊢
  rw [headings_cons, if_pos hheading]
  exact Nat.lt_succ_of_le (headings_append cs rest)

/-- Blocks one behind another all have their headings. -/
theorem length_le_headings {texts : List (List Char)} {cs : List Char} (h : InOrder texts cs)
    (hplain : ∀ text ∈ texts, IsPlain text) : texts.length ≤ headings cs := by
  induction h with
  | nil => exact Nat.zero_le _
  | @cons text rest texts gap _ ih =>
    obtain ⟨htext, htexts⟩ := List.forall_mem_cons.mp hplain
    calc texts.length + 1
      _ ≤ headings rest + 1 := Nat.add_le_add_right (ih htexts) 1
      _ ≤ headings (text ++ rest) := htext.headings_lt rest
      _ ≤ headings (gap ++ (text ++ rest)) := headings_append gap _

/-- Nothing is found where no heading begins. -/
theorem validationBlocks_gap {rest : List Char} : ∀ {gap : List Char} {fuel : Nat},
    headings (gap ++ rest) = headings rest →
    validationBlocks (gap.length + fuel) (gap ++ rest) = validationBlocks fuel rest
  | [], fuel, _ => by rw [List.length_nil, Nat.zero_add, List.nil_append]
  | c :: gap, fuel, h => by
    have hrest := headings_append gap rest
    rw [List.cons_append, headings_cons] at h
    have hnone : isHeading (c :: (gap ++ rest)) = false := by
      rw [Bool.eq_false_iff]
      intro hheading
      rw [if_pos hheading] at h
      omega
    have hgap : headings (gap ++ rest) = headings rest := by
      rw [hnone] at h
      exact h
    rw [List.cons_append, List.length_cons, Nat.succ_add, validationBlocks,
      validationAt?_of_not_heading hnone]
    exact validationBlocks_gap hgap

theorem validationBlocks_nil : ∀ fuel, validationBlocks fuel [] = []
  | 0 => rfl
  | _ + 1 => rfl

/-- Where the headings are those of plain blocks, these blocks are found. -/
theorem validationBlocks_inOrder {texts : List (List Char)} {cs : List Char} (h : InOrder texts cs)
    (hplain : ∀ text ∈ texts, IsPlain text) (honly : headings cs = texts.length) {fuel : Nat}
    (hfuel : cs.length ≤ fuel) : validationBlocks fuel cs = texts := by
  induction h generalizing fuel with
  | @nil cs =>
    obtain ⟨more, rfl⟩ := Nat.exists_eq_add_of_le hfuel
    have hgap : validationBlocks (cs.length + more) (cs ++ []) = validationBlocks more [] :=
      validationBlocks_gap (by rw [List.append_nil]; exact honly)
    rw [List.append_nil] at hgap
    exact hgap.trans (validationBlocks_nil more)
  | @cons text rest texts gap horder ih =>
    obtain ⟨htext, htexts⟩ := List.forall_mem_cons.mp hplain
    -- each of the blocks takes one heading, so there is none in the gap nor inside of the block
    have hbelow := length_le_headings horder htexts
    have hown := htext.headings_lt rest
    have hgap := headings_append gap (text ++ rest)
    rw [List.length_cons] at honly
    rw [List.length_append, List.length_append] at hfuel
    obtain ⟨more, rfl⟩ := Nat.exists_eq_add_of_le (Nat.le_of_add_right_le hfuel)
    have hfound := htext.found rest
    obtain ⟨c, tail, rfl⟩ := htext.exists_cons
    rw [List.length_cons] at hfuel
    obtain ⟨fuel, rfl⟩ := Nat.exists_eq_add_of_lt (show 0 < more by omega)
    rw [validationBlocks_gap (by omega), Nat.zero_add, List.cons_append, validationBlocks]
    rw [List.cons_append] at hfound
    rw [hfound]
    simp only
    rw [ih htexts (by omega) (by omega)]

end AllBlocks

end TerraIndex
