import TerraIndex.Text.Quoted
import TerraIndex.Proofs.Json.LineEnds
/-!
# Quoted strings are written JSON

Both ways to quote a string write a JSON string for it (`stringBody_minimal`, `stringBody_ascii`),
and a text begins with at most one quoted string (`quoted_unique`), so the quoted form of a key
is found in front of a text only where the text begins with that string.
-/

namespace TerraIndex.Json

open Text

section Escapes

theorem hexValue?_digitChar : ∀ d < 16, hexValue? (Nat.digitChar d) = some d := by decide

theorem hexDigits_four (n : Nat) : hexDigits 4 n = [Nat.digitChar (n / 4096 % 16),
    Nat.digitChar (n / 256 % 16), Nat.digitChar (n / 16 % 16), Nat.digitChar (n % 16)] := by
  simp [hexDigits, Nat.div_div_eq_div_mul]

theorem unit?_digits {n : Nat} (h : n < 0x10000) :
    unit? (Nat.digitChar (n / 4096 % 16)) (Nat.digitChar (n / 256 % 16))
      (Nat.digitChar (n / 16 % 16)) (Nat.digitChar (n % 16)) = some n := by
  unfold unit?
  rw [hexValue?_digitChar _ (by omega), hexValue?_digitChar _ (by omega),
    hexValue?_digitChar _ (by omega), hexValue?_digitChar _ (by omega)]
  simp only [Option.bind_eq_bind, Option.bind_some, Option.pure_def, Option.some.injEq]
  omega

theorem unicodeEscape_eq (n : Nat) : unicodeEscape n = ['\\', 'u',
    Nat.digitChar (n / 4096 % 16), Nat.digitChar (n / 256 % 16),
    Nat.digitChar (n / 16 % 16), Nat.digitChar (n % 16)] := by
  rw [unicodeEscape, hexDigits_four]

theorem char_not_surrogate (c : Char) :
    isHighSurrogate c.toNat = false ∧ isLowSurrogate c.toNat = false := by
  have h : c.toNat < 0xd800 ∨ 0xdfff < c.toNat ∧ c.toNat < 0x110000 := c.valid
  simp only [isHighSurrogate, isLowSurrogate, Bool.and_eq_false_iff, decide_eq_false_iff_not]
  omega

theorem unitChar_toNat (c : Char) : unitChar c.toNat = c := by
  obtain ⟨hh, hl⟩ := char_not_surrogate c
  rw [unitChar, hh, hl]
  exact Char.ofNat_toNat c

/-- A character's escape of four digits stands for the character. -/
theorem StringBody.escaped {c : Char} {s t : List Char} (hc : c.toNat < 0x10000)
    (h : StringBody s t) : StringBody (c :: s) (unicodeEscape c.toNat ++ t) := by
  have hu := StringBody.unit (unit?_digits hc) (fun hn => by
    rw [(char_not_surrogate c).1] at hn
    exact absurd hn (by decide)) h
  rw [unitChar_toNat] at hu
  rw [unicodeEscape_eq]
  exact hu

theorem StringBody.escapedPair {c : Char} {s t : List Char} (hc : 0x10000 ≤ c.toNat)
    (h : StringBody s t) :
    StringBody (c :: s) ((unicodeEscape (0xd800 + (c.toNat - 0x10000) / 0x400)
      ++ unicodeEscape (0xdc00 + (c.toNat - 0x10000) % 0x400)) ++ t) := by
  have hvalid : c.toNat < 0xd800 ∨ 0xdfff < c.toNat ∧ c.toNat < 0x110000 := c.valid
  generalize hn : c.toNat = n at hc hvalid
  have hhigh : isHighSurrogate (0xd800 + (n - 0x10000) / 0x400) = true := by
    simp only [isHighSurrogate, Bool.and_eq_true, decide_eq_true_eq]
    omega
  have hlow : isLowSurrogate (0xdc00 + (n - 0x10000) % 0x400) = true := by
    simp only [isLowSurrogate, Bool.and_eq_true, decide_eq_true_eq]
    omega
  have hp := StringBody.pair (unit?_digits (by omega)) hhigh (unit?_digits (by omega)) hlow h
  have hchar : pairChar (0xd800 + (n - 0x10000) / 0x400) (0xdc00 + (n - 0x10000) % 0x400) = c := by
    have hsum : 0x10000 + (0xd800 + (n - 0x10000) / 0x400 - 0xd800) * 0x400
        + (0xdc00 + (n - 0x10000) % 0x400 - 0xdc00) = n := by omega
    rw [pairChar, hsum, ← hn, Char.ofNat_toNat]
  rw [hchar] at hp
  rw [unicodeEscape_eq, unicodeEscape_eq]
  exact hp

/-- A short escape is a backslash and a letter that stands for the character; the quote and the
backslash have one. -/
theorem shortEscape?_some {c : Char} {e : List Char} (h : shortEscape? c = some e) :
    ∃ l, e = ['\\', l] ∧ letterEscape? l = some c := by
  unfold shortEscape? at h
  split at h <;> first
    | (cases h; exact ⟨_, rfl, by decide⟩)
    | simp at h

theorem shortEscape?_none {c : Char} (h : shortEscape? c = none) : c ≠ '"' ∧ c ≠ '\\' := by
  refine ⟨?_, ?_⟩ <;> (rintro rfl; simp [shortEscape?] at h)

theorem stringBody_minimal : ∀ s : List Char, StringBody s (s.flatMap escapeMinimal)
  | [] => .nil
  | c :: s => by
    have ih := stringBody_minimal s
    rw [List.flatMap_cons, escapeMinimal]
    split
    · rename_i e he
      obtain ⟨l, rfl, hl⟩ := shortEscape?_some he
      exact .letter hl ih
    · rename_i hnone
      obtain ⟨hq, hb⟩ := shortEscape?_none hnone
      split_ifs with hc
      · exact .escaped (by omega) ih
      · exact .plain hq hb (by omega) ih

theorem stringBody_ascii : ∀ s : List Char, StringBody s (s.flatMap escapeAscii)
  | [] => .nil
  | c :: s => by
    have ih := stringBody_ascii s
    rw [List.flatMap_cons, escapeAscii]
    split
    · rename_i e he
      obtain ⟨l, rfl, hl⟩ := shortEscape?_some he
      exact .letter hl ih
    · rename_i hnone
      obtain ⟨hq, hb⟩ := shortEscape?_none hnone
      simp only []
      split_ifs with hc hw
      · exact .plain hq hb hc.1 ih
      · exact .escaped hw ih
      · exact .escapedPair (by omega) ih

/-- The text is a JSON string for the given characters. -/
def Quoted (s q : List Char) : Prop := ∃ t, StringBody s t ∧ q = '"' :: (t ++ ['"'])

theorem quoted_minimal (s : List Char) : Quoted s (quoteMinimal s) :=
  ⟨_, stringBody_minimal s, rfl⟩

theorem quoted_ascii (s : List Char) : Quoted s (quoteAscii s) :=
  ⟨_, stringBody_ascii s, rfl⟩

end Escapes

/-- The string that a text begins with, and what follows it, are determined. -/
theorem quoted_unique {s q s' q' rest rest' : List Char} (h : Quoted s q) (h' : Quoted s' q')
    (heq : q ++ rest = q' ++ rest') : s = s' ∧ q = q' := by
  obtain ⟨t, ht, rfl⟩ := h
  obtain ⟨t', ht', rfl⟩ := h'
  simp only [List.cons_append, List.append_assoc, List.nil_append, List.cons.injEq,
    true_and] at heq
  have hr := scanString_body [] rest ht
  rw [heq, scanString_body [] rest' ht'] at hr
  simp only [Except.ok.injEq, Prod.mk.injEq] at hr
  obtain ⟨rfl, rfl⟩ := hr
  exact ⟨rfl, by rw [List.append_cancel_right heq]⟩

theorem quoted_injective {s s' q : List Char} (h : Quoted s q) (h' : Quoted s' q) : s = s' :=
  (quoted_unique h h' (rfl : q ++ [] = q ++ [])).1

end TerraIndex.Json
