import TerraIndex.Proofs.Json.Spaced
/-!
# Tokens over any lines

A text writes a value when it has the tokens of the value (`Raw.tokens`) in order, with any white
space and line breaks around them, and every string in any of its spellings (`Spread`). A text of
one line is a special case (`Spaced.spread`). Every written text, which the decoder reads to its
value, has the tokens of a value that lists the same members, repeated keys among them
(`written_spread`).

A newline in such a text stands between two tokens (`Spread.newline`): strings have none.
-/

namespace TerraIndex

open Json

/-- A text of a token: any of those of one line, or any spelling of a string. -/
inductive Token.Written : Token → List Char → Prop
  | spelled {k : Token} {t : List Char} : k.Spelled t → Written k t
  | text {s : String} {t : List Char} : StringBody s.toList t →
      Written (.text s) ('"' :: (t ++ ['"']))

/-- The tokens in order, with any white space around them. -/
inductive Spread : List Token → List Char → Prop
  | nil {w : List Char} : Blanks w → Spread [] w
  | cons {k : Token} {ks : List Token} {w s t : List Char} : Blanks w → k.Written s →
      Spread ks t → Spread (k :: ks) (w ++ (s ++ t))

/-- The characters that are tokens by themselves. -/
def isMark (c : Char) : Bool :=
  c == '[' || c == ']' || c == '\x7b' || c == '\x7d' || c == ',' || c == ':'

/-- The single characters among the tokens are marks. -/
def MarksOnly (ks : List Token) : Prop := ∀ c, Token.mark c ∈ ks → isMark c = true

theorem blanks_append {w w' : List Char} (hw : Blanks w) (hw' : Blanks w') : Blanks (w ++ w') :=
  List.forall_mem_append.mpr ⟨hw, hw'⟩

theorem Spread.blanks {ks : List Token} {w t : List Char} (hw : Blanks w) (h : Spread ks t) :
    Spread ks (w ++ t) := by
  cases h with
  | nil hw' => exact .nil (blanks_append hw hw')
  | cons hw' hk ht =>
    rw [← List.append_assoc]
    exact .cons (blanks_append hw hw') hk ht

/-- A token with nothing in front of it. -/
theorem Spread.token {k : Token} {ks : List Token} {s t : List Char} (hk : k.Written s)
    (ht : Spread ks t) : Spread (k :: ks) (s ++ t) := .cons blanks_nil hk ht

theorem Spread.mark {ks : List Token} {w t : List Char} (c : Char) (hw : Blanks w)
    (ht : Spread ks t) : Spread (.mark c :: ks) (w ++ c :: t) :=
  (Spread.cons hw (.spelled (.mark c)) ht :)

theorem Spaced.spread {ks : List Token} {t : List Char} (h : Spaced ks t) : Spread ks t := by
  induction h with
  | nil hw => exact .nil hw.blanks
  | cons hw hk _ ih => exact .cons hw.blanks (.spelled hk) ih

section Tokens

@[simp] theorem marksOnly_nil : MarksOnly [] := by simp [MarksOnly]

@[simp] theorem marksOnly_mark (c : Char) (ks : List Token) :
    MarksOnly (.mark c :: ks) ↔ isMark c = true ∧ MarksOnly ks := by
  simp [MarksOnly, or_imp, forall_and]

@[simp] theorem marksOnly_leaf (v : Raw) (ks : List Token) :
    MarksOnly (.leaf v :: ks) ↔ MarksOnly ks := by simp [MarksOnly]

@[simp] theorem marksOnly_text (s : String) (ks : List Token) :
    MarksOnly (.text s :: ks) ↔ MarksOnly ks := by simp [MarksOnly]

@[simp] theorem marksOnly_append (ks more : List Token) :
    MarksOnly (ks ++ more) ↔ MarksOnly ks ∧ MarksOnly more := by
  simp [MarksOnly, or_imp, forall_and]

mutual

theorem marksOnly_tokens : ∀ v : Raw, MarksOnly v.tokens
  | .null => by simp [Raw.tokens]
  | .bool _ => by simp [Raw.tokens]
  | .int _ => by simp [Raw.tokens]
  | .float _ => by simp [Raw.tokens]
  | .text _ => by simp [Raw.tokens]
  | .tuple _ => by simp [Raw.tokens]
  | .other _ => by simp [Raw.tokens]
  | .list [] => by simp [Raw.tokens, isMark]
  | .list (item :: items) => by
    simp [Raw.tokens, isMark, marksOnly_tokens item, marksOnly_itemTokens items]
  | .map [] => by simp [Raw.tokens, isMark]
  | .map ((_, value) :: entries) => by
    simp [Raw.tokens, isMark, marksOnly_tokens value, marksOnly_entryTokens entries]

theorem marksOnly_itemTokens : ∀ items : List Raw, MarksOnly (itemTokens items)
  | [] => by simp [itemTokens, isMark]
  | item :: items => by
    simp [itemTokens, isMark, marksOnly_tokens item, marksOnly_itemTokens items]

theorem marksOnly_entryTokens : ∀ entries : List (String × Raw),
    MarksOnly (entryTokens entries)
  | [] => by simp [entryTokens, isMark]
  | (_, value) :: entries => by
    simp [entryTokens, isMark, marksOnly_tokens value, marksOnly_entryTokens entries]

end

theorem MarksOnly.tail {k : Token} {ks : List Token} (h : MarksOnly (k :: ks)) : MarksOnly ks :=
  fun c hc => h c (.tail _ hc)

theorem MarksOnly.take {ks : List Token} (h : MarksOnly ks) (n : Nat) : MarksOnly (ks.take n) :=
  fun c hc => h c (List.mem_of_mem_take hc)

/-- No token runs over a line end. -/
theorem newline_notMem_written {k : Token} {t : List Char} (hk : k.Written t)
    (hmark : ∀ c, k = .mark c → isMark c = true) : '\n' ∉ t := by
  cases hk with
  | text h => exact (quoted_noControls h).not_mem (by decide)
  | spelled h =>
    cases h with
    | mark c =>
      have hne : '\n' ≠ c := by
        rintro rfl
        exact absurd (hmark _ rfl) (by decide)
      simpa using hne
    | word h => exact (word_noControls h).not_mem (by decide)
    | numeral h => exact (numeral_noControls h).not_mem (by decide)
    | long => exact fun hmem => absurd (intText_ascii _ _ hmem).1 (by decide)
    | ascii s => exact (quoted_noControls (stringBody_ascii _)).not_mem (by decide)
    | minimal s => exact (quoted_noControls (stringBody_minimal _)).not_mem (by decide)

end Tokens

/-- An element of two lists one behind the other stands in the first or in the second. -/
theorem append_eq_append_cons {α : Type} {a b p q : List α} {c : α} (h : a ++ b = p ++ c :: q) :
    (∃ a', a = p ++ c :: a' ∧ q = a' ++ b) ∨ ∃ p', p = a ++ p' ∧ b = p' ++ c :: q := by
  rcases List.append_eq_append_iff.mp h with ⟨p', hp, hb⟩ | ⟨a', ha, hcq⟩
  · exact .inr ⟨p', hp, hb⟩
  · cases a' with
    | nil => exact .inr ⟨[], by simpa using ha.symm, hcq.symm⟩
    | cons x a' =>
      obtain ⟨rfl, hq⟩ := List.cons.inj hcq
      exact .inl ⟨a', ha, hq⟩

/-- A newline has whole tokens in front of it and behind it. -/
theorem Spread.newline {ks : List Token} {t p q : List Char} (h : Spread ks t)
    (hmarks : MarksOnly ks) (heq : t = p ++ '\n' :: q) :
    ∃ n, Spread (ks.take n) p ∧ Spread (ks.drop n) q := by
  induction h generalizing p with
  | nil hw =>
    subst heq
    obtain ⟨hp, hq⟩ := List.forall_mem_append.mp hw
    exact ⟨0, .nil hp, .nil (List.forall_mem_cons.mp hq).2⟩
  | @cons k ks w s t hw hk ht ih =>
    rcases append_eq_append_cons heq with ⟨w', rfl, rfl⟩ | ⟨p', rfl, hrest⟩
    · obtain ⟨hp, hq⟩ := List.forall_mem_append.mp hw
      exact ⟨0, .nil hp, .cons (List.forall_mem_cons.mp hq).2 hk ht⟩
    · have hs : '\n' ∉ s := newline_notMem_written hk fun c hc => hmarks c (by simp [hc])
      rcases append_eq_append_cons hrest with ⟨s', rfl, -⟩ | ⟨p', rfl, htext⟩
      · simp at hs
      · obtain ⟨n, hp, hq⟩ := ih hmarks.tail htext
        exact ⟨n + 1, .cons hw hk hp, hq⟩

section WrittenTexts

mutual

/-- The value the decoder takes for the members of a value, of which some may share a key. -/
def Raw.merged : Raw → Raw
  | .list items => .list (mergedItems items)
  | .map entries => .map (mergeEntries [] (mergedEntries entries))
  | v => v

def mergedItems : List Raw → List Raw
  | [] => []
  | item :: items => item.merged :: mergedItems items

def mergedEntries : List (String × Raw) → List (String × Raw)
  | [] => []
  | (key, value) :: entries => (key, value.merged) :: mergedEntries entries

end

/-- The tokens are written by a text, whatever follows them. -/
def Writes (ks : List Token) (t : List Char) : Prop :=
  ∀ {more : List Token} {rest : List Char}, Spread more rest → Spread (ks ++ more) (t ++ rest)

mutual

/-- A written value has the tokens of a value that lists the same members. -/
theorem written_writes : ∀ {v : Raw} {t : List Char}, Json.Written v t →
    ∃ u : Raw, u.merged = v ∧ Writes u.tokens t
  | v, t, .word h =>
    ⟨v, by cases h <;> rfl, fun hrest => by
      have htoken := Spread.token (.spelled (.word h)) hrest
      cases h <;> exact htoken⟩
  | v, t, .numeral h =>
    ⟨v, by cases h <;> rfl, fun hrest => by
      have htoken := Spread.token (.spelled (.numeral h)) hrest
      cases h <;> exact htoken⟩
  | _, _, @Json.Written.text s body h =>
    ⟨.text (String.ofList s), rfl, fun hrest =>
      Spread.token (.text (by rwa [String.toList_ofList])) hrest⟩
  | _, _, .emptyList hw =>
    ⟨.list [], rfl, fun hrest => by
      have hlist := Spread.mark '[' blanks_nil (.mark ']' hw hrest)
      simpa [Raw.tokens] using hlist⟩
  | _, _, .list hw ht hu => by
    obtain ⟨item, hitem, hwrites⟩ := written_writes ht
    obtain ⟨items, hitems, hmore⟩ := written_items hu
    refine ⟨.list (item :: items), by rw [Raw.merged, mergedItems, hitem, hitems], fun hrest => ?_⟩
    have hlist := Spread.mark '[' blanks_nil
      ((hwrites (hmore hrest)).blanks hw)
    simpa [Raw.tokens] using hlist
  | _, _, .emptyMap hw =>
    ⟨.map [], rfl, fun hrest => by
      have hmap := Spread.mark '\x7b' blanks_nil (.mark '\x7d' hw hrest)
      simpa [Raw.tokens] using hmap⟩
  | _, _, .map hw ht hu => by
    obtain ⟨value, hvalue, hwrites⟩ := written_member ht
    obtain ⟨entries, hentries, hmore⟩ := written_members hu
    refine ⟨.map ((_, value) :: entries), by rw [Raw.merged, mergedEntries, hvalue, hentries],
      fun hrest => ?_⟩
    have hmap := Spread.mark '\x7b' blanks_nil
      ((hwrites (hmore hrest)).blanks hw)
    simpa [Raw.tokens] using hmap

theorem written_items : ∀ {vs : List Raw} {t : List Char}, MoreItems vs t →
    ∃ us : List Raw, mergedItems us = vs ∧ Writes (itemTokens us) t
  | _, _, .last hw =>
    ⟨[], rfl, fun hrest => by simpa [itemTokens] using Spread.mark ']' hw hrest⟩
  | _, _, .next hw hw' ht hu => by
    obtain ⟨item, hitem, hwrites⟩ := written_writes ht
    obtain ⟨items, hitems, hmore⟩ := written_items hu
    refine ⟨item :: items, by rw [mergedItems, hitem, hitems], fun hrest => ?_⟩
    have hnext := Spread.mark ',' hw ((hwrites (hmore hrest)).blanks hw')
    simpa [itemTokens] using hnext

theorem written_member : ∀ {m : String × Raw} {t : List Char}, Member m t →
    ∃ u : Raw, (m.1, u.merged) = m ∧ Writes (.text m.1 :: .mark ':' :: u.tokens) t
  | _, _, .mk hs hw hw' ht => by
    obtain ⟨value, hvalue, hwrites⟩ := written_writes ht
    refine ⟨value, by rw [hvalue], fun hrest => ?_⟩
    have hmember := Spread.token (.text (by rwa [String.toList_ofList]))
      (.mark ':' hw ((hwrites hrest).blanks hw'))
    simpa using hmember

theorem written_members : ∀ {ms : List (String × Raw)} {t : List Char}, MoreMembers ms t →
    ∃ us : List (String × Raw), mergedEntries us = ms ∧ Writes (entryTokens us) t
  | _, _, .last hw =>
    ⟨[], rfl, fun hrest => by simpa [entryTokens] using Spread.mark '\x7d' hw hrest⟩
  | _, _, .next hw hw' ht hu => by
    obtain ⟨value, hvalue, hwrites⟩ := written_member ht
    obtain ⟨entries, hentries, hmore⟩ := written_members hu
    refine ⟨(_, value) :: entries, by rw [mergedEntries, hvalue, hentries], fun hrest => ?_⟩
    have hnext := Spread.mark ',' hw ((hwrites (hmore hrest)).blanks hw')
    simpa [entryTokens] using hnext

end

theorem written_spread {v : Raw} {t : List Char} (h : Json.Written v t) :
    ∃ u : Raw, u.merged = v ∧ Spread u.tokens t := by
  obtain ⟨u, hu, hwrites⟩ := written_writes h
  have hspread := hwrites (.nil blanks_nil)
  rw [List.append_nil, List.append_nil] at hspread
  exact ⟨u, hu, hspread⟩

end WrittenTexts

end TerraIndex
