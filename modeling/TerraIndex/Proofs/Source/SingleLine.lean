import TerraIndex.Source.SingleLine
import TerraIndex.Proofs.Json.Refused
import TerraIndex.Proofs.Source.Pattern
/-!
# Searching a text of one line

Over a text of one line `SingleLine.search` agrees with a walk of the value, whatever white space
stands between its tokens (`search_spaced`): it goes to the values at every depth whose keys end
like the container's name behind a quote, and takes the target in the first of them that holds it.
A quote inside a key is escaped, and what follows the escape reads like the name of the container.
A value that the decoder does not read, because of the digits of an integer, holds no target.
-/

namespace TerraIndex

open Json
open Text (escapeAscii escapeMinimal quoteAscii quoteMinimal trimStart)

mutual

/-- The values under the keys that `p` accepts, at every depth, each in front of those inside it. -/
def valuesUnder (p : String → Bool) : Raw → List Raw
  | .list items => valuesUnderItems p items
  | .tuple items => valuesUnderItems p items
  | .map entries => valuesUnderEntries p entries
  | _ => []

def valuesUnderItems (p : String → Bool) : List Raw → List Raw
  | [] => []
  | item :: rest => valuesUnder p item ++ valuesUnderItems p rest

def valuesUnderEntries (p : String → Bool) : List (String × Raw) → List Raw
  | [] => []
  | (key, value) :: rest =>
    (if p key then [value] else []) ++ valuesUnder p value ++ valuesUnderEntries p rest

end

mutual

/-- Reading a document back, values stay under their keys. -/
theorem valuesUnder_readBack (p : String → Bool) : ∀ v : Raw, v.IsDocument →
    valuesUnder p v.readBack = (valuesUnder p v).map Raw.readBack
  | .float x, _ => by
    obtain ⟨y, hy, -⟩ := floatText_readFloat x
    rw [Raw.readBack, hy]
    rfl
  | .list items, h => valuesUnder_readBackItems p items h
  | .map entries, h => valuesUnder_readBackEntries p entries h.2
  | .tuple _, h => h.elim
  | .null, _ => rfl
  | .bool _, _ => rfl
  | .int _, _ => rfl
  | .text _, _ => rfl
  | .other _, _ => rfl

theorem valuesUnder_readBackItems (p : String → Bool) : ∀ items : List Raw,
    itemsAreDocuments items →
    valuesUnderItems p (readBackItems items) = (valuesUnderItems p items).map Raw.readBack
  | [], _ => rfl
  | item :: items, h => by
    rw [readBackItems, valuesUnderItems, valuesUnderItems, List.map_append,
      valuesUnder_readBack p item h.1, valuesUnder_readBackItems p items h.2]

theorem valuesUnder_readBackEntries (p : String → Bool) : ∀ entries : List (String × Raw),
    entriesAreDocuments entries →
    valuesUnderEntries p (readBackEntries entries) = (valuesUnderEntries p entries).map Raw.readBack
  | [], _ => rfl
  | (key, value) :: entries, h => by
    rw [readBackEntries, valuesUnderEntries, valuesUnderEntries, List.map_append, List.map_append,
      valuesUnder_readBack p value h.1, valuesUnder_readBackEntries p entries h.2]
    cases p key <;> rfl

end

mutual

theorem isDocument_valuesUnder (p : String → Bool) : ∀ (v : Raw) {w : Raw}, v.IsDocument →
    w ∈ valuesUnder p v → w.IsDocument
  | .list items, _, h, hw => isDocument_valuesUnderItems p items h hw
  | .tuple _, _, h, _ => h.elim
  | .map entries, _, h, hw => isDocument_valuesUnderEntries p entries h.2 hw
  | .null, _, _, hw => absurd hw List.not_mem_nil
  | .bool _, _, _, hw => absurd hw List.not_mem_nil
  | .int _, _, _, hw => absurd hw List.not_mem_nil
  | .float _, _, _, hw => absurd hw List.not_mem_nil
  | .text _, _, _, hw => absurd hw List.not_mem_nil
  | .other _, _, _, hw => absurd hw List.not_mem_nil

theorem isDocument_valuesUnderItems (p : String → Bool) : ∀ (items : List Raw) {w : Raw},
    itemsAreDocuments items → w ∈ valuesUnderItems p items → w.IsDocument
  | [], _, _, hw => absurd hw List.not_mem_nil
  | item :: items, _, h, hw => by
    rcases List.mem_append.mp hw with hw | hw
    · exact isDocument_valuesUnder p item h.1 hw
    · exact isDocument_valuesUnderItems p items h.2 hw

theorem isDocument_valuesUnderEntries (p : String → Bool) : ∀ (entries : List (String × Raw))
    {w : Raw}, entriesAreDocuments entries → w ∈ valuesUnderEntries p entries → w.IsDocument
  | [], _, _, hw => absurd hw List.not_mem_nil
  | (key, value) :: entries, w, h, hw => by
    rcases List.mem_append.mp hw with hw | hw
    · rcases List.mem_append.mp hw with hw | hw
      · split_ifs at hw
        · rw [List.mem_singleton.mp hw]
          exact h.1
        · exact absurd hw List.not_mem_nil
      · exact isDocument_valuesUnder p value h.1 hw
    · exact isDocument_valuesUnderEntries p entries h.2 hw

end

theorem findSome?_congr {α β : Type} {f g : α → Option β} : ∀ {items : List α},
    (∀ item ∈ items, f item = g item) → items.findSome? f = items.findSome? g
  | [], _ => rfl
  | item :: items, h => by
    obtain ⟨hitem, hitems⟩ := List.forall_mem_cons.mp h
    rw [List.findSome?_cons, List.findSome?_cons, hitem, findSome?_congr hitems]

/-- The key is the container's name, or ends with it behind a quote. -/
def endsLike (container key : String) : Bool :=
  ('"' :: container.toList).isSuffixOf ('"' :: key.toList)

/-- The name is written as it is, and neither white space nor a mark that follows a string begins
it. -/
structure IsName (name : String) : Prop where
  plain : ∀ c ∈ name.toList, escapeAscii c = [c]
  head : ∀ c ∈ name.toList.head?, c ∉ [':', ',', ']', '\x7d'] ∧ isBlank c = false
  ne_nil : name.toList ≠ []

section Escapes

/-- A way to write the characters of a string: a character as it is, or behind a backslash. -/
structure IsEscape (escape : Char → List Char) : Prop where
  quote : escape '"' = ['\\', '"']
  cases : ∀ c, escape c = [c] ∨ ∃ es, escape c = '\\' :: es
  plain : ∀ c, escapeAscii c = [c] → escape c = [c]
  other : ∀ c, c ≠ '"' → '"' ∉ escape c

theorem quote_notMem_unicodeEscape (n : Nat) : '"' ∉ Text.unicodeEscape n := by
  have hdigit : ∀ d < 16, Nat.digitChar d ≠ '"' := by decide
  rw [unicodeEscape_eq]
  have hmod : ∀ k, '"' ≠ Nat.digitChar (k % 16) := fun k =>
    (hdigit _ (Nat.mod_lt k (by decide))).symm
  simp [hmod]

theorem quote_notMem_shortEscape {c : Char} {e : List Char} (hc : c ≠ '"')
    (he : Text.shortEscape? c = some e) : '"' ∉ e := by
  obtain ⟨l, rfl, hl⟩ := shortEscape?_some he
  intro hmem
  have hquote : l = '"' := by simpa [eq_comm] using hmem
  rw [hquote] at hl
  exact hc (Option.some.inj hl).symm

theorem isEscape_ascii : IsEscape escapeAscii where
  quote := rfl
  cases := fun c => by
    unfold escapeAscii
    split
    · rename_i e he
      obtain ⟨l, rfl, -⟩ := shortEscape?_some he
      exact .inr ⟨_, rfl⟩
    · simp only
      split_ifs
      · exact .inl rfl
      · exact .inr ⟨_, rfl⟩
      · exact .inr ⟨_, rfl⟩
  plain := fun _ h => h
  other := fun c hc => by
    unfold escapeAscii
    split
    · exact quote_notMem_shortEscape hc ‹_›
    · simp only
      split_ifs
      · simpa using hc.symm
      · exact quote_notMem_unicodeEscape _
      · simp [quote_notMem_unicodeEscape]

theorem isEscape_minimal : IsEscape escapeMinimal where
  quote := rfl
  cases := fun c => by
    unfold escapeMinimal
    split
    · rename_i e he
      obtain ⟨l, rfl, -⟩ := shortEscape?_some he
      exact .inr ⟨_, rfl⟩
    · split_ifs
      · exact .inr ⟨_, rfl⟩
      · exact .inl rfl
  plain := fun c h => by
    unfold escapeAscii at h
    unfold escapeMinimal
    split at h
    · exact h
    · simp only at h
      split_ifs at h with hascii
      · rw [if_neg (by omega)]
      · simp [unicodeEscape_eq] at h
      · simp [unicodeEscape_eq] at h
  other := fun c hc => by
    unfold escapeMinimal
    split
    · exact quote_notMem_shortEscape hc ‹_›
    · split_ifs
      · exact quote_notMem_unicodeEscape _
      · simpa using hc.symm

end Escapes

/-- What follows a colon and the blanks around it. -/
def behindColon? (cs : List Char) : Option (List Char) :=
  match trimStart cs with
  | ':' :: rest => some (trimStart rest)
  | _ => none

theorem behindKey?_other {key : String} {c : Char} (cs : List Char) (hc : c ≠ '"') :
    behindKey? key (c :: cs) = none := by
  have hnone : dropFront? (quoteMinimal key.toList) (c :: cs) = none :=
    dropFront?_eq_none fun rest h => hc (List.cons.inj h).1
  rw [behindKey?, hnone]
  rfl

theorem dropFront?_cons_self (c : Char) (front cs : List Char) :
    dropFront? (c :: front) (c :: cs) = dropFront? front cs := by
  simp [dropFront?]

theorem dropFront?_cons_ne {c d : Char} (front cs : List Char) (h : c ≠ d) :
    dropFront? (c :: front) (d :: cs) = none :=
  dropFront?_eq_none fun _ heq => h (List.cons.inj heq).1.symm

theorem ne_of_plain {c : Char} (h : escapeAscii c = [c]) : c ≠ '"' ∧ c ≠ '\\' := by
  refine ⟨?_, ?_⟩ <;> (rintro rfl; exact absurd h (by decide))

theorem quoteMinimal_name {name : String} (hname : IsName name) :
    quoteMinimal name.toList = '"' :: (name.toList ++ ['"']) := by
  have hplain := fun c hc => isEscape_minimal.plain c (hname.plain c hc)
  rw [quoteMinimal, List.cons_append, List.flatMap_congr hplain, List.flatMap_singleton']

/-- No name begins behind the quote that closes a string. -/
theorem behindKey?_close {name : String} (hname : IsName name) {rest : List Char}
    (hrest : ∀ c ∈ rest.head?, c ∈ [':', ',', ']', '\x7d'] ∨ isBlank c = true) :
    behindKey? name ('"' :: rest) = none := by
  have hnone : dropFront? (name.toList ++ ['"']) rest = none := by
    refine dropFront?_eq_none fun more h => ?_
    obtain ⟨c, cs, hcs⟩ := List.exists_cons_of_ne_nil hname.ne_nil
    obtain ⟨hmark, hblank⟩ := hname.head c (by rw [hcs]; rfl)
    rw [hcs] at h
    rcases hrest c (by rw [h]; rfl) with hc | hc
    · exact hmark hc
    · exact absurd (hc.symm.trans hblank) (by decide)
  rw [behindKey?, quoteMinimal_name hname, dropFront?_cons_self, hnone]
  rfl

section Escapes

variable {escape : Char → List Char} (hescape : IsEscape escape)
include hescape

/-- Of the characters up to the next quote, only the name itself is taken for the name. -/
theorem dropFront?_body (rest : List Char) : ∀ (name s : List Char),
    (∀ c ∈ name, escapeAscii c = [c]) →
    dropFront? (name ++ ['"']) (s.flatMap escape ++ '"' :: rest)
      = if s = name then some rest else none
  | [], [], _ => dropFront?_append ['"'] rest
  | [], d :: s, _ => by
    rw [if_neg (List.cons_ne_nil d s), List.flatMap_cons]
    rcases hescape.cases d with hd | ⟨es, hd⟩
    · rw [hd]
      refine dropFront?_cons_ne _ _ ?_
      rintro rfl
      rw [hescape.quote] at hd
      exact absurd hd (by decide)
    · rw [hd]
      exact dropFront?_cons_ne _ _ (by decide)
  | c :: name, [], hname => by
    rw [if_neg (List.cons_ne_nil c name).symm]
    exact dropFront?_cons_ne _ _ (ne_of_plain (hname c (List.mem_cons_self ..))).1
  | c :: name, d :: s, hname => by
    obtain ⟨hc, hrest⟩ := List.forall_mem_cons.mp hname
    have ih := dropFront?_body rest name s hrest
    rw [List.flatMap_cons]
    rcases hescape.cases d with hd | ⟨es, hd⟩
    · rw [hd]
      by_cases heq : d = c
      · rw [heq]
        simpa [dropFront?_cons_self] using ih
      · rw [if_neg fun h => heq (List.cons.inj h).1]
        exact dropFront?_cons_ne _ _ (Ne.symm heq)
    · have hne : c ≠ '\\' := (ne_of_plain hc).2
      have hdc : d ≠ c := by
        rintro rfl
        rw [hescape.plain d hc] at hd
        exact hne (List.cons.inj hd).1
      rw [hd, if_neg fun h => hdc (List.cons.inj h).1]
      exact dropFront?_cons_ne _ _ hne

/-- Behind a quote of a string, the name is found where it alone is left of the string. -/
theorem behindKey?_quote {name : String} (hname : IsName name) (s rest : List Char) :
    behindKey? name ('"' :: (s.flatMap escape ++ '"' :: rest))
      = if s = name.toList then behindColon? rest else none := by
  rw [behindKey?, quoteMinimal_name hname, dropFront?_cons_self,
    dropFront?_body hescape rest _ s hname.plain]
  split_ifs with h
  · unfold behindColon?
    rw [Option.map_some]
    split <;> split <;> simp_all
  · rfl

end Escapes

namespace SingleLine

variable (line : SingleLine)

section Search

theorem length_trimStart (cs : List Char) : (trimStart cs).length ≤ cs.length :=
  (List.dropWhile_sublist _).length_le

theorem length_behindKey? {key : String} {cs rest : List Char} (h : behindKey? key cs = some rest) :
    rest.length < cs.length := by
  unfold behindKey? at h
  split at h
  · rename_i colon htrim
    obtain ⟨behind, hfront, hcolon⟩ := Option.map_eq_some_iff.mp htrim
    have hbehind : behind.length ≤ cs.length := by
      unfold dropFront? at hfront
      split_ifs at hfront
      rw [← Option.some.inj hfront, List.length_drop]
      exact Nat.sub_le _ _
    have htrimmed := length_trimStart behind
    have hrest := length_trimStart colon
    rw [hcolon, List.length_cons] at htrimmed
    rw [← Option.some.inj h]
    omega
  · exact absurd h (by simp)

theorem search_nil : ∀ fuel : Nat, line.search fuel [] = none
  | 0 => rfl
  | fuel + 1 => by
    have hnone : behindKey? line.container [] = none := rfl
    rw [search, hnone]
    exact search_nil fuel

/-- As much fuel as there are characters is enough. -/
theorem search_fuel : ∀ (fuel more : Nat) (text : List Char), text.length ≤ fuel →
    text.length ≤ more → line.search fuel text = line.search more text
  | fuel, more, [], _, _ => by rw [search_nil, search_nil]
  | fuel + 1, more + 1, c :: text, hfuel, hmore => by
    rw [List.length_cons] at hfuel hmore
    unfold search
    split
    · rename_i rest hbehind
      have hlength := length_behindKey? hbehind
      rw [List.length_cons] at hlength
      rw [search_fuel fuel more rest (by omega) (by omega)]
    · exact search_fuel fuel more text (by omega) (by omega)

/-- The target in the first value that holds it. -/
def found (text : List Char) : Option Raw := line.search text.length text

theorem found_none {c : Char} {cs : List Char} (h : behindKey? line.container (c :: cs) = none) :
    line.found (c :: cs) = line.found cs := by
  rw [found, List.length_cons, search, h]
  rfl

theorem found_some {text rest : List Char} (h : behindKey? line.container text = some rest) :
    line.found text = (line.inFirst? rest).or (line.found rest) := by
  have hlength := length_behindKey? h
  obtain ⟨fuel, hfuel⟩ := Nat.exists_eq_add_of_lt hlength
  rw [found, found, hfuel, search, h]
  simp only
  cases line.inFirst? rest with
  | some value => rfl
  | none => exact line.search_fuel _ _ rest (Nat.le_add_right _ _) (Nat.le_refl _)

/-- Where no string begins or ends, no key is found. -/
theorem found_plain {t : List Char} (rest : List Char) (ht : '"' ∉ t) :
    line.found (t ++ rest) = line.found rest := by
  induction t with
  | nil => rfl
  | cons c t ih =>
    rw [List.mem_cons, not_or] at ht
    rw [List.cons_append, found_none _ (behindKey?_other _ (Ne.symm ht.1)), ih ht.2]

/-- The target in a value that is read back from its text. -/
def holding (v : Raw) : Option Raw := line.target.select? v.readBack

/-- The target in a value, if the decoder reads that. -/
def inValue? (v : Raw) : Option Raw := if v.IsDocument then line.target.select? v else none

end Search

section Strings

/-- Behind a string that ends like the name, the value behind a colon is looked into. -/
def foundBehind (rest : List Char) : Option Raw :=
  match behindColon? rest with
  | some behind => (line.inFirst? behind).or (line.found behind)
  | none => line.found rest

theorem foundBehind_some {rest behind : List Char} (h : behindColon? rest = some behind) :
    line.foundBehind rest = (line.inFirst? behind).or (line.found behind) := by
  rw [foundBehind, h]

theorem foundBehind_none {rest : List Char} (h : behindColon? rest = none) :
    line.foundBehind rest = line.found rest := by
  rw [foundBehind, h]

section Strings

variable {line} (hname : IsName line.container)
include hname

section Escapes

variable {escape : Char → List Char} (hescape : IsEscape escape)
include hescape

theorem found_quote {s rest : List Char}
    (h : line.found (s.flatMap escape ++ '"' :: rest)
      = if ('"' :: line.container.toList) <:+ s then line.foundBehind rest else line.found rest) :
    line.found ('"' :: (s.flatMap escape ++ '"' :: rest))
      = if ('"' :: line.container.toList) <:+ '"' :: s then line.foundBehind rest
        else line.found rest := by
  have hkey := behindKey?_quote hescape hname s rest
  by_cases hs : s = line.container.toList
  · rw [if_pos hs] at hkey
    rw [if_pos (hs ▸ List.suffix_refl _)]
    cases hcolon : behindColon? rest with
    | some behind => rw [line.found_some (hkey.trans hcolon), line.foundBehind_some hcolon]
    | none =>
      have hlong : ¬ ('"' :: line.container.toList) <:+ s := fun hsuffix => by
        have := hsuffix.length_le
        rw [hs, List.length_cons] at this
        omega
      rw [line.found_none (hkey.trans hcolon), line.foundBehind_none hcolon, h, if_neg hlong]
  · rw [if_neg hs] at hkey
    have hsuffix : ('"' :: line.container.toList) <:+ '"' :: s
        ↔ ('"' :: line.container.toList) <:+ s := by
      rw [List.suffix_cons_iff, List.cons.injEq]
      simp [Ne.symm hs]
    rw [line.found_none hkey, h]
    simp only [hsuffix]

theorem found_body {rest : List Char}
    (hrest : ∀ c ∈ rest.head?, c ∈ [':', ',', ']', '\x7d'] ∨ isBlank c = true) :
    ∀ s : List Char, line.found (s.flatMap escape ++ '"' :: rest)
      = if ('"' :: line.container.toList) <:+ s then line.foundBehind rest else line.found rest
  | [] => by
    rw [if_neg (by simp)]
    exact line.found_none (behindKey?_close hname hrest)
  | c :: s => by
    have ih := found_body hrest s
    rw [List.flatMap_cons]
    by_cases hc : c = '"'
    · rw [hc, hescape.quote]
      exact (line.found_none (behindKey?_other _ (by decide))).trans
        (found_quote hname hescape ih)
    · have hsuffix : ('"' :: line.container.toList) <:+ c :: s
          ↔ ('"' :: line.container.toList) <:+ s := by
        rw [List.suffix_cons_iff, List.cons.injEq]
        simp [Ne.symm hc]
      rw [List.append_assoc, line.found_plain _ (hescape.other c hc), ih]
      simp only [hsuffix]

theorem found_escaped {rest : List Char}
    (hrest : ∀ c ∈ rest.head?, c ∈ [':', ',', ']', '\x7d'] ∨ isBlank c = true) (s : String) :
    line.found ('"' :: (s.toList.flatMap escape ++ '"' :: rest))
      = if endsLike line.container s then line.foundBehind rest else line.found rest := by
  have hends : endsLike line.container s = true
      ↔ ('"' :: line.container.toList) <:+ '"' :: s.toList := List.isSuffixOf_iff_suffix
  simp only [hends]
  exact found_quote hname hescape (found_body hname hescape hrest s.toList)

end Escapes

/-- A string is passed over unless it ends like the name. -/
theorem found_string {rest q : List Char} {s : String} (hq : (Token.text s).Spelled q)
    (hrest : ∀ c ∈ rest.head?, c ∈ [':', ',', ']', '\x7d'] ∨ isBlank c = true) :
    line.found (q ++ rest)
      = if endsLike line.container s then line.foundBehind rest else line.found rest := by
  rcases hq.text_cases with rfl | rfl
  · rw [← found_escaped hname isEscape_ascii hrest]
    simp [quoteAscii]
  · rw [← found_escaped hname isEscape_minimal hrest]
    simp [quoteMinimal]

end Strings

end Strings

theorem behindColon?_follows {ks : List Token} {rest : List Char} (hks : Follows ks)
    (h : Spaced ks rest) : behindColon? rest = none := by
  cases h with
  | nil hw =>
    unfold behindColon?
    rw [Text.trimStart_of_blank fun c hc => isBlank_text (hw c hc).1]
  | @cons k ks w s t hw hk ht =>
    obtain ⟨c, hc, rfl⟩ := hks k rfl
    cases hk
    obtain ⟨hblank, hcolon⟩ := (by decide : ∀ c ∈ [',', ']', '\x7d'],
      Text.isBlank c = false ∧ c ≠ ':') c hc
    unfold behindColon?
    rw [Text.trimStart_append _ fun c hc => isBlank_text (hw c hc).1, List.singleton_append,
      Text.trimStart_cons _ hblank]
    simp [hcolon]

theorem behindColon?_begins {w w' t : List Char} (hw : Spaces w) (hw' : Spaces w')
    (ht : Begins t) : behindColon? (w ++ ':' :: (w' ++ t)) = some t := by
  obtain ⟨c, cs, rfl, hc, -⟩ := ht
  unfold behindColon?
  rw [Text.trimStart_append _ fun c hc => isBlank_text (hw c hc).1,
    Text.trimStart_cons _ (by decide)]
  simp only
  rw [Text.trimStart_append _ fun c hc => isBlank_text (hw' c hc).1, Text.trimStart_cons _ hc]

/-- In front of the tokens of a value, the target in that value is found if the decoder reads it. -/
theorem inFirst?_spaced {v : Raw} {ks : List Token} {t : List Char} (hjson : v.IsJson)
    (hks : Follows ks) (h : Spaced (v.tokens ++ ks) t) :
    ∃ w s, t = w ++ s ∧ Spaces w ∧ Begins s ∧ line.inFirst? s = line.inValue? v := by
  obtain ⟨w, s, rest, rfl, hw, hs, -, hfirst⟩ := decodeFirst_spaced hjson hks h
  refine ⟨w, s, rfl, hw, hs, ?_⟩
  unfold inFirst? inValue?
  split_ifs at hfirst ⊢ with hdoc
  · rw [hfirst]
  · obtain ⟨halt, hhalt⟩ := hfirst
    rw [hhalt]

/-- Over the text of some tokens the search looks into the values, and then it goes on. -/
def Visits (vs : List Raw) (ks : List Token) (t : List Char) : Prop :=
  ∃ rest, Spaced ks rest
    ∧ line.found t = (vs.findSome? line.inValue?).or (line.found rest)

variable {line}

theorem Visits.append {vs ws : List Raw} {ks ls : List Token} {t : List Char}
    (h : line.Visits vs ks t) (h' : ∀ rest, Spaced ks rest → line.Visits ws ls rest) :
    line.Visits (vs ++ ws) ls t := by
  obtain ⟨mid, hmid, hfound⟩ := h
  obtain ⟨rest, hrest, hfound'⟩ := h' mid hmid
  exact ⟨rest, hrest, by rw [hfound, hfound', List.findSome?_append, Option.or_assoc]⟩

theorem visits_plain {ks : List Token} {w s rest : List Char} (hw : Spaces w) (hs : '"' ∉ s)
    (h : Spaced ks rest) : line.Visits [] ks (w ++ (s ++ rest)) := by
  have hblank : '"' ∉ w := fun hmem => absurd (hw _ hmem).1 (by decide)
  exact ⟨rest, h, by rw [line.found_plain _ hblank, line.found_plain _ hs]; rfl⟩

theorem visits_mark {c : Char} {ks : List Token} {t : List Char} (h : Spaced (.mark c :: ks) t)
    (hc : c ≠ '"') : line.Visits [] ks t := by
  obtain ⟨w, rest, rfl, hw, hrest⟩ := h.of_mark
  exact visits_plain (s := [c]) hw (by simpa using hc.symm) hrest

theorem visits_leaf {v : Raw} {ks : List Token} {t : List Char} (h : Spaced (.leaf v :: ks) t) :
    line.Visits [] ks t := by
  cases h with
  | cons hw hk ht =>
    refine visits_plain hw ?_ ht
    cases hk with
    | word hs => cases hs <;> decide
    | numeral hs => exact fun hmem => absurd (numeral_chars hs '"' hmem) (by decide)
    | long => exact intText_not_mem _ (by decide) (by decide)

section Values

variable (hname : IsName line.container)
include hname

theorem visits_text {s : String} {ks : List Token} {t : List Char} (hks : Follows ks)
    (h : Spaced (.text s :: ks) t) : line.Visits [] ks t := by
  cases h with
  | @cons _ _ w q rest hw hq hrest =>
    have hblank : '"' ∉ w := fun hmem => absurd (hw _ hmem).1 (by decide)
    have hmarks := fun c hc => (hks.head hrest c hc).imp_left (List.mem_cons_of_mem ':')
    refine ⟨rest, hrest, ?_⟩
    rw [line.found_plain _ hblank, found_string hname hq hmarks,
      line.foundBehind_none (behindColon?_follows hks hrest), ite_self]
    rfl

/-- Behind a key that ends like the name, its value is looked into. -/
theorem visits_key {key : String} {value : Raw} {ks : List Token} {t : List Char}
    (hjson : value.IsJson) (hks : Follows ks)
    (h : Spaced (.text key :: .mark ':' :: (value.tokens ++ ks)) t) :
    line.Visits (if endsLike line.container key then [value] else []) (value.tokens ++ ks) t := by
  obtain ⟨w, q, w', rest, rfl, hw, hq, hw', hrest⟩ := h.of_key
  have hblank : ∀ {w : List Char}, Spaces w → '"' ∉ w := fun hw hmem =>
    absurd (hw _ hmem).1 (by decide)
  have hmarks : ∀ c ∈ (w' ++ ':' :: rest).head?, c ∈ [':', ',', ']', '\x7d'] ∨ isBlank c = true :=
    (leads_mark _ List.mem_cons_self).head (.cons hw' (.mark ':') hrest)
  refine ⟨rest, hrest, ?_⟩
  rw [line.found_plain _ (hblank hw), found_string hname hq hmarks]
  split_ifs with hends
  · obtain ⟨w₂, s, rfl, hw₂, hs, hfirst⟩ := inFirst?_spaced line hjson hks hrest
    rw [line.foundBehind_some (behindColon?_begins hw' hw₂ hs), hfirst,
      line.found_plain _ (hblank hw₂)]
    simp
  · have hcolon := line.found_plain (t := [':']) rest (by decide)
    rw [line.found_plain _ (hblank hw')]
    exact hcolon

omit hname

mutual

/-- Over the text of a value the search looks into those under its keys. -/
theorem visits_value (hname : IsName line.container) :
    ∀ (v : Raw) {ks : List Token} {t : List Char}, v.IsJson → Follows ks →
    Spaced (v.tokens ++ ks) t →
    line.Visits (valuesUnder (endsLike line.container) v) ks t
  | .null, _, _, _, _, h => visits_leaf h
  | .bool _, _, _, _, _, h => visits_leaf h
  | .int _, _, _, _, _, h => visits_leaf h
  | .float _, _, _, _, _, h => visits_leaf h
  | .text _, _, _, _, hks, h => visits_text hname hks h
  | .tuple _, _, _, hjson, _, _ => hjson.elim
  | .other _, _, _, hjson, _, _ => hjson.elim
  | .list [], _, _, _, _, h =>
    (visits_mark h (by decide)).append fun _ h => visits_mark h (by decide)
  | .list (item :: items), ks, _, hjson, _, h => by
    rw [Raw.tokens, List.cons_append, List.append_assoc] at h
    exact (visits_mark h (by decide)).append fun _ h =>
      (visits_value hname item hjson.1 (follows_items items ks) h).append fun _ h =>
        visits_items hname items hjson.2 h
  | .map [], _, _, _, _, h =>
    (visits_mark h (by decide)).append fun _ h => visits_mark h (by decide)
  | .map ((key, value) :: entries), ks, _, hjson, _, h => by
    have hfollows := follows_entries entries ks
    rw [Raw.tokens, List.cons_append, List.cons_append, List.cons_append, List.append_assoc] at h
    exact (visits_mark h (by decide)).append fun _ h =>
      ((visits_key hname hjson.2.1 hfollows h).append fun _ h =>
        visits_value hname value hjson.2.1 hfollows h).append fun _ h =>
          visits_entries hname entries hjson.2.2 h

theorem visits_items (hname : IsName line.container) :
    ∀ (items : List Raw) {ks : List Token} {t : List Char},
    itemsAreJson items → Spaced (itemTokens items ++ ks) t →
    line.Visits (valuesUnderItems (endsLike line.container) items) ks t
  | [], _, _, _, h => visits_mark h (by decide)
  | item :: items, ks, _, hjson, h => by
    rw [itemTokens, List.cons_append, List.append_assoc] at h
    exact (visits_mark h (by decide)).append fun _ h =>
      (visits_value hname item hjson.1 (follows_items items ks) h).append fun _ h =>
        visits_items hname items hjson.2 h

theorem visits_entries (hname : IsName line.container) :
    ∀ (entries : List (String × Raw)) {ks : List Token} {t : List Char},
    entriesAreJson entries → Spaced (entryTokens entries ++ ks) t →
    line.Visits (valuesUnderEntries (endsLike line.container) entries) ks t
  | [], _, _, _, h => visits_mark h (by decide)
  | (key, value) :: entries, ks, _, hjson, h => by
    have hfollows := follows_entries entries ks
    rw [entryTokens, List.cons_append, List.cons_append, List.cons_append, List.append_assoc] at h
    exact (visits_mark h (by decide)).append fun _ h =>
      ((visits_key hname hjson.1 hfollows h).append fun _ h =>
        visits_value hname value hjson.1 hfollows h).append fun _ h =>
          visits_entries hname entries hjson.2 h

end

include hname

/-- Over the text of a value, the target is that of the first value that holds it, of all those
under a key that ends like the container's name and that the decoder reads. -/
theorem search_spaced {v : Raw} {t : List Char} (hjson : v.IsJson) (h : Spaced v.tokens t) :
    line.search t.length t
      = (valuesUnder (endsLike line.container) v).findSome? line.inValue? := by
  rw [← List.append_nil v.tokens] at h
  obtain ⟨rest, hrest, hfound⟩ := visits_value hname v hjson (show Follows [] from nofun) h
  cases hrest with
  | nil hw =>
    have hblank : '"' ∉ rest := fun hmem => absurd (hw _ hmem).1 (by decide)
    have hend := line.found_plain [] hblank
    rw [List.append_nil] at hend
    rw [found, hend, show line.found [] = none from rfl, Option.or_none] at hfound
    exact hfound

/-- Over the text that `Style.line` writes for a document, the target is that of the first value
that holds it as it is read back. -/
theorem search_line {v : Raw} (hdoc : v.IsDocument) :
    line.search (Style.line.encode v).length (Style.line.encode v)
      = (valuesUnder (endsLike line.container) v).findSome? line.holding := by
  have hspaced := Style.spaced_line v hdoc.isJson (.nil (by decide : Spaces []))
  rw [List.append_nil, List.append_nil] at hspaced
  rw [search_spaced hname (isDocument_readBack v hdoc).isJson hspaced,
    valuesUnder_readBack _ v hdoc, List.findSome?_map]
  refine findSome?_congr fun w hw => ?_
  exact if_pos (isDocument_readBack w (isDocument_valuesUnder _ v hdoc hw))

end Values

end SingleLine

end TerraIndex
