import TerraIndex.Proofs.Document.Decoded
/-!
# Numbers that are not decoded

Every fault of the decoder but one is a fault of syntax. Where it stops at an integer with too many
digits, the text holds so many digits in a row (`longNumber_of_decode`): what a scanning function
leaves is a suffix of the text it is given (`Scans`), so the digits it stops at stand in the text.
-/

namespace TerraIndex.Json

/-- More digits in a row than an integer may have. -/
def HasLongNumber (text : List Char) : Prop :=
  ∃ front digits rest, text = front ++ (digits ++ rest) ∧ Digits digits
    ∧ maxIntegerDigits < digits.length

theorem HasLongNumber.of_suffix {cs text : List Char} (h : HasLongNumber cs) (hcs : cs <:+ text) :
    HasLongNumber text := by
  obtain ⟨front, digits, rest, rfl, hdigits, hlong⟩ := h
  obtain ⟨before, rfl⟩ := hcs
  exact ⟨before ++ front, digits, rest, by rw [List.append_assoc], hdigits, hlong⟩

/-- A scan leaves a suffix of the text, or it stops at a fault of syntax or a long number. -/
def Scans {α : Type} (cs : List Char) : Except Halt (α × List Char) → Prop
  | .ok found => found.2 <:+ cs
  | .error halt => halt.problem.isSyntax = true ∨ HasLongNumber cs

section Scans

variable {α β : Type} {cs text : List Char}

theorem Scans.of_suffix {result : Except Halt (α × List Char)} (h : Scans cs result)
    (hcs : cs <:+ text) : Scans text result := by
  cases result with
  | ok found => exact List.IsSuffix.trans h hcs
  | error halt => exact h.imp_right fun hlong => hlong.of_suffix hcs

theorem Scans.bind {first : Except Halt (α × List Char)}
    {next : α × List Char → Except Halt (β × List Char)} (h : Scans cs first)
    (hnext : ∀ a rest, Scans rest (next (a, rest))) : Scans cs (first >>= next) := by
  cases first with
  | ok found => exact (hnext found.1 found.2).of_suffix h
  | error halt => exact h

/-- What is made of the value makes no difference. -/
theorem Scans.map {first : Except Halt (α × List Char)} (f : α → β) (h : Scans cs first) :
    Scans cs (first >>= fun (a, left) => pure (f a, left)) :=
  h.bind fun _ left => List.suffix_refl left

theorem Scans.fault {halt : Halt} (h : halt.problem.isSyntax = true) :
    Scans cs (.error halt : Except Halt (α × List Char)) := .inl h

theorem skipBlanks_suffix (cs : List Char) : skipBlanks cs <:+ cs := List.dropWhile_suffix _

/-- What is left when a character was read behind white space. -/
theorem suffix_of_skipBlanks {c : Char} {left : List Char} (h : skipBlanks cs = c :: left) :
    left <:+ cs := (List.suffix_cons c left).trans (h ▸ skipBlanks_suffix cs)

end Scans

section Tokens

theorem scans_string (opening cs : List Char) : Scans cs (scanString opening cs) := by
  fun_induction scanString opening cs with
  | case2 rest => exact List.suffix_cons _ _
  -- two units of a pair
  | case6 _ _ _ _ _ _ _ _ _ _ _ _ _ _ _ _ ih =>
    exact (ih.map _).of_suffix ⟨[_, _, _, _, _, _, _, _, _, _, _, _], rfl⟩
  -- one unit, in front of another one or of anything else
  | case7 _ _ _ _ _ _ _ _ _ _ _ _ _ _ _ _ ih =>
    exact (ih.map _).of_suffix ⟨[_, _, _, _, _, _], rfl⟩
  | case8 _ _ _ _ _ _ _ _ _ _ _ _ _ ih => exact (ih.map _).of_suffix ⟨[_, _, _, _, _, _], rfl⟩
  | case9 _ _ _ _ _ _ _ _ _ ih => exact (ih.map _).of_suffix ⟨[_, _, _, _, _, _], rfl⟩
  | case12 _ _ _ _ _ _ ih => exact (ih.map _).of_suffix ⟨[_, _], rfl⟩
  | case14 _ _ _ _ _ _ _ ih => exact (ih.map _).of_suffix ⟨[_], rfl⟩
  | _ => exact .fault rfl

theorem scanInteger?_spec {cs whole rest : List Char} (h : scanInteger? cs = some (whole, rest)) :
    cs = whole ++ rest ∧ Digits whole := by
  unfold scanInteger? at h
  split at h
  · cases h
    exact ⟨rfl, by decide⟩
  · simp only [spanDigits] at h
    obtain ⟨rfl, rfl⟩ := Prod.mk.inj (Option.some.inj (Option.ite_none_left_eq_some.mp h).2)
    exact ⟨List.takeWhile_append_dropWhile.symm, fun c hc => List.mem_takeWhile_imp hc⟩

/-- Where there are no digits, the whole text is left. -/
theorem snd_ite_suffix {α : Type} {p : Prop} [Decidable p] {a b : α} {cs left : List Char}
    (h : left <:+ cs) : (if p then (a, cs) else (b, left)).2 <:+ cs := by
  by_cases hp : p
  · rw [if_pos hp]
  · rwa [if_neg hp]

theorem scanFraction_suffix (cs : List Char) : (scanFraction cs).2 <:+ cs := by
  unfold scanFraction
  split
  · exact snd_ite_suffix ((List.dropWhile_suffix _).trans (List.suffix_cons _ _))
  · exact List.suffix_refl _

theorem scanExponent_suffix (cs : List Char) : (scanExponent cs).2 <:+ cs := by
  have hsigned : ∀ (mark sign : Char) (rest : List Char),
      rest.dropWhile Char.isDigit <:+ mark :: sign :: rest := fun mark sign rest =>
    (List.dropWhile_suffix _).trans ⟨[mark, sign], rfl⟩
  have hunsigned : ∀ (mark : Char) (rest : List Char),
      rest.dropWhile Char.isDigit <:+ mark :: rest := fun mark rest =>
    (List.dropWhile_suffix _).trans (List.suffix_cons mark rest)
  unfold scanExponent
  simp only [spanDigits]
  split
  · split
    · exact snd_ite_suffix (hsigned _ _ _)
    · exact snd_ite_suffix (hsigned _ _ _)
    · exact snd_ite_suffix (hunsigned _ _)
  · split
    · exact snd_ite_suffix (hsigned _ _ _)
    · exact snd_ite_suffix (hsigned _ _ _)
    · exact snd_ite_suffix (hunsigned _ _)
  · exact List.suffix_refl _

theorem scans_unsigned (start : List Char) (negative : Bool) (cs : List Char) :
    Scans cs (scanUnsigned start negative cs) := by
  unfold scanUnsigned
  split
  · exact .fault rfl
  · rename_i whole rest hwhole
    obtain ⟨rfl, hdigits⟩ := scanInteger?_spec hwhole
    have hfraction := scanFraction_suffix rest
    have hexponent := scanExponent_suffix (scanFraction rest).2
    have hleft : (scanExponent (scanFraction rest).2).2 <:+ whole ++ rest :=
      (hexponent.trans hfraction).trans (List.suffix_append _ _)
    simp only
    split
    · split
      · rename_i hlong
        exact .inr ⟨[], whole, rest, rfl, hdigits, hlong⟩
      · exact hleft
    · exact hleft

theorem scans_number (cs : List Char) : Scans cs (scanNumber cs) := by
  unfold scanNumber
  split
  · exact (scans_unsigned _ _ _).of_suffix (List.suffix_cons _ _)
  · exact scans_unsigned _ _ _

theorem scanWord?_suffix {cs rest : List Char} {v : Raw} (h : scanWord? cs = some (v, rest)) :
    rest <:+ cs := by
  obtain ⟨⟨word, value⟩, -, h⟩ := List.exists_of_findSome?_eq_some h
  simp only at h
  split_ifs at h
  obtain ⟨-, rfl⟩ := Prod.mk.inj (Option.some.inj h)
  exact List.drop_suffix _ _

end Tokens

section Values

mutual

theorem scans_value : ∀ (fuel : Nat) (cs : List Char), Scans cs (scanValue fuel cs)
  | 0, _ => .fault rfl
  | fuel + 1, cs => by
    unfold scanValue
    split
    · exact ((scans_string _ _).map fun s => Raw.text (String.ofList s)).of_suffix
        (List.suffix_cons _ _)
    · refine Scans.of_suffix ?_ (List.suffix_cons _ _)
      split
      · rename_i hskip
        exact suffix_of_skipBlanks hskip
      · exact ((scans_items fuel _).map Raw.list).of_suffix (skipBlanks_suffix _)
    · refine Scans.of_suffix ?_ (List.suffix_cons _ _)
      split
      · rename_i hskip
        exact suffix_of_skipBlanks hskip
      · exact ((scans_members fuel [] _).map Raw.map).of_suffix (skipBlanks_suffix _)
    · split
      · rename_i found hfound
        exact scanWord?_suffix hfound
      · exact scans_number cs

theorem scans_items : ∀ (fuel : Nat) (cs : List Char), Scans cs (scanItems fuel cs)
  | 0, _ => .fault rfl
  | fuel + 1, cs => by
    rw [scanItems]
    refine (scans_value fuel cs).bind fun item rest => ?_
    simp only
    split
    · rename_i hskip
      exact suffix_of_skipBlanks hskip
    · rename_i hskip
      exact (((scans_items fuel _).map (item :: ·)).of_suffix (skipBlanks_suffix _)).of_suffix
        (suffix_of_skipBlanks hskip)
    · exact .fault rfl

theorem scans_members : ∀ (fuel : Nat) (entries : List (String × Raw)) (cs : List Char),
    Scans cs (scanMembers fuel entries cs)
  | 0, _, _ => .fault rfl
  | fuel + 1, entries, cs => by
    unfold scanMembers
    split
    · refine ((scans_string _ _).bind fun key rest => ?_).of_suffix (List.suffix_cons _ _)
      simp only
      split
      · rename_i hcolon
        refine Scans.of_suffix ?_ (suffix_of_skipBlanks hcolon)
        refine ((scans_value fuel _).bind fun value rest => ?_).of_suffix (skipBlanks_suffix _)
        simp only
        split
        · rename_i hskip
          exact suffix_of_skipBlanks hskip
        · rename_i hskip
          exact ((scans_members fuel _ _).of_suffix (skipBlanks_suffix _)).of_suffix
            (suffix_of_skipBlanks hskip)
        · exact .fault rfl
      · exact .fault rfl
    · exact .fault rfl

end

/-- Where the decoder does not stop at a fault of syntax, it stops at a long number. -/
theorem longNumber_of_decode {text : List Char} {fault : Fault} (h : decode text = .error fault)
    (hproblem : fault.problem.isSyntax = false) : HasLongNumber text := by
  have hscans : Scans text (decodeFirst (skipBlanks text)) :=
    (scans_value _ _).of_suffix (skipBlanks_suffix text)
  unfold decode at h
  cases hwhole : decodeWhole text with
  | ok value =>
    rw [hwhole] at h
    cases h
  | error halt =>
    rw [hwhole] at h
    cases h
    have hhalt : halt.problem.isSyntax = false := hproblem
    unfold decodeWhole at hwhole
    split at hwhole
    · cases hwhole
      cases hhalt
    · cases hfirst : decodeFirst (skipBlanks text) with
      | error other =>
        rw [hfirst] at hwhole hscans
        cases hwhole
        exact hscans.resolve_left (by rw [hhalt]; decide)
      | ok found =>
        rw [hfirst] at hwhole
        simp only [ok_bind] at hwhole
        split at hwhole
        · cases hwhole
        · cases hwhole
          cases hhalt

end Values

end TerraIndex.Json
