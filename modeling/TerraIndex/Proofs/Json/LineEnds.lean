import TerraIndex.Proofs.Json.Reading
import TerraIndex.Proofs.Text.Lines
/-!
# Carriage returns in written JSON

A written text stays one for the same value when the carriage returns at the ends of its lines are
dropped (`written_dropReturns`): a string holds none, and between tokens they are white space.
-/

namespace TerraIndex.Json

open Text (dropReturns dropReturns_append dropReturns_cons dropReturns_of_not_mem)

section Tokens

def NoControls (t : List Char) : Prop := ∀ c ∈ t, 0x20 ≤ c.toNat

instance (t : List Char) : Decidable (NoControls t) := decidableForallMem _ t

theorem NoControls.not_mem {t : List Char} (h : NoControls t) {c : Char} (hc : c.toNat < 0x20) :
    c ∉ t := fun hmem => absurd (h c hmem) (by omega)

theorem noControls_append {t u : List Char} (ht : NoControls t) (hu : NoControls u) :
    NoControls (t ++ u) := fun c hc => (List.mem_append.mp hc).elim (ht c) (hu c)

theorem noControls_cons {c : Char} {t : List Char} (hc : 0x20 ≤ c.toNat) (ht : NoControls t) :
    NoControls (c :: t) := noControls_append (t := [c]) (by simpa [NoControls] using hc) ht

theorem hexValue?_noControl {c : Char} (h : (hexValue? c).isSome) : 0x20 ≤ c.toNat := by
  by_contra hc
  simp only [hexValue?] at h
  split_ifs at h <;> first | omega | simp at h

theorem letterEscape?_noControl {e c : Char} (h : letterEscape? e = some c) :
    0x20 ≤ e.toNat := by
  unfold letterEscape? at h
  split at h <;> first | decide | simp at h

theorem unit?_noControls {a b c d : Char} {n : Nat} (h : unit? a b c d = some n) :
    NoControls ['\\', 'u', a, b, c, d] := by
  obtain ⟨ha, hb, hc, hd⟩ := isSome_of_unit? h
  simp only [NoControls, List.forall_mem_cons]
  exact ⟨by decide, by decide, hexValue?_noControl ha, hexValue?_noControl hb,
    hexValue?_noControl hc, hexValue?_noControl hd, by simp⟩

theorem stringBody_noControls {s t : List Char} (h : StringBody s t) : NoControls t := by
  induction h with
  | nil => decide
  | plain _ _ hc _ ih => exact noControls_cons hc ih
  | letter he _ ih =>
    exact noControls_cons (by decide) (noControls_cons (letterEscape?_noControl he) ih)
  | unit hu _ _ ih => exact noControls_append (unit?_noControls hu) ih
  | pair hu _ hu' _ _ ih =>
    exact noControls_append (unit?_noControls hu) (noControls_append (unit?_noControls hu') ih)

theorem quoted_noControls {s t : List Char} (h : StringBody s t) :
    NoControls ('"' :: (t ++ ['"'])) :=
  noControls_cons (by decide)
    (noControls_append (stringBody_noControls h) (noControls_cons (by decide) (by decide)))

theorem digits_noControls {cs : List Char} (h : Digits cs) : NoControls cs := by
  intro c hc
  have := h c hc
  simp only [Char.isDigit, Bool.and_eq_true, decide_eq_true_eq, ge_iff_le] at this
  have h48 : (48 : Nat) ≤ c.toNat := this.1
  omega

theorem minusText_noControls (negative : Bool) : NoControls (minusText negative) := by
  cases negative <;> simp [minusText, NoControls]

/-- A number is digits, signs, a point and an exponent mark. -/
theorem numeral_chars {v : Raw} {t : List Char} (h : Numeral v t) :
    ∀ c ∈ t, c.isDigit = true ∨ c ∈ ['-', '+', '.', 'e', 'E'] := by
  have hdigits : ∀ {cs : List Char}, Digits cs →
      ∀ c ∈ cs, c.isDigit = true ∨ c ∈ ['-', '+', '.', 'e', 'E'] := fun hd c hc => .inl (hd c hc)
  have hminus : ∀ negative, ∀ c ∈ minusText negative,
      c.isDigit = true ∨ c ∈ ['-', '+', '.', 'e', 'E'] := by decide
  have hwhole : ∀ {cs : List Char}, Whole cs → Digits cs := by
    intro cs hw
    cases hw with
    | zero => decide
    | digits _ hd => exact hd
  cases h with
  | int negative hw _ =>
    exact List.forall_mem_append.mpr ⟨hminus negative, hdigits (hwhole hw)⟩
  | float negative hw hf hx _ =>
    refine List.forall_mem_append.mpr ⟨hminus negative, List.forall_mem_append.mpr
      ⟨hdigits (hwhole hw), List.forall_mem_append.mpr ⟨?_, ?_⟩⟩⟩
    · cases hf with
      | none => exact nofun
      | some _ hd => exact List.forall_mem_cons.mpr ⟨by decide, hdigits hd⟩
    · cases hx with
      | none => exact nofun
      | some hm hs _ hd =>
        refine List.forall_mem_cons.mpr ⟨?_, List.forall_mem_append.mpr ⟨?_, hdigits hd⟩⟩
        · rcases hm with rfl | rfl <;> decide
        · cases hs <;> decide

theorem numeral_noControls {v : Raw} {t : List Char} (h : Numeral v t) : NoControls t := by
  intro c hc
  rcases numeral_chars h c hc with hd | hm
  · exact digits_noControls (List.forall_mem_singleton.mpr hd) c (List.mem_singleton_self c)
  · exact (by decide : ∀ c ∈ ['-', '+', '.', 'e', 'E'], 0x20 ≤ c.toNat) c hm

theorem word_noControls {v : Raw} {t : List Char} (h : Word v t) : NoControls t := by
  cases h <;> decide

end Tokens

theorem moreItems_last : ∀ {vs : List Raw} {u : List Char}, MoreItems vs u → ∃ m, u = m ++ [']']
  | _, _, .last _ => ⟨_, rfl⟩
  | _, _, @MoreItems.next _ _ w w' t _ _ _ _ hu => by
    obtain ⟨m, rfl⟩ := moreItems_last hu
    exact ⟨w ++ ',' :: (w' ++ (t ++ m)), by simp⟩

theorem moreMembers_last : ∀ {ms : List (String × Raw)} {u : List Char}, MoreMembers ms u →
    ∃ m, u = m ++ ['}']
  | _, _, .last _ => ⟨_, rfl⟩
  | _, _, @MoreMembers.next _ _ w w' t _ _ _ _ hu => by
    obtain ⟨m, rfl⟩ := moreMembers_last hu
    exact ⟨w ++ ',' :: (w' ++ (t ++ m)), by simp⟩

theorem getLast?_of_noControls {t : List Char} (h : NoControls t) : t.getLast? ≠ some '\r' :=
  fun hlast => h.not_mem (by decide) (List.mem_of_getLast? hlast)

theorem written_getLast? {v : Raw} {t : List Char} (h : Written v t) : t.getLast? ≠ some '\r' := by
  cases h with
  | word h => exact getLast?_of_noControls (word_noControls h)
  | numeral h => exact getLast?_of_noControls (numeral_noControls h)
  | text h => exact getLast?_of_noControls (quoted_noControls h)
  | emptyList => simp [List.getLast?_cons, List.getLast?_append]
  | list _ _ hu =>
    obtain ⟨m, rfl⟩ := moreItems_last hu
    simp [List.getLast?_cons, List.getLast?_append]
  | emptyMap => simp [List.getLast?_cons, List.getLast?_append]
  | map _ _ hu =>
    obtain ⟨m, rfl⟩ := moreMembers_last hu
    simp [List.getLast?_cons, List.getLast?_append]

theorem member_getLast? {m : String × Raw} {t : List Char} (h : Member m t) :
    t.getLast? ≠ some '\r' := by
  cases h with
  | mk _ _ _ ht =>
    obtain ⟨c, cs, rfl, -⟩ := written_head ht
    have hlast := written_getLast? ht
    simpa [List.getLast?_cons, List.getLast?_append] using hlast

section DroppedReturns

/-- The text begins with a character that is no white space. -/
def BeginsSolid (t : List Char) : Prop := ∃ c cs, t = c :: cs ∧ isBlank c = false

theorem beginsSolid_cons {c : Char} (cs : List Char) (hc : isBlank c = false) :
    BeginsSolid (c :: cs) := ⟨c, cs, rfl, hc⟩

theorem BeginsSolid.append {t : List Char} (u : List Char) (h : BeginsSolid t) :
    BeginsSolid (t ++ u) := by
  obtain ⟨c, cs, rfl, hc⟩ := h
  exact ⟨c, cs ++ u, rfl, hc⟩

theorem written_beginsSolid {v : Raw} {t : List Char} (h : Written v t) : BeginsSolid t := by
  obtain ⟨c, cs, rfl, hc, -⟩ := written_head h
  exact beginsSolid_cons cs hc

theorem member_beginsSolid {m : String × Raw} {t : List Char} (h : Member m t) :
    BeginsSolid t := by
  obtain ⟨cs, rfl⟩ := member_head h
  exact beginsSolid_cons cs (by decide)

/-- White space in front of a token stays white space, whatever follows it. -/
theorem blanks_dropReturns {w : List Char} (hw : Blanks w) :
    ∃ w', Blanks w' ∧ ∀ t, BeginsSolid t → dropReturns (w ++ t) = w' ++ dropReturns t := by
  induction w with
  | nil => exact ⟨[], by decide, fun _ _ => rfl⟩
  | cons b w ih =>
    obtain ⟨hb, hw⟩ := List.forall_mem_cons.mp hw
    obtain ⟨w', hw', hdrop⟩ := ih hw
    by_cases hskip : b = '\r' ∧ w'.head? = some '\n'
    · refine ⟨w', hw', fun t ht => ?_⟩
      obtain ⟨ds, rfl⟩ := List.head?_eq_some_iff.mp hskip.2
      rw [List.cons_append, dropReturns, hdrop t ht]
      simp [hskip.1]
    · refine ⟨b :: w', List.forall_mem_cons.mpr ⟨hb, hw'⟩, fun t ht => ?_⟩
      obtain ⟨c, cs, rfl, hc⟩ := ht
      have hr : c ≠ '\r' := by
        rintro rfl
        simp [isBlank] at hc
      have hn : c ≠ '\n' := by
        rintro rfl
        simp [isBlank] at hc
      rw [List.cons_append, dropReturns, hdrop _ ⟨c, cs, rfl, hc⟩, dropReturns_cons _ hr]
      cases w' with
      | nil => simp [hn]
      | cons d ds => simp_all

mutual

theorem written_dropReturns : ∀ {v : Raw} {t : List Char}, Written v t →
    Written v (dropReturns t)
  | _, _, .word h => by
    rw [dropReturns_of_not_mem ((word_noControls h).not_mem (by decide))]
    exact .word h
  | _, _, .numeral h => by
    rw [dropReturns_of_not_mem ((numeral_noControls h).not_mem (by decide))]
    exact .numeral h
  | _, _, .text h => by
    rw [dropReturns_of_not_mem ((quoted_noControls h).not_mem (by decide))]
    exact .text h
  | _, _, .emptyList hw => by
    obtain ⟨w', hw', hdrop⟩ := blanks_dropReturns hw
    rw [dropReturns_cons _ (by decide), hdrop _ (beginsSolid_cons _ (by decide))]
    exact .emptyList hw'
  | _, _, .list hw ht hu => by
    obtain ⟨w', hw', hdrop⟩ := blanks_dropReturns hw
    rw [dropReturns_cons _ (by decide), hdrop _ ((written_beginsSolid ht).append _),
      dropReturns_append _ (written_getLast? ht)]
    exact .list hw' (written_dropReturns ht) (moreItems_dropReturns hu)
  | _, _, .emptyMap hw => by
    obtain ⟨w', hw', hdrop⟩ := blanks_dropReturns hw
    rw [dropReturns_cons _ (by decide), hdrop _ (beginsSolid_cons _ (by decide))]
    exact .emptyMap hw'
  | _, _, .map hw ht hu => by
    obtain ⟨w', hw', hdrop⟩ := blanks_dropReturns hw
    rw [dropReturns_cons _ (by decide), hdrop _ ((member_beginsSolid ht).append _),
      dropReturns_append _ (member_getLast? ht)]
    exact .map hw' (member_dropReturns ht) (moreMembers_dropReturns hu)

theorem moreItems_dropReturns : ∀ {vs : List Raw} {u : List Char}, MoreItems vs u →
    MoreItems vs (dropReturns u)
  | _, _, .last hw => by
    obtain ⟨w', hw', hdrop⟩ := blanks_dropReturns hw
    rw [hdrop _ (beginsSolid_cons _ (by decide))]
    exact .last hw'
  | _, _, .next hl hw ht hu => by
    obtain ⟨l', hl', hdrop⟩ := blanks_dropReturns hl
    obtain ⟨w', hw', hdrop'⟩ := blanks_dropReturns hw
    rw [hdrop _ (beginsSolid_cons _ (by decide)), dropReturns_cons _ (by decide),
      hdrop' _ ((written_beginsSolid ht).append _), dropReturns_append _ (written_getLast? ht)]
    exact .next hl' hw' (written_dropReturns ht) (moreItems_dropReturns hu)

theorem member_dropReturns : ∀ {m : String × Raw} {t : List Char}, Member m t →
    Member m (dropReturns t)
  | _, _, .mk (k := k) hs hl hw ht => by
    obtain ⟨l', hl', hdrop⟩ := blanks_dropReturns hl
    obtain ⟨w', hw', hdrop'⟩ := blanks_dropReturns hw
    have hk := stringBody_noControls hs
    rw [dropReturns_cons _ (by decide), dropReturns_append _ (getLast?_of_noControls hk),
      dropReturns_of_not_mem (hk.not_mem (by decide)), dropReturns_cons _ (by decide),
      hdrop _ (beginsSolid_cons _ (by decide)), dropReturns_cons _ (by decide),
      hdrop' _ (written_beginsSolid ht)]
    exact .mk hs hl' hw' (written_dropReturns ht)

theorem moreMembers_dropReturns : ∀ {ms : List (String × Raw)} {u : List Char},
    MoreMembers ms u → MoreMembers ms (dropReturns u)
  | _, _, .last hw => by
    obtain ⟨w', hw', hdrop⟩ := blanks_dropReturns hw
    rw [hdrop _ (beginsSolid_cons _ (by decide))]
    exact .last hw'
  | _, _, .next hl hw ht hu => by
    obtain ⟨l', hl', hdrop⟩ := blanks_dropReturns hl
    obtain ⟨w', hw', hdrop'⟩ := blanks_dropReturns hw
    rw [hdrop _ (beginsSolid_cons _ (by decide)), dropReturns_cons _ (by decide),
      hdrop' _ ((member_beginsSolid ht).append _), dropReturns_append _ (member_getLast? ht)]
    exact .next hl' hw' (member_dropReturns ht) (moreMembers_dropReturns hu)

end

end DroppedReturns

end TerraIndex.Json
