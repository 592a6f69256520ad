import TerraIndex.Entity.Export
import TerraIndex.Proofs.Json.Occurrences
/-!
# Indices that cannot be written

Only an instance of a state is refused for its index, and only where the index has no text to stand
in an address (`ofInstance_longIndex`). Whatever else is built from a body can fail in other ways
alone.
-/

namespace TerraIndex

theorem bind_error {ε α β : Type} {x : Except ε α} {f : α → Except ε β} {e : ε}
    (h : x >>= f = .error e) : x = .error e ∨ ∃ a, x = .ok a ∧ f a = .error e := by
  cases x with
  | error e' => exact .inl (congrArg Except.error (Except.error.inj h))
  | ok a => exact .inr ⟨a, rfl, h⟩

/-- The result is not the failure to write an index. -/
def IsNoted {α : Type} (result : Except BuildError α) : Prop := result ≠ .error .longIndex

namespace IsNoted

variable {α β : Type} {x : Except BuildError α}

theorem bind {f : α → Except BuildError β} (h : IsNoted x) (hf : ∀ a, IsNoted (f a)) :
    IsNoted (x >>= f) := by
  cases x with
  | ok a => exact hf a
  | error e => exact fun he => h (congrArg Except.error (Except.error.inj he))

theorem map {f : α → β} (h : IsNoted x) : IsNoted (f <$> x) := by
  cases x with
  | ok a => exact nofun
  | error e => exact fun he => h (congrArg Except.error (Except.error.inj he))

theorem supported (result : Except UnsupportedValue α) : IsNoted (supported result) := by
  cases result with
  | ok a => exact nofun
  | error e => exact nofun

end IsNoted

section Builders

theorem isNoted_extractFrom (kind name : String) : ∀ (done : Extraction) (body : Body),
    IsNoted (extractFrom kind name done body)
  | _, [] => nofun
  | done, (key, node) :: body => by
    rw [extractFrom]
    split
    · exact (IsNoted.supported _).bind fun raw => isNoted_extractFrom kind name _ body
    · split_ifs
      · exact (IsNoted.supported _).bind fun fields => isNoted_extractFrom kind name _ body
      · exact nofun

theorem isNoted_extract (kind name : String) (body : Body) : IsNoted (extract kind name body) :=
  isNoted_extractFrom kind name _ body

theorem isNoted_requireMap (body : Body) (key address : String) :
    IsNoted (requireMap body key address) := by
  unfold requireMap
  split
  · exact nofun
  · exact (IsNoted.supported _).map
  · exact nofun

theorem isNoted_rawAt (body : Body) (key : String) : IsNoted (rawAt body key) := by
  unfold rawAt
  split
  · exact .supported _
  · exact nofun

theorem isNoted_planned (place : Located) (entry : Body) :
    IsNoted (Resource.ofPlan place entry) :=
  (isNoted_extract _ _ _).bind fun _ =>
    (isNoted_requireMap _ _ _).bind fun _ => (isNoted_rawAt _ _).bind fun _ => nofun

end Builders

theorem indexText?_int_long {n : Int} (h : maxIntegerDigits < n.natAbs.repr.toList.length) :
    indexText? (.int n) = none := by
  show (intText? n).map _ = none
  rw [intText?, if_neg (Nat.not_le.mpr h), Option.map_none]

/-- An instance is refused for its index exactly where that has no text. -/
theorem ofInstance_longIndex {place : Located} {resource inst : Body} :
    Resource.ofInstance place resource inst = .error .longIndex ↔
      ∃ index, rawAt inst "index_key" = .ok index ∧ indexText? index = none := by
  constructor
  · intro h
    rcases bind_error h with h | ⟨index, hindex, h⟩
    · exact absurd h (isNoted_rawAt inst _)
    refine ⟨index, hindex, ?_⟩
    rcases bind_error h with h | ⟨address, -, h⟩
    · unfold State.instanceAddress at h
      split at h
      · cases h
      · rename_i hnone
        exact Option.map_eq_none_iff.mp hnone
    · refine absurd h ((isNoted_extract _ _ _).bind fun _ =>
        (isNoted_requireMap _ _ _).bind fun attributes => ?_)
      cases attributes with
      | some attributes => exact nofun
      | none => exact (isNoted_requireMap _ _ _).bind fun _ => nofun
  · rintro ⟨index, hindex, htext⟩
    simp only [Resource.ofInstance, hindex, Json.ok_bind, State.instanceAddress, instanceAddress?,
      htext]
    rfl

end TerraIndex
