import TerraIndex.Proofs.Entity.Lossless
import TerraIndex.Proofs.File.Loaded
import TerraIndex.Proofs.Listing.Origins
import TerraIndex.Proofs.Source.Truncation
/-!
# Rows of files that were loaded

The numbers of the lines of an entity are those of lines in its file, or they stand in its tree
(`isShort_place`). What the entity is made of are values of the tree. So a row of a file that was
loaded is read back from its text as it was (`lossless_listed`).
-/

namespace TerraIndex

open Json

section Lines

theorem isShort_empty : Span.empty.IsShort :=
  ⟨Nat.pow_pos (by decide), Nat.pow_pos (by decide)⟩

theorem Text.length_dropFinalEmpty (lines : List (List Char)) :
    (dropFinalEmpty lines).length ≤ lines.length := by
  unfold dropFinalEmpty
  split
  · rw [List.length_dropLast]
    exact Nat.sub_le _ _
  · exact Nat.le_refl _

theorem Text.length_scanLines (text : List Char) : (scanLines text).length ≤ text.length + 1 := by
  calc (scanLines text).length
      ≤ (splitNewlines text).length := by
        rw [scanLines, List.length_map]
        exact length_dropFinalEmpty _
    _ = text.count '\n' + 1 := length_splitNewlines text
    _ ≤ text.length + 1 := Nat.succ_le_succ List.count_le_length

section Exports

variable {text : List Char}

theorem isShort_lines {first last : Nat} {source : String} (hfirst : first ≤ last)
    (hlast : last ≤ (Text.scanLines text).length)
    (hsize : text.length + 2 < 10 ^ maxIntegerDigits) : Span.IsShort ⟨first, last, source⟩ := by
  have hlines := Text.length_scanLines text
  constructor
  · show (first : Int).natAbs < _
    rw [Int.natAbs_natCast]
    omega
  · show (last : Int).natAbs < _
    rw [Int.natAbs_natCast]
    omega

theorem Truncates.isShort {locate : List Char → Span} (h : Truncates locate text)
    (hsize : text.length + 2 < 10 ^ maxIntegerDigits) : (locate text).IsShort := by
  cases h with
  | absent hnone => exact hnone ▸ isShort_empty
  | found first last hfirst hle hlast hspan => exact hspan ▸ isShort_lines hle hlast hsize

theorem isShort_locate (locator : Locator) (hsize : text.length + 2 < 10 ^ maxIntegerDigits) :
    (locator.locate text).IsShort := by
  cases locator with
  | namedChild child => exact (child.truncates text).isShort hsize
  | resourceList list => exact (list.truncates text).isShort hsize
  | singleLine line =>
    have hlines := Text.length_scanLines text
    refine ⟨Nat.one_lt_pow (by decide) (by decide), ?_⟩
    show ((Text.scanLines text).length : Int).natAbs < _
    rw [Int.natAbs_natCast]
    omega

end Exports

end Lines

section Configurations

variable {text : ConfigText}

theorem descend_holds {P : Scalar → Prop} {node : Node} {labels : List String} {body : Body}
    (hnode : node.Holds P) (h : body ∈ descend labels node) : (Node.map body).Holds P := by
  rw [descend_eq_filter node labels [], matching] at h
  obtain ⟨⟨found, source⟩, hmem, rfl⟩ := List.mem_map.mp h
  exact (walkLabels_part node labels.length [] .whole (List.mem_filter.mp hmem).1).holds hnode

theorem matchingBodies_holds {P : Scalar → Prop} {type : String} {labels : List String}
    {body : Body} (htree : (Node.map text.tree).Holds P)
    (h : body ∈ text.matchingBodies type labels) : (Node.map body).Holds P := by
  obtain ⟨⟨key, value⟩, hentry, h⟩ := List.mem_flatMap.mp h
  dsimp only at h
  split_ifs at h
  · obtain ⟨block, hblock, h⟩ := List.mem_flatMap.mp h
    have hvalue := (valuesHold_iff text.tree).mp htree.2 _ hentry
    exact descend_holds ((blocksOf_part .whole block hblock).holds hvalue) h
  · exact absurd h List.not_mem_nil

/-- A number of a line is an integer of the tree. -/
theorem natAbs_lineNumber_lt {body : Body} (h : (Node.map body).Holds Scalar.IsValue)
    (key : String) : (lineNumber body key).natAbs < 10 ^ maxIntegerDigits := by
  unfold lineNumber
  cases hchild : body.child? key with
  | none => exact Nat.pow_pos (by decide)
  | some node =>
    have hnode := child?_holds h.2 hchild
    cases hint : node.int? with
    | none =>
      rw [Option.bind_some, hint]
      exact Nat.pow_pos (by decide)
    | some n =>
      rw [Option.bind_some, hint]
      unfold Node.int? at hint
      split at hint
      · cases hint
        exact isDocument_int_iff.mp hnode
      · cases hint

theorem isShort_block {type : String} {labels : List String} {occurrence : Int}
    (htree : (Node.map text.tree).Holds Scalar.IsValue) :
    (text.locate type labels occurrence).IsShort := by
  unfold ConfigText.locate
  split
  · exact isShort_empty
  · split_ifs
    · exact isShort_empty
    · split
      · rename_i body hbody
        have hholds := matchingBodies_holds htree (List.mem_of_getElem? hbody)
        unfold ConfigText.spanOf
        dsimp only
        split_ifs
        · exact isShort_empty
        · exact ⟨natAbs_lineNumber_lt hholds _, natAbs_lineNumber_lt hholds _⟩
      · exact isShort_empty

theorem attributeEnd_bounds {limit last : Int} : ∀ {depth line : Int} {lines : List (List Char)},
    ConfigText.attributeEnd limit depth line lines = .ok last → min line limit ≤ last ∧ last ≤ limit
  | depth, line, [], h => by
    rw [ConfigText.attributeEnd] at h
    split_ifs at h
    cases h
    exact ⟨min_le_right _ _, le_refl _⟩
  | depth, line, text :: rest, h => by
    rw [ConfigText.attributeEnd] at h
    split_ifs at h with hlimit
    · cases h
      exact ⟨min_le_right _ _, le_refl _⟩
    · dsimp only at h
      split_ifs at h
      · cases h
        omega
      · have := attributeEnd_bounds h
        omega

theorem attributeLines_bounds {name : List Char} {limit first last : Int} :
    ∀ {depth line : Int} {lines : List (List Char)},
    ConfigText.attributeLines name limit depth line lines = .ok (some (first, last)) →
    line ≤ first ∧ first ≤ last ∧ last ≤ limit
  | depth, line, [], h => by
    rw [ConfigText.attributeLines] at h
    split_ifs at h
    cases h
  | depth, line, text :: rest, h => by
    rw [ConfigText.attributeLines] at h
    split_ifs at h with hlimit
    · cases h
    · obtain ⟨stop, hstop, h⟩ := bind_ok h
      cases h
      have := attributeEnd_bounds hstop
      omega
    · have := attributeLines_bounds h
      omega

/-- An attribute lies in its block. -/
theorem isShort_attribute {block span : Span} {name : String} (hblock : block.IsShort)
    (h : text.locateAttribute block name = .ok span) : span.IsShort := by
  unfold ConfigText.locateAttribute at h
  split_ifs at h with hfound
  · cases h
    exact isShort_empty
  · have hstart : 0 < block.startLine := by
      simpa [Span.found] using hfound
    obtain ⟨found, hlines, h⟩ := bind_ok h
    cases found with
    | none =>
      cases h
      exact isShort_empty
    | some lines =>
      cases h
      have := attributeLines_bounds hlines
      have := hblock.endLine
      constructor
      · dsimp only
        omega
      · dsimp only
        omega

end Configurations

namespace SourceFile

variable {file : SourceFile}

theorem isShort_place {place : Located} (hfile : file.Sound) (h : file.Gives place) :
    place.span.IsShort := by
  cases h with
  | block hplace =>
    rw [hplace]
    exact isShort_block hfile.tree
  | entry hspan hplace =>
    rw [hplace]
    exact isShort_attribute (isShort_block hfile.tree) hspan
  | exported hplace =>
    rw [hplace]
    dsimp only [exportPlace]
    split
    · exact isShort_locate _ hfile.size
    · exact isShort_empty

/-- What is listed from a sound file is read back from the text of its row. -/
theorem lossless_listed {kind : ListKind} {entity : Entity} (hfile : file.Sound)
    (h : entity ∈ (file.listing kind).entities) : (Raw.map entity.row).Lossless := by
  obtain ⟨⟨plain, nodes, hmade, hplain, hnodes⟩, hplace⟩ := holds_listed hfile.tree h
  exact lossless_row hmade hplain hnodes (isShort_place hfile hplace)

end SourceFile

theorem lossless_listing {kind : ListKind} {store : FileStore} {item : FileItem} {entity : Entity}
    (hshort : store.IsShort) (h : entity ∈ (list kind store item).entities) :
    (Raw.map entity.row).Lossless := by
  unfold list at h
  split at h
  · exact absurd h List.not_mem_nil
  · rename_i file hload
    exact SourceFile.lossless_listed (sound_load hshort hload) h

end TerraIndex
