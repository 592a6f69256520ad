import TerraIndex.Proofs.Source.AttributeSpan
import TerraIndex.Proofs.Source.Pattern
import Mathlib.Data.Nat.Find
/-!
# Attributes of one block do not overlap

`locateAttribute` counts brackets twice: from the first line of a block, to find the line where an
attribute begins, and from that line on, to find where it ends (`locateAttribute_locates`). Both
counts are sums over the same lines (`depthBetween_add`), so the brackets balance between the first
lines of two attributes, and the upper one ends above the lower one (`attributes_apart`). Nothing is
asked of the lines: brackets need not be closed, and an attribute may run to the end of its block.
-/

namespace TerraIndex

open Text (isBlank trimStart)

/-- The line is the name and a single equals sign, with blanks around the name. -/
def AssignsTo (name line : List Char) : Prop :=
  ∃ w w' rest, line = w ++ (name ++ (w' ++ '=' :: rest)) ∧ (∀ c ∈ w, isBlank c = true)
    ∧ (∀ c ∈ w', isBlank c = true) ∧ rest.head? ≠ some '='

theorem isAssignment_append {name w rest : List Char} (hw : ∀ c ∈ w, isBlank c = true)
    (hrest : rest.head? ≠ some '=') : isAssignment name (name ++ (w ++ '=' :: rest)) = true := by
  rw [isAssignment, dropFront?_append, Option.map_some, Text.trimStart_append _ hw,
    Text.trimStart_cons _ (by decide)]
  rcases rest with _ | ⟨c, rest⟩
  · rfl
  · have hc : c ≠ '=' := fun h => hrest (congrArg some h)
    split <;> simp_all

theorem AssignsTo.of_isAssignment {name line : List Char} (h : isAssignment name line = true) :
    AssignsTo name line := by
  obtain ⟨behind, rest, rfl, htrim, hrest⟩ := Hcl.isAssignment_some h
  have hblank : ∀ c ∈ behind.takeWhile isBlank, isBlank c = true := fun c hc =>
    List.all_eq_true.mp List.all_takeWhile c hc
  refine ⟨[], behind.takeWhile isBlank, rest, ?_, nofun, hblank, hrest⟩
  rw [← htrim, trimStart, List.takeWhile_append_dropWhile]
  rfl

theorem assigns_iff {name : List Char} : ∀ {line : List Char},
    assigns name line = true ↔ AssignsTo name line
  | [] => by
    refine ⟨.of_isAssignment, fun ⟨w, w', rest, hline, _⟩ => ?_⟩
    simp at hline
  | c :: cs => by
    rw [assigns, Bool.or_eq_true, Bool.and_eq_true]
    constructor
    · rintro (h | ⟨hc, h⟩)
      · exact .of_isAssignment h
      · obtain ⟨w, w', rest, rfl, hw, hw', hrest⟩ := assigns_iff.mp h
        exact ⟨c :: w, w', rest, rfl, List.forall_mem_cons.mpr ⟨hc, hw⟩, hw', hrest⟩
    · rintro ⟨_ | ⟨d, w⟩, w', rest, hline, hw, hw', hrest⟩
      · rw [hline]
        exact .inl (isAssignment_append hw' hrest)
      · obtain ⟨rfl, rfl⟩ := List.cons.inj hline
        obtain ⟨hc, hw⟩ := List.forall_mem_cons.mp hw
        exact .inr ⟨hc, assigns_iff.mpr ⟨w, w', rest, rfl, hw, hw', hrest⟩⟩

/-- No blank and no equals sign is part of the name. -/
def IsBare (name : List Char) : Prop := ∀ c ∈ name, isBlank c = false ∧ c ≠ '='

instance (name : List Char) : Decidable (IsBare name) := Json.decidableForallMem _ name

/-- A bare name can be read off a line that assigns to it. -/
theorem AssignsTo.takeWhile_trimStart {name line : List Char} (hname : IsBare name)
    (h : AssignsTo name line) :
    (trimStart line).takeWhile (fun c => !isBlank c && c != '=') = name := by
  obtain ⟨w, w', rest, rfl, hw, hw', -⟩ := h
  rw [Text.trimStart_append _ hw]
  rcases name with _ | ⟨c, name⟩
  · rw [List.nil_append, Text.trimStart_append _ hw', Text.trimStart_cons _ (by decide)]
    rfl
  · rw [List.cons_append, Text.trimStart_cons _ (hname c (List.mem_cons_self ..)).1,
      ← List.cons_append, List.takeWhile_append_of_pos fun d hd => by simp [hname d hd]]
    rcases w' with _ | ⟨d, w'⟩
    · simp
    · simp [hw' d (List.mem_cons_self ..)]

/-- A line assigns to one bare name. -/
theorem AssignsTo.unique {a b line : List Char} (ha : IsBare a) (hb : IsBare b)
    (h : AssignsTo a line) (h' : AssignsTo b line) : a = b :=
  (h.takeWhile_trimStart ha).symm.trans (h'.takeWhile_trimStart hb)

/-- The spans share no line. -/
def Span.Apart (span other : Span) : Prop :=
  span.endLine < other.startLine ∨ other.endLine < span.startLine

namespace ConfigText

/-- How much deeper the lines from one up to another lead, counted from one. -/
def depthBetween (lines : List (List Char)) (first next : Nat) : Int :=
  deltas ((lines.drop (first - 1)).take (next - first))

/-- Counts from different lines are parts of one sum. -/
theorem depthBetween_add (lines : List (List Char)) (first mid next : Nat) (hfirst : 1 ≤ first)
    (hmid : first ≤ mid) (hnext : mid ≤ next) :
    depthBetween lines first next = depthBetween lines first mid + depthBetween lines mid next := by
  have hlength : next - first = (mid - first) + (next - mid) := by omega
  have hdrop : (first - 1) + (mid - first) = mid - 1 := by omega
  rw [depthBetween, hlength, List.take_add, deltas_append, List.drop_drop, hdrop]
  rfl

/-- An attribute begins in the line of a block: at depth one, with its name and a single equals
sign. -/
structure Begins (lines : List (List Char)) (block : Span) (name : List Char) (k : Nat) : Prop where
  above : block.startLine ≤ k
  below : k ≤ block.endLine
  depth : depthBetween lines block.startLine.toNat k = 1
  assigns : ∃ line, lines[k - 1]? = some line ∧ AssignsTo name line

/-- The lines of an attribute: from the first line where it begins to the first one behind which the
brackets from there on balance or are closed once too often, or else to the last of the block. -/
structure IsAttribute (lines : List (List Char)) (block : Span) (name : List Char)
    (first last : Nat) : Prop where
  begins : Begins lines block name first
  isFirst : ∀ k < first, ¬ Begins lines block name k
  le : first ≤ last
  below : last ≤ block.endLine
  inside : ∀ k, first ≤ k → k < last → 0 < depthBetween lines first (k + 1)
  ends : depthBetween lines first (last + 1) ≤ 0 ∨ (last : Int) = block.endLine

/-- The span is that of the attribute, or the empty one where the attribute begins nowhere. -/
inductive Locates (text : ConfigText) (block : Span) (name : List Char) : Span → Prop
  | absent : (block.found = true → ∀ k, ¬ Begins text.lines block name k) →
      Locates text block name .empty
  | found (first last : Nat) : block.found = true → IsAttribute text.lines block name first last →
      Locates text block name ⟨first, last, text.sourceText first last⟩

section Counts

/-- The count of an attribute ends at a line that is there, open up to it. -/
theorem attributeEnd_ends (limit : Int) : ∀ (depth line : Int) (lines : List (List Char)),
    line ≤ limit → limit < line + lines.length →
    ∃ n : Nat, attributeEnd limit depth line lines = .ok (line + n) ∧ line + n ≤ limit
      ∧ (∀ m < n, 0 < depth + deltas (lines.take (m + 1)))
      ∧ (depth + deltas (lines.take (n + 1)) ≤ 0 ∨ line + n = limit)
  | _, line, [], hle, hlimit => by
    simp only [List.length_nil, Int.natCast_zero, Int.add_zero] at hlimit
    omega
  | depth, line, text :: rest, hle, hlimit => by
    rw [List.length_cons] at hlimit
    rw [attributeEnd, if_neg (by omega)]
    simp only
    split_ifs with hends
    · refine ⟨0, by simp, by simpa using hle, fun m hm => absurd hm (Nat.not_lt_zero m), .inl ?_⟩
      simpa using hends
    · by_cases hlast : line = limit
      · refine ⟨0, ?_, by simpa using hle, fun m hm => absurd hm (Nat.not_lt_zero m),
          .inr (by simpa using hlast)⟩
        unfold attributeEnd
        rw [if_pos (by omega), hlast, Int.natCast_zero, Int.add_zero]
      · obtain ⟨n, hn, hle', hinside, hends'⟩ :=
          attributeEnd_ends limit (depth + nestingDelta text) (line + 1) rest (by omega)
            (by push_cast at hlimit; omega)
        refine ⟨n + 1, ?_, by push_cast; omega, fun m hm => ?_, ?_⟩
        · rw [hn]
          congr 1
          push_cast
          omega
        · rcases m with _ | m
          · simpa using hends
          · have hopen := hinside m (by omega)
            rw [List.take_succ_cons, deltas_cons]
            omega
        · rw [List.take_succ_cons, deltas_cons]
          push_cast
          omega

/-- A search passes over lines that do not assign the name at depth one. -/
theorem attributeLines_pass {limit depth line : Int} {name : List Char} {lines : List (List Char)}
    {n : Nat} (hpass : ∀ m < n, ∀ text, lines[m]? = some text →
      ¬ (depth + deltas (lines.take m) = 1 ∧ assigns name text = true))
    (hlength : n ≤ lines.length) (hlimit : line + n ≤ limit + 1) :
    attributeLines name limit depth line lines
      = attributeLines name limit (depth + deltas (lines.take n)) (line + n) (lines.drop n) := by
  have hn : (lines.take n).length = n := by rw [List.length_take, Nat.min_eq_left hlength]
  have hrun : attributeLines name limit depth line (lines.take n ++ lines.drop n)
      = attributeLines name limit (depth + deltas (lines.take n)) (line + (lines.take n).length)
        (lines.drop n) := by
    refine attributeLines_run (fun front text back heq => ?_) (by rwa [hn])
    have hfront := Hcl.take_split heq
    have hlt : front.length < n := by
      rw [← hn, heq, List.length_append, List.length_cons]
      omega
    have htext : lines[front.length]? = some text := by
      rw [← List.getElem?_take_of_lt hlt, heq, List.getElem?_append_right (Nat.le_refl _),
        Nat.sub_self]
      rfl
    rw [hfront]
    exact hpass front.length hlt text htext
  rwa [List.take_append_drop, hn] at hrun

end Counts

section Search

variable {text : ConfigText} {block : Span} {name : String}

/-- In front of the line where an attribute begins first, none assigns the name at depth one. -/
theorem passes (hstart : 1 ≤ block.startLine) {n : Nat}
    (hn : block.startLine + n ≤ block.endLine + 1)
    (hno : ∀ k < block.startLine.toNat + n, ¬ Begins text.lines block name.toList k) :
    ∀ m < n, ∀ line, (text.lines.drop (block.startLine.toNat - 1))[m]? = some line →
      ¬ (0 + deltas ((text.lines.drop (block.startLine.toNat - 1)).take m) = 1
        ∧ assigns name.toList line = true) := by
  rintro m hm line hline ⟨hdepth, hassigns⟩
  refine hno (block.startLine.toNat + m) (by omega) ⟨by omega, by omega, ?_, line, ?_, ?_⟩
  · rw [depthBetween, Nat.add_sub_cancel_left]
    omega
  · rw [List.getElem?_drop] at hline
    rw [← hline]
    congr 1
    omega
  · exact assigns_iff.mp hassigns

/-- Where the attribute begins first, the search finds it and looks for its end. -/
theorem attributeLines_begins (hstart : 1 ≤ block.startLine)
    (hlines : block.endLine ≤ text.lines.length) {k : Nat}
    (hk : Begins text.lines block name.toList k)
    (hno : ∀ j < k, ¬ Begins text.lines block name.toList j) :
    attributeLines name.toList block.endLine 0 block.startLine
        (text.lines.drop (block.startLine.toNat - 1))
      = (attributeEnd block.endLine 0 k (text.lines.drop (k - 1))).map
        fun last => some (↑k, last) := by
  have habove := hk.above
  have hbelow := hk.below
  obtain ⟨line, hline, hassigns⟩ := hk.assigns
  obtain ⟨n, hn⟩ : ∃ n, k = block.startLine.toNat + n := ⟨k - block.startLine.toNat, by omega⟩
  have hlength : n ≤ (text.lines.drop (block.startLine.toNat - 1)).length := by
    rw [List.length_drop]
    omega
  have hdrop : (text.lines.drop (block.startLine.toNat - 1)).drop n = text.lines.drop (k - 1) := by
    rw [List.drop_drop]
    congr 1
    omega
  have hcons : text.lines.drop (k - 1) = line :: text.lines.drop k := by
    obtain ⟨hlt, rfl⟩ := List.getElem?_eq_some_iff.mp hline
    rw [List.drop_eq_getElem_cons hlt]
    congr 2
    omega
  have hdepth : 0 + deltas ((text.lines.drop (block.startLine.toNat - 1)).take n) = 1 := by
    have hdepth := hk.depth
    rw [hn, depthBetween, Nat.add_sub_cancel_left] at hdepth
    omega
  rw [attributeLines_pass (passes hstart (by omega) (hn ▸ hno)) hlength (by omega), hdepth, hdrop,
    hcons, attributeLines, if_neg (by omega)]
  simp only [assigns_iff.mpr hassigns, and_self, if_true]
  rw [show block.startLine + (n : Int) = k by omega]
  cases attributeEnd block.endLine 0 k (line :: text.lines.drop k) <;> rfl

/-- Where the attribute begins nowhere, the search goes to the end of the block. -/
theorem attributeLines_absent (hstart : 1 ≤ block.startLine)
    (hlines : block.endLine ≤ text.lines.length)
    (hno : ∀ k, ¬ Begins text.lines block name.toList k) :
    attributeLines name.toList block.endLine 0 block.startLine
        (text.lines.drop (block.startLine.toNat - 1)) = .ok none := by
  have hdone : ∀ {depth line : Int} {lines : List (List Char)}, block.endLine < line →
      attributeLines name.toList block.endLine depth line lines = .ok none := fun h => by
    unfold attributeLines
    rw [if_pos h]
  by_cases hempty : block.endLine < block.startLine
  · exact hdone hempty
  · obtain ⟨n, hn⟩ : ∃ n : Nat, block.startLine + n = block.endLine + 1 :=
      ⟨(block.endLine + 1 - block.startLine).toNat, by omega⟩
    have hlength : n ≤ (text.lines.drop (block.startLine.toNat - 1)).length := by
      rw [List.length_drop]
      omega
    rw [attributeLines_pass (passes hstart (by omega) fun k _ => hno k) hlength (by omega)]
    exact hdone (by omega)

/-- The end of the attribute that begins in a line. -/
theorem isAttribute_end (hlines : block.endLine ≤ text.lines.length) (hstart : 1 ≤ block.startLine)
    {k : Nat} (hk : Begins text.lines block name.toList k)
    (hno : ∀ j < k, ¬ Begins text.lines block name.toList j) :
    ∃ last : Nat, attributeEnd block.endLine 0 k (text.lines.drop (k - 1)) = .ok last
      ∧ IsAttribute text.lines block name.toList k last := by
  have habove := hk.above
  obtain ⟨n, hend, hle, hinside, hends⟩ := attributeEnd_ends block.endLine 0 k
    (text.lines.drop (k - 1)) hk.below (by rw [List.length_drop]; omega)
  refine ⟨k + n, by rw [hend]; rfl, hk, hno, by omega, by push_cast; omega, fun j hj hlt => ?_, ?_⟩
  · have hopen := hinside (j - k) (by omega)
    rw [depthBetween, show j + 1 - k = j - k + 1 by omega]
    omega
  · rw [depthBetween, show k + n + 1 - k = n + 1 by omega]
    push_cast
    omega

/-- What is found in a block that lies in the text. -/
theorem locateAttribute_locates (name : String) (hlines : block.endLine ≤ text.lines.length) :
    ∃ span, text.locateAttribute block name = .ok span
      ∧ Locates text block name.toList span := by
  by_cases hfound : block.found = true
  · have hstart : 1 ≤ block.startLine := of_decide_eq_true hfound
    unfold locateAttribute
    simp only [hfound, Bool.not_true, Bool.false_eq_true, if_false]
    by_cases hbegins : ∃ k, Begins text.lines block name.toList k
    · classical
      have hk := Nat.find_spec hbegins
      have hno : ∀ j < Nat.find hbegins, ¬ Begins text.lines block name.toList j := fun _ =>
        Nat.find_min hbegins
      obtain ⟨last, hlast, hattribute⟩ := isAttribute_end hlines hstart hk hno
      rw [attributeLines_begins hstart hlines hk hno, hlast]
      exact ⟨_, rfl, .found _ last hfound hattribute⟩
    · rw [attributeLines_absent hstart hlines (not_exists.mp hbegins)]
      exact ⟨_, rfl, .absent fun _ => not_exists.mp hbegins⟩
  · refine ⟨.empty, ?_, .absent fun h => absurd h hfound⟩
    simp [locateAttribute, hfound]
    rfl

end Search

section TwoAttributes

/-- Attributes of one block begin in different lines. -/
theorem Begins.name_unique {lines : List (List Char)} {block : Span} {a b : List Char} {k : Nat}
    (ha : IsBare a) (hb : IsBare b) (h : Begins lines block a k) (h' : Begins lines block b k) :
    a = b := by
  obtain ⟨line, hline, hassigns⟩ := h.assigns
  obtain ⟨line', hline', hassigns'⟩ := h'.assigns
  rw [hline] at hline'
  obtain rfl := Option.some.inj hline'
  exact hassigns.unique ha hb hassigns'

/-- An attribute ends above a line at depth one that is below its first line. -/
theorem IsAttribute.last_lt {lines : List (List Char)} {block : Span} {a b : List Char}
    {first last k : Nat} (hstart : 1 ≤ block.startLine) (h : IsAttribute lines block a first last)
    (hk : Begins lines block b k) (hlt : first < k) : last < k := by
  have habove := h.begins.above
  have hsum := depthBetween_add lines block.startLine.toNat first k (by omega) (by omega)
    (by omega)
  rw [h.begins.depth, hk.depth] at hsum
  -- the brackets from the first line on balance in front of the line
  by_contra hge
  have hopen := h.inside (k - 1) (by omega) (by omega)
  rw [Nat.sub_add_cancel (by omega)] at hopen
  omega

/-- The attributes of two names in one block share no line, whatever the lines of the block are. -/
theorem attributes_apart {text : ConfigText} (block : Span) {a b : String}
    (hlines : block.endLine ≤ text.lines.length) (ha : IsBare a.toList) (hb : IsBare b.toList)
    (hne : a ≠ b) :
    ∃ span other, text.locateAttribute block a = .ok span ∧ text.locateAttribute block b = .ok other
      ∧ Locates text block a.toList span ∧ Locates text block b.toList other
      ∧ (span.found = true → other.found = true → span.Apart other) := by
  obtain ⟨span, hspan, hlocates⟩ := locateAttribute_locates a hlines
  obtain ⟨other, hother, hlocates'⟩ := locateAttribute_locates b hlines
  refine ⟨span, other, hspan, hother, hlocates, hlocates', fun hfound hfound' => ?_⟩
  cases hlocates with
  | absent => exact absurd hfound (by decide)
  | found first last hblock hattribute =>
    cases hlocates' with
    | absent => exact absurd hfound' (by decide)
    | found first' last' _ hattribute' =>
      have hstart : 1 ≤ block.startLine := of_decide_eq_true hblock
      rcases Nat.lt_trichotomy first first' with hlt | rfl | hlt
      · exact .inl (Int.ofNat_lt.mpr (hattribute.last_lt hstart hattribute'.begins hlt))
      · have heq := hattribute.begins.name_unique ha hb hattribute'.begins
        exact absurd (String.toList_inj.mp heq) hne
      · exact .inr (Int.ofNat_lt.mpr (hattribute'.last_lt hstart hattribute.begins hlt))

end TwoAttributes

/-- The value of the first attribute is closed once too often, that of the second never. -/
def unbalanced : ConfigText := .ofContent
  ("locals \x7b\n  ports = [\n    22,\n    443\n  ]\x7d\n"
    ++ "\x7b\n  hosts = [\n    local.main\n").toList []

theorem attributes_apart_unbalanced : (9 : Int) ≤ unbalanced.lines.length
    ∧ IsBare "ports".toList ∧ IsBare "hosts".toList ∧ "ports" ≠ "hosts"
    ∧ ∃ span other, unbalanced.locateAttribute ⟨1, 9, ""⟩ "ports" = .ok span
      ∧ unbalanced.locateAttribute ⟨1, 9, ""⟩ "hosts" = .ok other
      ∧ Locates unbalanced ⟨1, 9, ""⟩ "ports".toList span
      ∧ Locates unbalanced ⟨1, 9, ""⟩ "hosts".toList other
      ∧ (span.found = true → other.found = true → span.Apart other) :=
  have hlines : (9 : Int) ≤ unbalanced.lines.length := by decide
  have hports : IsBare "ports".toList := by decide
  have hhosts : IsBare "hosts".toList := by decide
  have hne : "ports" ≠ "hosts" := by decide
  ⟨hlines, hports, hhosts, hne, attributes_apart ⟨1, 9, ""⟩ hlines hports hhosts hne⟩

example : unbalanced.locateAttribute ⟨1, 9, ""⟩ "ports"
      = .ok ⟨2, 5, "  ports = [\n    22,\n    443\n  ]\x7d"⟩
    ∧ unbalanced.locateAttribute ⟨1, 9, ""⟩ "hosts"
      = .ok ⟨7, 9, "  hosts = [\n    local.main\n"⟩ := by
  decide +kernel

end ConfigText

end TerraIndex
