import TerraIndex.Source.NamedChild
import TerraIndex.Proofs.Json.Occurrences
import TerraIndex.Proofs.Source.ResourceList
import TerraIndex.Proofs.Source.Search
/-!
# Named children of an indented text

Over an indented text `NamedChild.locate` agrees with a walk of the value (`locate_indented`): it
finds the first map stored under the name directly in a map stored under the container's key. The
bracket depth returns to that of the container behind every value in it and is greater on the
lines in between (`Inside`), so a member begins exactly where the depth is one.
-/

namespace TerraIndex

open Json Json.Indent
open Text (scanLines)

section Depth

theorem foldr_bracketsFrom (state : QuoteState) (cs : List Char) (column column' : Nat) :
    (bracketsFrom column state cs).foldr (fun (_, c) deeper => bracketStep c + deeper) 0
      = (bracketsFrom column' state cs).foldr (fun (_, c) deeper => bracketStep c + deeper) 0 := by
  induction cs generalizing state column column' with
  | nil => cases state <;> rfl
  | cons c cs ih =>
    cases state with
    | escaped => exact ih _ _ _
    | inside => exact ih _ _ _
    | outside =>
      simp only [bracketsFrom]
      split_ifs
      · exact ih _ _ _
      · simp only [List.foldr_cons]
        rw [ih]
      · exact ih _ _ _

theorem nestingDelta_eq (column : Nat) (line : List Char) :
    nestingDelta line = (bracketsFrom column .outside line).foldr
      (fun (_, c) deeper => bracketStep c + deeper) 0 := foldr_bracketsFrom _ _ _ _

theorem nestingDelta_quiet {q : List Char} (t : List Char) (hq : Quiet q) :
    nestingDelta (q ++ t) = nestingDelta t := by
  rw [nestingDelta_eq 0, hq.2, ← nestingDelta_eq]

theorem nestingDelta_of_quiet {q : List Char} (hq : Quiet q) : nestingDelta q = 0 := by
  rw [← List.append_nil q, nestingDelta_quiet _ hq]
  rfl

theorem nestingDelta_bracket {c : Char} (t : List Char) (hc : (isOpening c || isClosing c) = true) :
    nestingDelta (c :: t) = bracketStep c + nestingDelta t := by
  rw [nestingDelta_eq 0, ResourceList.bracketsFrom_bracket _ _ hc, List.foldr_cons,
    ← nestingDelta_eq]

/-- From the given depth, the lines lead to depth zero, and to no depth below one before. -/
def Inside : Int → List (List Char) → Prop
  | depth, [] => depth = 0
  | depth, line :: lines => 0 < depth ∧ Inside (depth + nestingDelta line) lines

theorem Inside.nonneg {depth : Int} {lines : List (List Char)} (h : Inside depth lines) :
    0 ≤ depth := by
  cases lines with
  | nil => exact Int.le_of_eq (Eq.symm h)
  | cons line lines => exact Int.le_of_lt h.1

theorem Inside.append {depth k : Int} {lines more : List (List Char)} (h : Inside depth lines)
    (hk : 0 < k) (hmore : Inside k more) : Inside (depth + k) (lines ++ more) := by
  induction lines generalizing depth with
  | nil =>
    rw [show depth = 0 from h, Int.zero_add]
    exact hmore
  | cons line lines ih =>
    obtain ⟨hd, hlines⟩ := h
    refine ⟨by omega, ?_⟩
    have := ih hlines
    rwa [show depth + nestingDelta line + k = depth + k + nestingDelta line by omega] at this

end Depth

namespace Json.Indent

variable (style : Indent)

/-- The lines bring the depth back to where it is in front of them, and not below it before. -/
def Level (lines : List (List Char)) : Prop :=
  ∀ {depth : Int} {more : List (List Char)}, 0 < depth → Inside depth more →
    Inside depth (lines ++ more)

/-- A value begins with its opening text, from where its lines lead back up. -/
def Framed (lines : List (List Char)) (first : List Char) : Prop :=
  ∃ after, lines = first :: after ∧ Inside (nestingDelta first) after

theorem Framed.level {lines : List (List Char)} {first : List Char} (h : Framed lines first) :
    Level lines := by
  obtain ⟨after, rfl, hafter⟩ := h
  intro depth more hd hmore
  have := hafter.append hd hmore
  rw [Int.add_comm] at this
  exact ⟨hd, this⟩

theorem nestingDelta_opening {o c : Char} (t : List Char) (hd : Delimiters o c) :
    nestingDelta (o :: t) = 1 + nestingDelta t := by
  rw [nestingDelta_bracket t (by simp [hd.isOpening_left]), bracketStep, if_pos hd.isOpening_left]

theorem nestingDelta_closing {o c : Char} (t : List Char) (hd : Delimiters o c) :
    nestingDelta (c :: t) = -1 + nestingDelta t := by
  rw [nestingDelta_bracket t (by simp [hd.isClosing_right]), bracketStep,
    if_neg (by simp [hd.isOpening_right])]

theorem nestingDelta_first {front back : List Char} {o c : Char} (isEmpty : Bool)
    (hd : Delimiters o c) (hfront : Inline front) (hback : Inline back) :
    nestingDelta (front ++ if isEmpty then o :: c :: back else [o]) = if isEmpty then 0 else 1 := by
  rw [nestingDelta_quiet _ hfront.2]
  cases isEmpty with
  | true =>
    rw [if_pos rfl, if_pos rfl, nestingDelta_opening _ hd, nestingDelta_closing _ hd,
      nestingDelta_of_quiet hback.2]
    rfl
  | false =>
    rw [if_neg Bool.false_ne_true, if_neg Bool.false_ne_true, nestingDelta_opening _ hd]
    rfl

theorem nestingDelta_last {back : List Char} {o c : Char} (level : Nat) (hd : Delimiters o c)
    (hback : Inline back) : nestingDelta (style.margin level ++ c :: back) = -1 := by
  rw [nestingDelta_quiet _ (style.inline_margin level).2, nestingDelta_closing _ hd,
    nestingDelta_of_quiet hback.2]
  rfl

theorem framed_box {front back : List Char} {o c : Char} {inner : List (List Char)} (level : Nat)
    (isEmpty : Bool) (hd : Delimiters o c) (hfront : Inline front) (hback : Inline back)
    (hinner : Level inner) :
    Framed (style.boxLines level front back o c isEmpty inner)
      (front ++ if isEmpty then o :: c :: back else [o]) := by
  have hfirst := nestingDelta_first isEmpty hd hfront hback
  unfold boxLines
  cases isEmpty with
  | true => exact ⟨[], rfl, hfirst⟩
  | false =>
    refine ⟨_, rfl, ?_⟩
    rw [hfirst]
    refine hinner (by decide) ⟨by decide, ?_⟩
    rw [style.nestingDelta_last level hd hback]
    rfl

theorem framed_inline {front t back : List Char} (hfront : Inline front) (ht : Inline t)
    (hback : Inline back) : Framed [front ++ (t ++ back)] (front ++ (t ++ back)) :=
  ⟨[], rfl, nestingDelta_of_quiet (hfront.append (ht.append hback)).2⟩

mutual

theorem framed_value : ∀ (v : Raw) (level : Nat) {front back : List Char}, Inline front →
    Inline back →
    Framed (style.valueLines level front back v) (front ++ style.openingText back v)
  | .list items, level, _, _, hf, hb =>
    style.framed_box level items.isEmpty .list hf hb
      (level_items items (level + 1))
  | .tuple items, level, _, _, hf, hb =>
    style.framed_box level items.isEmpty .list hf hb
      (level_items items (level + 1))
  | .map entries, level, _, _, hf, hb =>
    style.framed_box level entries.isEmpty .map hf hb
      (level_members entries (level + 1))
  | .null, _, _, _, hf, hb => framed_inline hf (style.inline_leafText .null) hb
  | .bool b, _, _, _, hf, hb => framed_inline hf (style.inline_leafText (.bool b)) hb
  | .int n, _, _, _, hf, hb => framed_inline hf (style.inline_leafText (.int n)) hb
  | .float x, _, _, _, hf, hb => framed_inline hf (style.inline_leafText (.float x)) hb
  | .text s, _, _, _, hf, hb => framed_inline hf (style.inline_leafText (.text s)) hb
  | .other typeName, _, _, _, hf, hb =>
    framed_inline hf (style.inline_leafText (.other typeName)) hb

theorem level_items : ∀ (items : List Raw) (level : Nat), Level (style.itemsLines level items)
  | [], _ => fun _ hmore => hmore
  | item :: items, level => fun hd hmore => by
    rw [itemsLines, List.append_assoc]
    exact (framed_value item level (style.inline_margin level) (inline_comma items)).level hd
      (level_items items level hd hmore)

theorem level_members : ∀ (entries : List (String × Raw)) (level : Nat),
    Level (style.membersLines level entries)
  | [], _ => fun _ hmore => hmore
  | (key, value) :: entries, level => fun hd hmore => by
    rw [membersLines, List.append_assoc]
    exact (framed_value value level ((style.inline_margin level).append (style.inline_keyText key))
      (inline_comma entries)).level hd (level_members entries level hd hmore)

end

end Json.Indent

/-- The maps directly in a map that stand under a key that `q` accepts. -/
def mapsUnder (q : String → Bool) (above : Nat) : List (String × Raw) → List Placed
  | [] => []
  | (key, value) :: rest =>
    (if q key && value.isMap then [⟨above, value⟩] else [])
      ++ mapsUnder q (above + value.height) rest

/-- The maps directly in a value, if it is a map, under a key that `q` accepts. -/
def Placed.mapsUnder (q : String → Bool) (p : Placed) : List Placed :=
  match p.value with
  | .map entries => TerraIndex.mapsUnder q (p.above + 1) entries
  | _ => []

/-- The maps under keys that `name` accepts, in the maps under those that `container` accepts. -/
def childrenUnder (container name : String → Bool) (v : Raw) : List Placed :=
  (occurrences container 0 v).flatMap (·.mapsUnder name)

theorem key_of_mapsUnder {q : String → Bool} : ∀ {entries : List (String × Raw)} {n : Nat}
    {p : Placed}, p ∈ mapsUnder q n entries →
    p.value.isMap = true ∧ ∃ key, q key = true ∧ (key, p) ∈ placedEntries n entries
  | [], _, _, h => absurd h List.not_mem_nil
  | (key, value) :: entries, n, p, h => by
    rcases List.mem_append.mp h with h | h
    · split_ifs at h with hkey
      · rw [Bool.and_eq_true] at hkey
        obtain rfl := List.mem_singleton.mp h
        exact ⟨hkey.2, key, hkey.1, List.mem_cons_self ..⟩
      · exact absurd h List.not_mem_nil
    · obtain ⟨hmap, other, hother, hp⟩ := key_of_mapsUnder h
      exact ⟨hmap, other, hother, List.mem_cons_of_mem _ hp⟩

theorem mapsUnder_contents {q : String → Bool} {entries : List (String × Raw)} {n : Nat}
    {p : Placed} (h : p ∈ mapsUnder q n entries) : p ∈ (placedEntries n entries).map Prod.snd :=
  have ⟨_, key, _, hp⟩ := key_of_mapsUnder h
  List.mem_map.mpr ⟨(key, p), hp, rfl⟩

theorem childrenUnder_within (container name : String → Bool) {v : Raw} {p : Placed}
    (h : p ∈ childrenUnder container name v) : Placed.Within ⟨0, v⟩ p := by
  obtain ⟨⟨n, w⟩, hw, hp⟩ := List.mem_flatMap.mp h
  refine .inside (occurrences_within container v 0 hw) ?_
  cases w with
  | map entries => exact mapsUnder_contents hp
  | _ => simp [Placed.mapsUnder] at hp

namespace NamedChild

variable (child : NamedChild) (style : Indent)

section InsideContainer

/-- Where the depth stays below that of the container's members, no member begins. -/
theorem scan_inContainer {depth d : Int} {lines : List (List Char)} (n : Nat)
    (rest : List (List Char)) (h : Inside depth lines) (hd : 1 ≤ d) :
    child.scan (.inContainer (d + depth)) n (lines ++ rest)
      = child.scan (.inContainer d) (n + lines.length) rest := by
  induction lines generalizing depth n with
  | nil =>
    rw [show depth = 0 from h, Int.add_zero]
    rfl
  | cons line lines ih =>
    obtain ⟨hdepth, hlines⟩ := h
    have hnext := hlines.nonneg
    rw [List.cons_append, scan, if_neg (by omega), if_neg (by omega), Int.add_assoc,
      ih (n + 1) hlines, List.length_cons]
    congr 1
    omega

/-- The child ends with the line that brings the depth back to that of the container's members. -/
theorem scan_inChild {depth : Int} {lines : List (List Char)} (start n : Nat)
    (rest : List (List Char)) (h : Inside depth lines) (hdepth : 0 < depth) :
    child.scan (.inChild start (1 + depth)) n (lines ++ rest)
      = some (start, n + lines.length - 1) := by
  induction lines generalizing depth n with
  | nil =>
    have : depth = 0 := h
    omega
  | cons line lines ih =>
    obtain ⟨-, hlines⟩ := h
    rw [List.cons_append, scan]
    by_cases hlast : 0 < depth + nestingDelta line
    · rw [if_neg (by omega), Int.add_assoc, ih (n + 1) hlines hlast, List.length_cons]
      congr 2
      omega
    · have hzero : depth + nestingDelta line = 0 := by
        have := hlines.nonneg
        omega
      have hnil : lines = [] := by
        cases lines with
        | nil => rfl
        | cons next lines =>
          have := hlines.1
          omega
      rw [if_pos (by omega), hnil]
      simp

/-- A value that is not the child is passed over. -/
theorem scan_pass {lines : List (List Char)} {first : List Char} (n : Nat)
    (rest : List (List Char)) (h : Framed lines first)
    (hopens : opensMap child.name first = false) :
    child.scan (.inContainer 1) n (lines ++ rest)
      = child.scan (.inContainer 1) (n + lines.length) rest := by
  obtain ⟨after, rfl, hafter⟩ := h
  have hnext := hafter.nonneg
  rw [List.cons_append, scan, if_neg (by simp [hopens]), if_neg (by omega),
    child.scan_inContainer (n + 1) rest hafter (by omega), List.length_cons]
  congr 1
  omega

/-- A member that is the child is found. -/
theorem scan_child {lines : List (List Char)} {first : List Char} (n : Nat)
    (rest : List (List Char)) (h : Framed lines first) (hopens : opensMap child.name first = true) :
    child.scan (.inContainer 1) n (lines ++ rest) = some (n, n + lines.length - 1) := by
  obtain ⟨after, rfl, hafter⟩ := h
  rw [List.cons_append, scan, if_pos ⟨rfl, hopens⟩]
  by_cases hdelta : 0 < nestingDelta first
  · rw [if_neg (by omega), child.scan_inChild n (n + 1) rest hafter hdelta, List.length_cons]
    congr 2
    omega
  · have hzero : nestingDelta first = 0 := by
      have := hafter.nonneg
      omega
    have hnil : after = [] := by
      cases after with
      | nil => rfl
      | cons next after =>
        have := hafter.1
        omega
    rw [if_pos (by omega), hnil]
    simp

theorem scan_items : ∀ (items : List Raw) (level n : Nat) (rest : List (List Char)),
    child.scan (.inContainer 1) n (style.itemsLines level items ++ rest)
      = child.scan (.inContainer 1) (n + heightItems items) rest
  | [], _, _, _ => rfl
  | item :: items, level, n, rest => by
    have hcomma : comma items = [] ∨ comma items = [','] := by cases items <;> simp [comma]
    have hframed := style.framed_value item level (style.inline_margin level) (inline_comma items)
    have hlacks := style.lacksKey_item child.name level item hcomma
    rw [itemsLines, List.append_assoc, child.scan_pass n _ hframed hlacks.opensMap,
      scan_items items level, style.length_valueLines, heightItems, Nat.add_assoc]

theorem scan_members : ∀ (entries : List (String × Raw)) (level above : Nat)
    (rest : List (List Char)),
    child.scan (.inContainer 1) (above + 1) (style.membersLines level entries ++ rest)
      = (((mapsUnder (style.writesKey child.name) above entries).head?).map Placed.lines).or
          (child.scan (.inContainer 1) (above + heightEntries entries + 1) rest)
  | [], _, _, _ => rfl
  | (key, value) :: entries, level, above, rest => by
    have hframed := style.framed_value value level
      ((style.inline_margin level).append (style.inline_keyText key)) (inline_comma entries)
    rw [membersLines, List.append_assoc]
    rw [List.append_assoc] at hframed
    cases hkey : style.writesKey child.name key && value.isMap with
    | true =>
      rw [Bool.and_eq_true] at hkey
      have hopens := (style.opens_member level (comma entries) value hkey.1).2
      rw [hkey.2] at hopens
      rw [child.scan_child (above + 1) _ hframed hopens, style.length_valueLines, mapsUnder,
        hkey.1, hkey.2]
      simp only [Bool.and_self, if_true, List.cons_append, List.head?_cons, Option.map_some,
        Option.some_or, Placed.lines, Option.some.injEq, Prod.mk.injEq, true_and]
      omega
    | false =>
      have hopens : opensMap child.name
          (style.margin level ++ (style.keyText key ++ style.openingText (comma entries) value))
            = false := by
        cases hwrites : style.writesKey child.name key with
        | true =>
          rw [(style.opens_member level (comma entries) value hwrites).2]
          simpa [hwrites] using hkey
        | false => exact (style.lacksKey_member level _ hwrites).opensMap
      have hmembers := scan_members entries level (above + value.height) rest
      rw [child.scan_pass (above + 1) _ hframed hopens, style.length_valueLines, mapsUnder, hkey,
        heightEntries, ← Nat.add_assoc, Nat.add_right_comm, hmembers]
      rfl

end InsideContainer

section Search

theorem lines_mapsUnder_leaf (q : String → Bool) {p : Placed} (h : p.value.isNested = false) :
    p.mapsUnder q = [] := by
  obtain ⟨above, value⟩ := p
  cases value <;> first | rfl | simp [Raw.isNested] at h

theorem scan_box {front back : List Char} {o c : Char} {inner : List (List Char)} {height : Nat}
    {result : Option (Nat × Nat)} (level above : Nat) (isEmpty : Bool) (rest : List (List Char))
    (hd : Delimiters o c) (hfront : Inline front) (hback : Inline back)
    (hopens : opensContainer child.container
      (front ++ if isEmpty then o :: c :: back else [o]) = true)
    (hempty : isEmpty = true → result = none)
    (hinner : ∀ rest, child.scan (.inContainer 1) (above + 1 + 1) (inner ++ rest)
      = result.or (child.scan (.inContainer 1) (above + 1 + height + 1) rest)) :
    child.scan .searching (above + 1) (style.boxLines level front back o c isEmpty inner ++ rest)
      = result.or (child.scan .searching (above + boxHeight isEmpty height + 1) rest) := by
  have hfirst := nestingDelta_first isEmpty hd hfront hback
  unfold boxLines boxHeight
  cases isEmpty with
  | true =>
    simp only [if_true] at hopens hfirst ⊢
    rw [List.singleton_append, scan, hfirst, hopens, hempty rfl]
    rfl
  | false =>
    simp only [Bool.false_eq_true, if_false] at hopens hfirst ⊢
    have hlast := style.lacksKey_closing child.name level back hd
    have hclose : child.scan (.inContainer 1) (above + 1 + height + 1)
        ((style.margin level ++ c :: back) :: rest)
        = child.scan .searching (above + 1 + height + 1 + 1) rest := by
      rw [scan, style.nestingDelta_last level hd hback, if_neg (by simp [hlast.opensMap]),
        if_pos (by decide)]
    rw [List.cons_append, scan, hfirst, hopens]
    simp only [Bool.true_and, decide_true, if_true, Int.zero_lt_one, List.append_assoc,
      List.singleton_append]
    rw [hinner, hclose]
    congr 2
    omega

/-- A container is left behind with its last line unless it holds the child. -/
theorem scan_container {key : String} {v : Raw} {back : List Char} (level above : Nat)
    (rest : List (List Char)) (hkey : style.writesKey child.container key = true)
    (hv : v.isNested = true) (hback : Inline back) :
    child.scan .searching (above + 1)
        (style.valueLines level (style.margin level ++ style.keyText key) back v ++ rest)
      = ((((⟨above, v⟩ : Placed).mapsUnder (style.writesKey child.name)).head?).map Placed.lines).or
          (child.scan .searching (above + v.height + 1) rest) := by
  have hfront := (style.inline_margin level).append (style.inline_keyText key)
  have hopens := (style.opens_member level back v hkey).1
  rw [hv, ← List.append_assoc] at hopens
  cases v with
  | list items =>
    exact child.scan_box style level above items.isEmpty rest .list hfront hback hopens
      (fun _ => rfl) fun rest => by
        rw [child.scan_items style items]
        congr 1
        omega
  | tuple items =>
    exact child.scan_box style level above items.isEmpty rest .list hfront hback hopens
      (fun _ => rfl) fun rest => by
        rw [child.scan_items style items]
        congr 1
        omega
  | map entries =>
    exact child.scan_box style level above entries.isEmpty rest .map hfront hback hopens
      (fun h => by rw [List.isEmpty_iff.mp h]; rfl)
      (child.scan_members style entries (level + 1) (above + 1))
  | _ => simp [Raw.isNested] at hv

theorem lineSearch : LineSearch style child.container (fun _ => True)
    (fun above rest => child.scan .searching (above.count '\n' + 1) (scanLines rest))
    (fun p => ((p.mapsUnder (style.writesKey child.name)).head?).map Placed.lines) where
  hereditary := ⟨fun _ _ _ => trivial, fun _ _ _ => trivial, fun _ _ _ => trivial⟩
  done above := rfl
  skip above rest hline hopens := by
    rw [scanLines_line rest hline, scan, hopens, LineSearch.count_line above hline]
    rfl
  leaf h := by rw [lines_mapsUnder_leaf _ h]; rfl
  enter := by
    intro key v back above rest level hkey hv _ hback _
    have hfront := (style.inline_margin level).append (style.inline_keyText key)
    have hlines := style.scanLines_value v level rest hfront hback
    have hcount := style.count_lines v level hfront hback
    rw [List.append_assoc] at hlines hcount
    rw [hlines, child.scan_container style level _ _ hkey hv hback, List.count_append, hcount]

/-- Over an indented text, the child is the first map under the name in a map that is stored under
the container's key, and its lines are those from its key to its closing brace. -/
theorem locate_indented (v : Raw) :
    child.locate (style.text v)
      = match (childrenUnder (style.writesKey child.container) (style.writesKey child.name) v).head?
        with
        | some found => found.span (style.text v)
        | none => .empty := by
  have hsearch := (child.lineSearch style).search_text (v := v) trivial
  have hfound : (occurrences (style.writesKey child.container) 0 v).findSome?
        (fun p => ((p.mapsUnder (style.writesKey child.name)).head?).map Placed.lines)
      = ((childrenUnder (style.writesKey child.container) (style.writesKey child.name) v).head?).map
          Placed.lines := by
    rw [childrenUnder, List.head?_flatMap, List.map_findSome?]
    rfl
  simp only [← style.scanLines_text, List.count_nil, Nat.zero_add] at hsearch
  simp only [locate, hsearch, hfound]
  cases (childrenUnder (style.writesKey child.container) (style.writesKey child.name) v).head? <;>
    rfl

/-- The search of an indented object is a walk of it: of the maps under the name directly in a map
that stands under the container's key, outside other containers, the first one is found. They all
stand on the lines of their spans. -/
theorem locate_minimal (width : Nat) (entries : List (String × Raw)) :
    (child.locate ((Indent.minimal width).text (.map entries))
      = match (childrenUnder (· == child.container) (· == child.name) (.map entries)).head? with
        | some found => found.span ((Indent.minimal width).text (.map entries))
        | none => .empty)
      ∧ ∀ p ∈ childrenUnder (· == child.container) (· == child.name) (.map entries),
        (Indent.minimal width).StandsIn ((Indent.minimal width).text (.map entries)) p := by
  refine ⟨?_, fun p hp => standsIn_within _ (childrenUnder_within _ _ hp)⟩
  rw [locate_indented, writesKey_eq _ rfl, writesKey_eq _ rfl]

end Search

end NamedChild

end TerraIndex
