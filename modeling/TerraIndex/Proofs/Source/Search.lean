import TerraIndex.Proofs.Json.Layout
import TerraIndex.Proofs.Source.Pattern
/-!
# Searching an indented text line by line

Both scanners go through the lines of a text, pass over those that open no container and read a
container they come to before they go on behind it. Over an indented text such a search finds what
it finds first among the containers of the value, in document order (`search_text`).
-/

namespace TerraIndex

open Json Json.Indent
open Text (quoteMinimal lastLine)

namespace Json.Indent

variable (style : Indent)

/-- What the first line of a value holds of it and of what stands behind it. -/
def openingText (back : List Char) : Raw → List Char
  | .list items => if items.isEmpty then '[' :: ']' :: back else ['[']
  | .tuple items => if items.isEmpty then '[' :: ']' :: back else ['[']
  | .map entries => if entries.isEmpty then '\x7b' :: '\x7d' :: back else ['\x7b']
  | v => style.leafText v ++ back

theorem openingText_head (back : List Char) (v : Raw) :
    ∃ c cs, style.openingText back v = c :: cs ∧ Text.isBlank c = false
      ∧ isOpening c = v.isNested ∧ (c == '\x7b') = v.isMap := by
  have hbox : ∀ (isEmpty : Bool) {o c : Char}, Delimiters o c →
      ∃ d ds, (if isEmpty then o :: c :: back else [o]) = d :: ds ∧ Text.isBlank d = false
        ∧ isOpening d = true ∧ (d == '\x7b') = (o == '\x7b') := by
    intro isEmpty o c hd
    have hblank := (hd.solid o (by simp)).1
    cases isEmpty
    · exact ⟨_, _, rfl, hblank, hd.isOpening_left, rfl⟩
    · exact ⟨_, _, rfl, hblank, hd.isOpening_left, rfl⟩
  have hleaf : ∃ c cs, style.leafText v ++ back = c :: cs ∧ Text.isBlank c = false
      ∧ isOpening c = false ∧ (c == '\x7b') = false := by
    obtain ⟨c, cs, h, hblank, ho⟩ := style.leafText_head v
    refine ⟨c, cs ++ back, by rw [h]; rfl, hblank, ho, ?_⟩
    simp only [isOpening, Bool.or_eq_false_iff] at ho
    exact ho.1
  cases v with
  | list items => exact hbox items.isEmpty .list
  | tuple items => exact hbox items.isEmpty .list
  | map entries => exact hbox entries.isEmpty .map
  | null => exact hleaf
  | bool => exact hleaf
  | int => exact hleaf
  | float => exact hleaf
  | text => exact hleaf
  | other => exact hleaf

/-- The text of a list or map begins with its bracket. -/
theorem valueText_nested {v : Raw} (level : Nat) (h : v.isNested = true) :
    ∃ b t, style.valueText level v = b :: t ∧ isOpening b = true := by
  have hbox : ∀ (isEmpty : Bool) (inner : List Char) {o c : Char}, Delimiters o c →
      ∃ b t, style.bracketed level o c isEmpty inner = b :: t ∧ isOpening b = true := by
    intro isEmpty inner o c hd
    cases isEmpty
    · exact ⟨_, _, rfl, hd.isOpening_left⟩
    · exact ⟨_, _, rfl, hd.isOpening_left⟩
  cases v with
  | list items => exact hbox _ _ .list
  | tuple items => exact hbox _ _ .list
  | map entries => exact hbox _ _ .map
  | _ => simp [Raw.isNested] at h

theorem margin_blank (level : Nat) : Margin (style.margin level) := fun c hc => by
  rw [List.eq_of_mem_replicate hc]
  decide

/-- No item begins with a key. -/
theorem lacksKey_item {back : List Char} (container : String) (level : Nat) (v : Raw)
    (hback : back = [] ∨ back = [',']) :
    LacksKey container (style.margin level ++ style.openingText back v) := by
  have hblank := (style.margin_blank level).blank
  have hbox : ∀ (isEmpty : Bool) {o c : Char}, Delimiters o c →
      LacksKey container (style.margin level ++ if isEmpty then o :: c :: back else [o]) := by
    intro isEmpty o c hd
    obtain ⟨ho, hq⟩ := hd.solid o (by simp)
    cases isEmpty
    · exact lacksKey_char _ _ hblank ho hq
    · exact lacksKey_char _ _ hblank ho hq
  have hleaf : LacksKey container (style.margin level ++ (style.leafText v ++ back)) := by
    rcases style.leafText_cases v with ⟨s, h⟩ | ⟨c, cs, h, hc, -, hq⟩
    · exact lacksKey_string _ hblank h hback
    · rw [h]
      exact lacksKey_char _ _ hblank hc hq
  cases v with
  | list items => exact hbox items.isEmpty .list
  | tuple items => exact hbox items.isEmpty .list
  | map entries => exact hbox entries.isEmpty .map
  | null => exact hleaf
  | bool => exact hleaf
  | int => exact hleaf
  | float => exact hleaf
  | text => exact hleaf
  | other => exact hleaf

/-- No closing bracket begins with a key. -/
theorem lacksKey_closing {o c : Char} (container : String) (level : Nat) (back : List Char)
    (hd : Delimiters o c) : LacksKey container (style.margin level ++ c :: back) := by
  obtain ⟨hc, hq⟩ := hd.solid c (by simp)
  exact lacksKey_char _ _ (style.margin_blank level).blank hc hq

/-- The key is written like the container's name. -/
def writesKey (container key : String) : Bool :=
  style.quote key.toList == quoteMinimal container.toList

/-- Where the style quotes the name like the pattern, no other key is written like it. -/
theorem writesKey_eq {container : String}
    (h : style.quote container.toList = quoteMinimal container.toList) :
    style.writesKey container = (· == container) := by
  funext key
  rw [Bool.eq_iff_iff, beq_iff_eq, writesKey, beq_iff_eq, ← h]
  constructor
  · intro hquote
    have hkey := style.quoted key.toList
    rw [hquote] at hkey
    exact String.toList_injective (quoted_injective hkey (style.quoted container.toList))
  · rintro rfl
    rfl

theorem lacksKey_member {container key : String} (level : Nat) (t : List Char)
    (h : style.writesKey container key = false) :
    LacksKey container (style.margin level ++ (style.keyText key ++ t)) := by
  have hne : style.quote key.toList ≠ quoteMinimal container.toList := by
    simpa [writesKey] using h
  have hl := lacksKey_quoted container ([':', ' '] ++ t) (style.margin_blank level).blank
    (style.quoted key.toList) hne
  simpa [keyText] using hl

/-- A member under a key opens a container of that key when its value is nested, and a map of that
key when its value is a map. -/
theorem opens_member {container key : String} (level : Nat) (back : List Char) (v : Raw)
    (h : style.writesKey container key = true) :
    opensContainer container (style.margin level ++ (style.keyText key ++ style.openingText back v))
        = v.isNested
      ∧ opensMap container (style.margin level ++ (style.keyText key ++ style.openingText back v))
        = v.isMap := by
  obtain ⟨c, cs, ht, hblank, hnested, hmap⟩ := style.openingText_head back v
  have hkey : style.quote key.toList = quoteMinimal container.toList := by
    simpa [writesKey] using h
  have hnil : Margin [] := by decide
  have hspace : Margin [' '] := by decide
  have hline : style.margin level ++ (style.keyText key ++ style.openingText back v)
      = style.margin level
          ++ (quoteMinimal container.toList ++ ([] ++ ':' :: ([' '] ++ c :: cs))) := by
    rw [ht, keyText, hkey]
    simp
  rw [hline, opensContainer_key container cs (style.margin_blank level) hnil hspace hblank,
    opensMap_key container cs (style.margin_blank level) hnil hspace hblank]
  exact ⟨hnested, hmap⟩

end Json.Indent

/-- The property of a value is one of all values in it. -/
structure Raw.Hereditary (ok : Raw → Prop) : Prop where
  list : ∀ {items : List Raw}, ok (.list items) → ∀ item ∈ items, ok item
  tuple : ∀ {items : List Raw}, ok (.tuple items) → ∀ item ∈ items, ok item
  map : ∀ {entries : List (String × Raw)}, ok (.map entries) → ∀ entry ∈ entries, ok entry.2

/-- `search above rest` looks for the first container with a result in `rest`, which stands below
the lines of `above`. It passes over lines that open no container, and behind a container without a
result it goes on; `found` is the result of a container with the property `ok`. -/
structure LineSearch (style : Indent) (container : String) (ok : Raw → Prop) {α : Type}
    (search : List Char → List Char → Option α) (found : Placed → Option α) : Prop where
  hereditary : Raw.Hereditary ok
  done : ∀ above, search above [] = none
  skip : ∀ {line : List Char} (above rest : List Char), NoControls line →
    opensContainer container line = false →
    search above (line ++ '\n' :: rest) = search (above ++ (line ++ ['\n'])) rest
  leaf : ∀ {p : Placed}, p.value.isNested = false → found p = none
  enter : ∀ {key : String} {v : Raw} {back above : List Char} (rest : List Char) (level : Nat),
    style.writesKey container key = true → v.isNested = true → ok v → Inline back →
    lastLine above = [] →
    search above (style.margin level ++ (style.keyText key
        ++ (style.valueText level v ++ (back ++ '\n' :: rest))))
      = (found ⟨above.count '\n', v⟩).or (search (above ++ (style.margin level
          ++ (style.keyText key ++ (style.valueText level v ++ (back ++ ['\n']))))) rest)

namespace LineSearch

variable {style : Indent} {container : String} {ok : Raw → Prop} {α : Type}
  {search : List Char → List Char → Option α} {found : Placed → Option α}

theorem count_line {line : List Char} (above : List Char) (h : NoControls line) :
    (above ++ (line ++ ['\n'])).count '\n' = above.count '\n' + 1 := by
  simp [count_newline h]

/-- A line that holds a whole value. -/
theorem search_inline (hs : LineSearch style container ok search found)
    {front t back : List Char} (above rest : List Char) (hfront : Inline front) (ht : Inline t)
    (hback : Inline back)
    (hfirst : opensContainer container (front ++ (t ++ back)) = false) :
    search above (front ++ (t ++ (back ++ '\n' :: rest)))
      = search (above ++ (front ++ (t ++ (back ++ ['\n'])))) rest := by
  have h := hs.skip above rest (hfront.append (ht.append hback)).1 hfirst
  simpa using h

theorem search_box (hs : LineSearch style container ok search found)
    {front back inner : List Char} {o c : Char} (result : Nat → Option α) (level : Nat)
    (isEmpty : Bool) (above rest : List Char) (hd : Delimiters o c) (hfront : Inline front)
    (hback : Inline back)
    (hfirst : opensContainer container (front ++ if isEmpty then o :: c :: back else [o]) = false)
    (hempty : isEmpty = true → ∀ n, result n = none)
    (hinner : ∀ {above} rest, lastLine above = [] → search above (inner ++ rest)
      = (result (above.count '\n')).or (search (above ++ inner) rest)) :
    search above (front ++ (style.bracketed level o c isEmpty inner ++ (back ++ '\n' :: rest)))
      = (result (above.count '\n' + 1)).or (search (above
          ++ (front ++ (style.bracketed level o c isEmpty inner ++ (back ++ ['\n'])))) rest) := by
  unfold bracketed
  cases isEmpty with
  | true =>
    have hline := noControls_append hfront.1 (noControls_append hd.noControls hback.1)
    have h := hs.skip above rest hline hfirst
    rw [hempty rfl, Option.none_or]
    simpa using h
  | false =>
    have hopen := noControls_append hfront.1 hd.noControls_left
    have hclose : NoControls (style.margin level ++ c :: back) :=
      noControls_append (style.inline_margin level).1
        (noControls_append hd.noControls_right hback.1)
    have hlast := style.lacksKey_closing container level back hd
    have h := hs.skip above (inner ++ ((style.margin level ++ c :: back) ++ '\n' :: rest)) hopen
      hfirst
    rw [hinner _ (Text.lastLine_below _ _), hs.skip _ rest hclose hlast.opensContainer,
      count_line above hopen] at h
    simpa using h

theorem search_leaf (hs : LineSearch style container ok search found) {front back : List Char}
    {v : Raw} (above rest : List Char) (hfront : Inline front) (hback : Inline back)
    (hfirst : opensContainer container (front ++ (style.leafText v ++ back)) = false) :
    search above (front ++ (style.leafText v ++ (back ++ '\n' :: rest)))
      = (none : Option α).or
          (search (above ++ (front ++ (style.leafText v ++ (back ++ ['\n'])))) rest) := by
  rw [Option.none_or]
  exact hs.search_inline above rest hfront (style.inline_leafText v) hback hfirst

theorem occurrences_leaf (p : String → Bool) (above : Nat) {v : Raw} (h : v.isNested = false) :
    occurrences p above v = [] := by
  cases v <;> first | rfl | simp [Raw.isNested] at h

/-- A member is a container itself or is searched for containers. -/
theorem search_member (hs : LineSearch style container ok search found) {key : String} {value : Raw}
    {back above : List Char} (level : Nat) (rest : List Char) (hok : ok value)
    (habove : lastLine above = []) (hback : Inline back)
    (hvalue : opensContainer container (style.margin level ++ style.keyText key
        ++ style.openingText back value) = false →
      search above (style.margin level ++ style.keyText key
          ++ (style.valueText level value ++ (back ++ '\n' :: rest)))
        = ((occurrences (style.writesKey container) (above.count '\n') value).findSome? found).or
            (search (above ++ (style.margin level ++ style.keyText key
              ++ (style.valueText level value ++ (back ++ ['\n'])))) rest)) :
    search above (style.margin level ++ (style.keyText key
        ++ (style.valueText level value ++ (back ++ '\n' :: rest))))
      = ((if style.writesKey container key then [⟨above.count '\n', value⟩]
          else occurrences (style.writesKey container) (above.count '\n') value).findSome? found).or
            (search (above ++ (style.margin level ++ (style.keyText key
              ++ (style.valueText level value ++ (back ++ ['\n']))))) rest) := by
  simp only [List.append_assoc] at hvalue
  cases hk : style.writesKey container key with
  | false => exact hvalue (style.lacksKey_member level _ hk).opensContainer
  | true =>
    have hopens := (style.opens_member level back value hk).1
    rw [if_pos rfl, List.findSome?_singleton]
    cases hn : value.isNested with
    | false =>
      have hfound : found ⟨above.count '\n', value⟩ = none := hs.leaf hn
      have h := hvalue (by rw [hopens, hn])
      rw [occurrences_leaf _ _ hn] at h
      rw [hfound]
      exact h
    | true => exact hs.enter rest level hk hn hok hback habove

mutual

theorem search_value (hs : LineSearch style container ok search found) :
    ∀ (v : Raw) (level : Nat) {front back above : List Char} (rest : List Char), ok v →
    lastLine above = [] → Inline front → Inline back → back = [] ∨ back = [','] →
    opensContainer container (front ++ style.openingText back v) = false →
    search above (front ++ (style.valueText level v ++ (back ++ '\n' :: rest)))
      = ((occurrences (style.writesKey container) (above.count '\n') v).findSome? found).or
          (search (above ++ (front ++ (style.valueText level v ++ (back ++ ['\n'])))) rest)
  | .list items, level, _, _, above, rest, hok, _, hf, hb, _, hfirst =>
    hs.search_box (fun n => (occurrencesItems (style.writesKey container) n items).findSome? found)
      level items.isEmpty above rest .list hf hb hfirst
      (fun h n => by rw [List.isEmpty_iff.mp h]; rfl)
      (search_items hs items (level + 1) (hs.hereditary.list hok))
  | .tuple items, level, _, _, above, rest, hok, _, hf, hb, _, hfirst =>
    hs.search_box (fun n => (occurrencesItems (style.writesKey container) n items).findSome? found)
      level items.isEmpty above rest .list hf hb hfirst
      (fun h n => by rw [List.isEmpty_iff.mp h]; rfl)
      (search_items hs items (level + 1) (hs.hereditary.tuple hok))
  | .map entries, level, _, _, above, rest, hok, _, hf, hb, _, hfirst =>
    hs.search_box
      (fun n => (occurrencesEntries (style.writesKey container) n entries).findSome? found)
      level entries.isEmpty above rest .map hf hb hfirst
      (fun h n => by rw [List.isEmpty_iff.mp h]; rfl)
      (search_members hs entries (level + 1) (hs.hereditary.map hok))
  | .null, _, _, _, above, rest, _, _, hf, hb, _, hfirst =>
    hs.search_leaf (v := .null) above rest hf hb hfirst
  | .bool b, _, _, _, above, rest, _, _, hf, hb, _, hfirst =>
    hs.search_leaf (v := .bool b) above rest hf hb hfirst
  | .int n, _, _, _, above, rest, _, _, hf, hb, _, hfirst =>
    hs.search_leaf (v := .int n) above rest hf hb hfirst
  | .float x, _, _, _, above, rest, _, _, hf, hb, _, hfirst =>
    hs.search_leaf (v := .float x) above rest hf hb hfirst
  | .text s, _, _, _, above, rest, _, _, hf, hb, _, hfirst =>
    hs.search_leaf (v := .text s) above rest hf hb hfirst
  | .other typeName, _, _, _, above, rest, _, _, hf, hb, _, hfirst =>
    hs.search_leaf (v := .other typeName) above rest hf hb hfirst

theorem search_items (hs : LineSearch style container ok search found) :
    ∀ (items : List Raw) (level : Nat), (∀ item ∈ items, ok item) →
    ∀ {above : List Char} (rest : List Char), lastLine above = [] →
    search above (style.itemsText level items ++ rest)
      = ((occurrencesItems (style.writesKey container) (above.count '\n') items).findSome? found).or
          (search (above ++ style.itemsText level items) rest)
  | [], _, _, above, rest, _ => by simp [itemsText, occurrencesItems]
  | item :: items, level, hok, above, rest, habove => by
    obtain ⟨hokItem, hokItems⟩ := List.forall_mem_cons.mp hok
    have hcomma : comma items = [] ∨ comma items = [','] := by cases items <;> simp [comma]
    have hitem := search_value hs item level (style.itemsText level items ++ rest) hokItem habove
      (style.inline_margin level) (inline_comma items) hcomma
      (style.lacksKey_item container level item hcomma).opensContainer
    have hbelow : lastLine (above ++ (style.margin level ++ (style.valueText level item
        ++ (comma items ++ ['\n'])))) = [] := by
      simpa using Text.lastLine_below above
        (style.margin level ++ (style.valueText level item ++ comma items))
    have hcount := style.count_lines item level (style.inline_margin level) (inline_comma items)
    rw [search_items hs items level hokItems _ hbelow, List.count_append, hcount, ← Option.or_assoc,
      ← List.findSome?_append] at hitem
    simp only [itemsText, occurrencesItems, List.append_assoc, List.cons_append,
      List.nil_append] at hitem ⊢
    exact hitem

theorem search_members (hs : LineSearch style container ok search found) :
    ∀ (entries : List (String × Raw)) (level : Nat), (∀ entry ∈ entries, ok entry.2) →
    ∀ {above : List Char} (rest : List Char), lastLine above = [] →
    search above (style.membersText level entries ++ rest)
      = ((occurrencesEntries (style.writesKey container) (above.count '\n') entries).findSome?
          found).or (search (above ++ style.membersText level entries) rest)
  | [], _, _, above, rest, _ => by simp [membersText, occurrencesEntries]
  | (key, value) :: entries, level, hok, above, rest, habove => by
    obtain ⟨hokValue, hokEntries⟩ := List.forall_mem_cons.mp hok
    have hcomma : comma entries = [] ∨ comma entries = [','] := by cases entries <;> simp [comma]
    have hfront := (style.inline_margin level).append (style.inline_keyText key)
    have hmember := search_member hs level (style.membersText level entries ++ rest) hokValue habove
      (inline_comma entries)
      (search_value hs value level _ hokValue habove hfront (inline_comma entries) hcomma)
    have hbelow : lastLine (above ++ (style.margin level ++ (style.keyText key
        ++ (style.valueText level value ++ (comma entries ++ ['\n']))))) = [] := by
      simpa using Text.lastLine_below above (style.margin level
        ++ (style.keyText key ++ (style.valueText level value ++ comma entries)))
    have hcount := style.count_lines value level hfront (inline_comma entries)
    rw [List.append_assoc] at hcount
    rw [search_members hs entries level hokEntries _ hbelow, List.count_append, hcount,
      ← Option.or_assoc, ← List.findSome?_append] at hmember
    simp only [membersText, occurrencesEntries, List.append_assoc, List.cons_append,
      List.nil_append] at hmember ⊢
    exact hmember

end

/-- Over an indented text, a search finds what it finds first among the containers in it. -/
theorem search_text (hs : LineSearch style container ok search found) {v : Raw} (hok : ok v) :
    search [] (style.text v ++ ['\n'])
      = (occurrences (style.writesKey container) 0 v).findSome? found := by
  have hfirst : opensContainer container (style.openingText [] v) = false := by
    have h := style.lacksKey_item container 0 v (.inl rfl)
    rw [margin, Nat.zero_mul] at h
    exact h.opensContainer
  have habove : lastLine ([] : List Char) = [] := rfl
  have h := hs.search_value v 0 [] hok habove inline_nil inline_nil (.inl rfl) hfirst
  rw [hs.done, Option.or_none] at h
  exact h

end LineSearch

end TerraIndex
