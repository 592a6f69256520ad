import TerraIndex.Proofs.Hcl.Consumed
import Mathlib.Data.List.DropRight
/-!
# The parts of a body

The items of a body with the tokens that they were read from. Outside of all brackets of a body an
equals sign or an arrow stands only behind the name of one of its attributes (`parseBody_signs`), so
the tokens show where an attribute of a name begins (`partsFrom_above`).
-/

namespace TerraIndex.Hcl

def Item.name : Item → String
  | .attribute name _ => name
  | .block type _ _ _ _ => type

def Item.isBlock : Item → Bool
  | .attribute _ _ => false
  | .block _ _ _ _ _ => true

theorem Item.exists_block : ∀ item : Item, item.isBlock = true →
    ∃ type labels body first last, item = .block type labels body first last
  | .block type labels body first last, _ => ⟨type, labels, body, first, last, rfl⟩

/-- The names of the attributes among items. -/
def attributeNames (items : List Item) : List String :=
  items.filterMap fun item =>
    match item with
    | .attribute name _ => some name
    | .block _ _ _ _ _ => none

theorem attributeNames_append (items more : List Item) :
    attributeNames (items ++ more) = attributeNames items ++ attributeNames more :=
  List.filterMap_append

/-- An item of a body with the tokens from its name on and those behind it. It was read in at most
`fuel` steps down. -/
structure Part where
  item : Item
  fuel : Nat
  front : Tokens
  behind : Tokens

/-- The items that `parseBody` reads. -/
def partsFrom : Nat → Tokens → List Part
  | 0, _ => []
  | fuel + 1, tokens =>
    match skipNewlines tokens with
    | ⟨.word name, line⟩ :: rest =>
      match parseItem fuel name line rest with
      | some (item, left) => ⟨item, fuel, ⟨.word name, line⟩ :: rest, left⟩ :: partsFrom fuel left
      | none => []
    | _ => []

/-- The items in the body of a block. -/
def Part.inside (part : Part) : List Part :=
  match expect .openBrace (skipNewlines (spanLabels part.front.tail).2) with
  | some tokens => partsFrom (part.fuel - 1) tokens
  | none => []

def Located.isNewline (t : Located) : Bool := t.token = .newline

/-- The tokens behind the last one of a part. Some of the newlines among them may have been read
with it. -/
def Part.left (part : Part) : Tokens :=
  let read := part.front.take (part.front.length - part.behind.length)
  part.front.drop (read.rdropWhile Located.isNewline).length

theorem skipNewlines_append {newlines : Tokens} (h : ∀ t ∈ newlines, t.isNewline = true)
    (tokens : Tokens) : skipNewlines (newlines ++ tokens) = skipNewlines tokens := by
  induction newlines with
  | nil => rfl
  | cons t newlines ih =>
    obtain ⟨token, line⟩ := t
    obtain ⟨ht, hrest⟩ := List.forall_mem_cons.mp h
    obtain rfl : token = .newline := of_decide_eq_true ht
    exact ih hrest

/-- Of the tokens that a part was read from, only newlines count as being behind it. -/
theorem Part.left_eq {part : Part} (head : Tokens) (t : Located) {read : Tokens}
    (hfront : part.front = (head ++ t :: read) ++ part.behind) (ht : t.isNewline = false) :
    ∃ own newlines, read = own ++ newlines ∧ (∀ u ∈ newlines, u.isNewline = true)
      ∧ part.left = newlines ++ part.behind := by
  have hread : part.front.take (part.front.length - part.behind.length) = head ++ t :: read := by
    rw [hfront, List.length_append, Nat.add_sub_cancel, List.take_left]
  have hdrop : ∀ more : Tokens, (head ++ t :: more).rdropWhile Located.isNewline
      = head ++ t :: more.rdropWhile Located.isNewline := by
    intro more
    rw [List.rdropWhile, List.reverse_append, List.reverse_cons, List.append_assoc,
      List.dropWhile_append]
    split_ifs with hnone
    · rw [List.singleton_append, List.dropWhile_cons_of_neg (by simp [ht]), List.rdropWhile,
        List.isEmpty_iff.mp hnone]
      simp
    · rw [List.rdropWhile]
      simp
  refine ⟨read.rdropWhile Located.isNewline, read.rtakeWhile Located.isNewline,
    List.rdropWhile_append_rtakeWhile.symm, fun u hu => List.mem_rtakeWhile_imp hu, ?_⟩
  have hsplit : part.front = (head ++ t :: read.rdropWhile Located.isNewline)
      ++ (read.rtakeWhile Located.isNewline ++ part.behind) := by
    rw [hfront, List.append_assoc, List.append_assoc, List.cons_append, List.cons_append,
      ← List.append_assoc (read.rdropWhile _), List.rdropWhile_append_rtakeWhile]
  rw [Part.left, hread, hdrop, hsplit, List.drop_left]

section Signs

/-- Outside of all brackets a sign stands only behind one of the names. -/
structure Signs (names : List String) (tokens : Tokens) : Prop where
  nested : Nested true tokens
  named : ∀ front t left, tokens = front ++ t :: left → nesting front = 0 → t.token.isSign = true →
    ∃ above name line, front = above ++ [⟨.word name, line⟩] ∧ name ∈ names

theorem nesting_of_isSign {t : Token} (h : t.isSign = true) : t.nesting = 0 := by
  unfold Token.isSign at h
  split at h
  · rfl
  · rfl
  · cases h

theorem Nested.nonneg {s : Bool} {tokens : Tokens} (h : Nested s tokens) :
    ∀ {front left : Tokens}, tokens = front ++ left → 0 ≤ nesting front := by
  induction h with
  | nil =>
    intro front left heq
    rw [(List.append_eq_nil_iff.mp heq.symm).1]
    exact Int.le_refl _
  | flat ht _ _ ih =>
    intro front left heq
    rcases front with _ | ⟨u, front⟩
    · exact Int.le_refl _
    · obtain ⟨rfl, htail⟩ := List.cons.inj heq
      rw [nesting_cons, ht, Int.zero_add]
      exact ih htail
  | @box _ o c inner tokens ho hinner hc _ ihinner ih =>
    intro front left heq
    rcases front with _ | ⟨u, front⟩
    · exact Int.le_refl _
    · obtain ⟨rfl, htail⟩ := List.cons.inj heq
      rw [nesting_cons, ho]
      rcases List.append_eq_append_iff.mp htail with ⟨more, hfront, hleft⟩ | ⟨more, hinner', -⟩
      · rcases more with _ | ⟨v, more⟩
        · rw [hfront, List.append_nil, hinner.nesting_eq]
          exact Int.one_nonneg
        · obtain ⟨rfl, hmore⟩ := List.cons.inj hleft
          have hle := ih hmore
          rw [hfront, nesting_append, nesting_cons, hinner.nesting_eq, hc]
          omega
      · have hle := ihinner hinner'
        omega

/-- Where signs stand only inside of brackets. -/
theorem Nested.not_isSign {tokens : Tokens} (h : Nested false tokens) {front left : Tokens}
    {t : Located} (heq : tokens = front ++ t :: left) (hfront : nesting front = 0) :
    t.token.isSign = false := by
  generalize hs : false = s at h
  induction h generalizing front with
  | nil => exact absurd heq.symm (by simp)
  | flat ht hsign _ ih =>
    subst hs
    rcases front with _ | ⟨u, front⟩
    · obtain ⟨rfl, -⟩ := List.cons.inj heq
      rw [Bool.eq_false_iff]
      exact fun h => Bool.false_ne_true (hsign h)
    · obtain ⟨rfl, htail⟩ := List.cons.inj heq
      rw [nesting_cons, ht, Int.zero_add] at hfront
      exact ih htail hfront rfl
  | @box _ o c inner tokens ho hinner hc _ _ ih =>
    rcases front with _ | ⟨u, front⟩
    · obtain ⟨rfl, -⟩ := List.cons.inj heq
      subst hs
      rw [Bool.eq_false_iff]
      intro h
      rw [nesting_of_isSign h] at ho
      cases ho
    · obtain ⟨rfl, htail⟩ := List.cons.inj heq
      rw [nesting_cons, ho] at hfront
      rcases List.append_eq_append_iff.mp htail with ⟨more, rfl, hleft⟩ | ⟨more, hinner', -⟩
      · rcases more with _ | ⟨v, more⟩
        · rw [List.append_nil, hinner.nesting_eq] at hfront
          cases hfront
        · obtain ⟨rfl, hmore⟩ := List.cons.inj hleft
          rw [nesting_append, nesting_cons, hinner.nesting_eq, hc] at hfront
          exact ih hmore (by omega) hs
      · have hle := hinner.nonneg hinner'
        omega

namespace Signs

variable {names others : List String} {tokens more : Tokens}

theorem of_nested (h : Nested false tokens) : Signs [] tokens :=
  ⟨h.allowed, fun _ _ _ heq hfront hsign =>
    absurd ((h.not_isSign heq hfront).symm.trans hsign) Bool.false_ne_true⟩

theorem append (h : Signs names tokens) (hmore : Signs others more) :
    Signs (names ++ others) (tokens ++ more) := by
  refine ⟨h.nested.append hmore.nested, fun front t left heq hfront hsign => ?_⟩
  rcases List.append_eq_append_iff.mp heq with ⟨mid, rfl, hmid⟩ | ⟨mid, htokens, hmid⟩
  · rw [nesting_append, h.nested.nesting_eq, Int.zero_add] at hfront
    obtain ⟨above, name, line, rfl, hname⟩ := hmore.named mid t left hmid hfront hsign
    exact ⟨tokens ++ above, name, line, (List.append_assoc _ _ _).symm,
      List.mem_append_right _ hname⟩
  · rcases mid with _ | ⟨u, mid⟩
    · rw [List.append_nil] at htokens
      obtain ⟨above, name, line, hnil, hname⟩ := hmore.named [] t left hmid.symm rfl hsign
      exact absurd hnil (by simp)
    · obtain ⟨rfl, -⟩ := List.cons.inj hmid
      obtain ⟨above, name, line, hfront, hname⟩ := h.named front t mid htokens hfront hsign
      exact ⟨above, name, line, hfront, List.mem_append_left _ hname⟩

theorem assign {name : String} {line line' : Nat} (h : Nested false tokens) :
    Signs [name] (⟨.word name, line⟩ :: ⟨.mark .assign, line'⟩ :: tokens) := by
  refine ⟨.flat rfl nofun (.flat rfl (fun _ => rfl) h.allowed),
    fun front t left heq hfront hsign => ?_⟩
  rcases front with _ | ⟨u, _ | ⟨v, front⟩⟩
  · obtain ⟨rfl, -⟩ := List.cons.inj heq
    cases hsign
  · obtain ⟨rfl, -⟩ := List.cons.inj heq
    exact ⟨[], name, line, rfl, List.mem_singleton_self name⟩
  · obtain ⟨rfl, htail⟩ := List.cons.inj heq
    obtain ⟨rfl, hinner⟩ := List.cons.inj htail
    rw [nesting_cons, nesting_cons] at hfront
    exact absurd ((h.not_isSign hinner (by simpa [Token.nesting] using hfront)).symm.trans hsign)
      Bool.false_ne_true

end Signs

end Signs

section Bodies

theorem parseBody_newline (n line : Nat) (tokens : Tokens) :
    parseBody (n + 1) (⟨.newline, line⟩ :: tokens) = parseBody (n + 1) tokens := by
  rw [parseBody, parseBody, skipNewlines]

theorem parseBody_closing (n line : Nat) (rest : Tokens) :
    parseBody (n + 1) (⟨.mark .closeBrace, line⟩ :: rest)
      = some ([], ⟨.mark .closeBrace, line⟩ :: rest) := by
  rw [parseBody]
  rfl

theorem parseBody_block {n line last : Nat} {type : String} {labels : List String}
    {body items : List Item} {tokens inner rest left : Tokens}
    (hlabels : spanLabels tokens = (labels, ⟨.mark .openBrace, line⟩ :: inner))
    (hassign : ∀ line rest, tokens ≠ ⟨.mark .assign, line⟩ :: rest)
    (hbody : parseBody n inner = some (body, ⟨.mark .closeBrace, last⟩ :: rest))
    (hrest : parseBody (n + 1) rest = some (items, left)) :
    parseBody (n + 2) (⟨.word type, line⟩ :: tokens)
      = some (.block type labels body line last :: items, left) := by
  rw [parseBody, skipNewlines]
  · simp only
    rw [parseItem]
    · simp [hlabels, skipNewlines, expect, hbody, hrest]
    · exact hassign
  · intro _ _ h
    cases h

theorem spanLabels_passes {s : Bool} : ∀ tokens : Tokens, Passes s tokens (spanLabels tokens).2
  | [] => .refl
  | ⟨t, line⟩ :: tokens => by
    cases t with
    | word name => exact (Passes.flat rfl rfl).trans (spanLabels_passes tokens)
    | quoted content => exact (Passes.flat rfl rfl).trans (spanLabels_passes tokens)
    | _ => exact .refl

theorem parseItem_assign {fuel line line' : Nat} {name : String} {tokens rest : Tokens}
    {item : Item}
    (h : parseItem (fuel + 1) name line (⟨.mark .assign, line'⟩ :: tokens) = some (item, rest)) :
    ∃ value, item = .attribute name value ∧ parseExpr fuel tokens = some (value, rest) := by
  obtain ⟨⟨value, left⟩, hvalue, h⟩ := Option.bind_eq_some_iff.mp h
  obtain ⟨rfl, rfl⟩ := Prod.mk.inj (Option.some.inj h)
  exact ⟨value, rfl, hvalue⟩

theorem parseItem_block {fuel line : Nat} {name : String} {tokens rest : Tokens} {item : Item}
    (hassign : ∀ line rest, tokens ≠ ⟨.mark .assign, line⟩ :: rest)
    (h : parseItem (fuel + 1) name line tokens = some (item, rest)) :
    ∃ body inner last, item = .block name (spanLabels tokens).1 body line last
      ∧ expect .openBrace (skipNewlines (spanLabels tokens).2) = some inner
      ∧ parseBody fuel inner = some (body, ⟨.mark .closeBrace, last⟩ :: rest) := by
  unfold parseItem at h
  split at h
  · exact absurd rfl (hassign _ _)
  · obtain ⟨inner, hinner, h⟩ := Option.bind_eq_some_iff.mp h
    obtain ⟨⟨body, left⟩, hbody, h⟩ := Option.bind_eq_some_iff.mp h
    simp only at h
    split at h
    · obtain ⟨rfl, rfl⟩ := Prod.mk.inj (Option.some.inj h)
      exact ⟨body, inner, _, rfl, hinner, hbody⟩
    · cases h

section Body

variable {fuel : Nat} {tokens stop : Tokens} {items : List Item}

theorem partsFrom_item {name : String} {line : Nat} {rest mid : Tokens} {item : Item}
    (hword : skipNewlines tokens = ⟨.word name, line⟩ :: rest)
    (hitem : parseItem fuel name line rest = some (item, mid)) :
    partsFrom (fuel + 1) tokens
      = ⟨item, fuel, ⟨.word name, line⟩ :: rest, mid⟩ :: partsFrom fuel mid := by
  rw [partsFrom, hword]
  simp only [hitem]

theorem partsFrom_nil (hword : ∀ name line rest, skipNewlines tokens ≠ ⟨.word name, line⟩ :: rest) :
    partsFrom (fuel + 1) tokens = [] := by
  unfold partsFrom
  split
  · rename_i name line rest heq
    exact absurd heq (hword name line rest)
  · rfl

/-- A body goes on with an item, or it ends here. -/
theorem parseBody_cases (h : parseBody (fuel + 1) tokens = some (items, stop)) :
    (∃ name line rest item mid others, skipNewlines tokens = ⟨.word name, line⟩ :: rest
      ∧ parseItem fuel name line rest = some (item, mid) ∧ parseBody fuel mid = some (others, stop)
      ∧ items = item :: others ∧ partsFrom (fuel + 1) tokens
        = ⟨item, fuel, ⟨.word name, line⟩ :: rest, mid⟩ :: partsFrom fuel mid)
    ∨ (items = [] ∧ stop = skipNewlines tokens ∧ partsFrom (fuel + 1) tokens = []) := by
  unfold parseBody at h
  split at h
  · rename_i name line rest heq
    obtain ⟨⟨item, mid⟩, hitem, h⟩ := Option.bind_eq_some_iff.mp h
    obtain ⟨⟨others, last⟩, hothers, h⟩ := Option.bind_eq_some_iff.mp h
    obtain ⟨rfl, rfl⟩ := Prod.mk.inj (Option.some.inj h)
    exact .inl ⟨name, line, rest, item, mid, others, heq, hitem, hothers, rfl,
      partsFrom_item heq hitem⟩
  · rename_i hword
    obtain ⟨rfl, rfl⟩ := Prod.mk.inj (Option.some.inj h)
    exact .inr ⟨rfl, rfl, partsFrom_nil hword⟩

end Body

mutual

/-- The tokens of a body: signs outside of brackets stand behind the names of its attributes. -/
theorem parseBody_signs : ∀ (fuel : Nat) {tokens rest : Tokens} {items : List Item},
    parseBody fuel tokens = some (items, rest) →
    ∃ read, tokens = read ++ rest ∧ Signs (attributeNames items) read
  | fuel + 1, tokens, rest, items, h => by
    obtain ⟨newlines, hnewlines, hnested⟩ := skipNewlines_passes (s := false) tokens
    obtain ⟨name, line, left, item, mid, others, heq, hitem, hothers, rfl, -⟩ | ⟨rfl, rfl, -⟩ :=
      parseBody_cases h
    · obtain ⟨read, rfl, hread⟩ := parseItem_signs fuel hitem
      obtain ⟨more, rfl, hmore⟩ := parseBody_signs fuel hothers
      refine ⟨newlines ++ (⟨.word name, line⟩ :: read ++ more), ?_, ?_⟩
      · rw [hnewlines, heq]
        simp
      · rw [← List.singleton_append, attributeNames_append]
        exact (Signs.of_nested hnested).append (hread.append hmore)
    · exact ⟨newlines, hnewlines, .of_nested hnested⟩

theorem parseItem_signs : ∀ (fuel : Nat) {name : String} {line : Nat} {tokens rest : Tokens}
    {item : Item}, parseItem fuel name line tokens = some (item, rest) →
    ∃ read, tokens = read ++ rest ∧ Signs (attributeNames [item]) (⟨.word name, line⟩ :: read)
  | fuel + 1, name, line, tokens, rest, item, h => by
    by_cases hassign : ∃ line left, tokens = ⟨.mark .assign, line⟩ :: left
    · obtain ⟨line', left, rfl⟩ := hassign
      obtain ⟨value, rfl, hvalue⟩ := parseItem_assign h
      obtain ⟨⟨read, rfl, hread⟩, -⟩ := parseExpr_reads fuel hvalue
      exact ⟨⟨.mark .assign, line'⟩ :: read, rfl, .assign hread⟩
    · obtain ⟨body, inner, last, rfl, hopen, hbody⟩ :=
        parseItem_block (fun line left heq => hassign ⟨line, left, heq⟩) h
      obtain ⟨line', hline'⟩ := expect_some hopen
      obtain ⟨read, rfl, hread⟩ := parseBody_signs fuel hbody
      have hbox : Reads false
          (⟨.mark .openBrace, line'⟩ :: (read ++ ⟨.mark .closeBrace, last⟩ :: rest)) rest :=
        Closes.box rfl rfl ⟨last, read, rfl, hread.nested⟩
      have hlabels := (spanLabels_passes (s := false) tokens).trans (skipNewlines_passes _)
      rw [hline'] at hlabels
      obtain ⟨front, rfl, hfront⟩ := hlabels.trans hbox.1
      exact ⟨front, rfl, .of_nested (.flat rfl nofun hfront)⟩

end

end Bodies

section Parts

theorem partsFrom_items : ∀ (fuel : Nat) {tokens rest : Tokens} {items : List Item},
    parseBody fuel tokens = some (items, rest) → (partsFrom fuel tokens).map Part.item = items
  | fuel + 1, tokens, rest, items, h => by
    obtain ⟨_, _, _, _, _, _, -, -, hothers, rfl, hparts⟩ | ⟨rfl, -, hparts⟩ := parseBody_cases h
    · rw [hparts, List.map_cons, partsFrom_items fuel hothers]
    · rw [hparts, List.map_nil]

/-- How a part was read. -/
structure Part.IsRead (part : Part) (name : String) (line : Nat) (rest : Tokens) : Prop where
  front : part.front = ⟨.word name, line⟩ :: rest
  parse : parseItem part.fuel name line rest = some (part.item, part.behind)

theorem partsFrom_isRead : ∀ (fuel : Nat) {tokens : Tokens}, ∀ part ∈ partsFrom fuel tokens,
    ∃ name line rest, part.IsRead name line rest
  | fuel + 1, tokens, part, h => by
    unfold partsFrom at h
    split at h
    · split at h
      · rename_i name line rest heq _ item left hitem
        rcases List.mem_cons.mp h with rfl | h
        · exact ⟨name, line, rest, rfl, hitem⟩
        · exact partsFrom_isRead fuel part h
      · cases h
    · cases h

theorem Part.inside_isRead {block part : Part} (h : part ∈ block.inside) :
    ∃ name line rest, part.IsRead name line rest := by
  rw [Part.inside] at h
  split at h
  · exact partsFrom_isRead _ part h
  · cases h

/-- Above a part stand the items before it. -/
theorem partsFrom_above : ∀ (fuel : Nat) {tokens : Tokens} {before after : List Part} {part : Part},
    partsFrom fuel tokens = before ++ part :: after →
    ∃ above, tokens = above ++ part.front ∧ Signs (attributeNames (before.map Part.item)) above
  | 0, _, _, _, _, h => absurd h (by simp [partsFrom])
  | fuel + 1, tokens, before, after, part, h => by
    obtain ⟨newlines, hnewlines, hnested⟩ := skipNewlines_passes (s := false) tokens
    unfold partsFrom at h
    split at h
    · rename_i name line rest heq
      split at h
      · rename_i item left hitem
        rw [heq] at hnewlines
        rcases before with _ | ⟨first, before⟩
        · obtain ⟨rfl, -⟩ := List.cons.inj h
          exact ⟨newlines, hnewlines, .of_nested hnested⟩
        · obtain ⟨rfl, hparts⟩ := List.cons.inj h
          obtain ⟨above, rfl, habove⟩ := partsFrom_above fuel hparts
          obtain ⟨read, rfl, hread⟩ := parseItem_signs fuel hitem
          refine ⟨newlines ++ (⟨.word name, line⟩ :: read ++ above), by rw [hnewlines]; simp, ?_⟩
          rw [List.map_cons, ← List.singleton_append, attributeNames_append]
          exact (Signs.of_nested hnested).append (hread.append habove)
      · exact absurd h (by simp)
    · exact absurd h (by simp)

/-- Behind a part stand the items after it. -/
theorem partsFrom_below : ∀ (fuel : Nat) {tokens rest : Tokens} {items : List Item},
    parseBody fuel tokens = some (items, rest) → ∀ part ∈ partsFrom fuel tokens,
    ∃ mid, part.behind = mid ++ rest
  | fuel + 1, tokens, rest, items, h, part, hpart => by
    obtain ⟨_, _, _, _, _, _, -, -, hothers, -, hparts⟩ | ⟨-, -, hparts⟩ := parseBody_cases h
    · rw [hparts] at hpart
      rcases List.mem_cons.mp hpart with rfl | hpart
      · obtain ⟨read, hread, -⟩ := parseBody_signs fuel hothers
        exact ⟨read, hread⟩
      · exact partsFrom_below fuel hothers part hpart
    · rw [hparts] at hpart
      cases hpart

end Parts

section Blocks

/-- Tokens none of which is a bracket. -/
def Flat (tokens : Tokens) : Prop := ∀ t ∈ tokens, t.token.nesting = 0

theorem Flat.nesting_eq {tokens : Tokens} (h : Flat tokens) : nesting tokens = 0 := by
  unfold nesting
  rw [List.map_congr_left h, List.map_const', List.sum_replicate_int, Int.mul_zero]

theorem spanLabels_flat : ∀ tokens : Tokens,
    ∃ flat, tokens = flat ++ (spanLabels tokens).2 ∧ Flat flat
  | [] => ⟨[], rfl, nofun⟩
  | ⟨t, line⟩ :: tokens => by
    obtain ⟨flat, hflat, hall⟩ := spanLabels_flat tokens
    cases t with
    | word name => exact ⟨_ :: flat, congrArg _ hflat, List.forall_mem_cons.mpr ⟨rfl, hall⟩⟩
    | quoted content => exact ⟨_ :: flat, congrArg _ hflat, List.forall_mem_cons.mpr ⟨rfl, hall⟩⟩
    | _ => exact ⟨[], rfl, nofun⟩

theorem skipNewlines_flat : ∀ tokens : Tokens,
    ∃ flat, tokens = flat ++ skipNewlines tokens ∧ Flat flat
  | [] => ⟨[], rfl, nofun⟩
  | ⟨t, line⟩ :: tokens => by
    obtain ⟨flat, hflat, hall⟩ := skipNewlines_flat tokens
    cases t with
    | newline => exact ⟨_ :: flat, congrArg _ hflat, List.forall_mem_cons.mpr ⟨rfl, hall⟩⟩
    | _ => exact ⟨[], rfl, nofun⟩

section Block

variable {block part : Part} {name type : String} {labels : List String} {body : List Item}
  {line first last : Nat} {rest : Tokens} {before after : List Part}

/-- How a block was read. -/
theorem Part.IsRead.of_block (hread : block.IsRead name line rest)
    (hitem : block.item = .block type labels body first last) :
    type = name ∧ labels = (spanLabels rest).1 ∧ first = line ∧ ∃ inner,
      expect .openBrace (skipNewlines (spanLabels rest).2) = some inner
      ∧ parseBody (block.fuel - 1) inner = some (body, ⟨.mark .closeBrace, last⟩ :: block.behind)
      ∧ block.inside = partsFrom (block.fuel - 1) inner := by
  obtain ⟨hfront, hparse⟩ := hread
  rw [hitem] at hparse
  obtain ⟨fuel, hfuel⟩ : ∃ fuel, block.fuel = fuel + 1 := by
    rcases hfuel : block.fuel with _ | fuel
    · rw [hfuel] at hparse
      cases hparse
    · exact ⟨fuel, rfl⟩
  rw [hfuel] at hparse
  have hassign : ∀ line left, rest ≠ ⟨.mark .assign, line⟩ :: left := by
    rintro line left rfl
    obtain ⟨value, hvalue, -⟩ := parseItem_assign hparse
    cases hvalue
  obtain ⟨body', inner, last', heq, hopen, hbody⟩ := parseItem_block hassign hparse
  obtain ⟨rfl, rfl, rfl, rfl, rfl⟩ := Item.block.inj heq
  refine ⟨rfl, rfl, rfl, inner, hopen, by rw [hfuel]; exact hbody, ?_⟩
  rw [Part.inside, hfront, List.tail_cons, hopen]

/-- Where a part stands in a block: behind the opening brace and the parts before it. -/
structure Part.StandsIn (part block : Part) (before : List Part) (flat above : Tokens)
    (brace : Nat) : Prop where
  front : block.front = flat ++ ⟨.mark .openBrace, brace⟩ :: (above ++ part.front)
  flat : Flat flat
  signs : Signs (attributeNames (before.map Part.item)) above

theorem Part.IsRead.standsIn (hread : block.IsRead name line rest)
    (hitem : block.item = .block type labels body first last)
    (hinside : block.inside = before ++ part :: after) :
    ∃ flat above brace, part.StandsIn block before (⟨.word name, line⟩ :: flat) above brace := by
  obtain ⟨-, -, -, inner, hopen, hbody, hparts⟩ := hread.of_block hitem
  obtain ⟨above, rfl, hsigns⟩ := partsFrom_above _ (hparts.symm.trans hinside)
  obtain ⟨names, hnames, hflat⟩ := spanLabels_flat rest
  obtain ⟨newlines, hnewlines, hflat'⟩ := skipNewlines_flat (spanLabels rest).2
  obtain ⟨brace, hbrace⟩ := expect_some hopen
  refine ⟨names ++ newlines, above, brace, ?_, ?_, hsigns⟩
  · rw [hread.front, hnames, hnewlines, hbrace]
    simp
  · refine List.forall_mem_cons.mpr ⟨rfl, fun t ht => ?_⟩
    exact (List.mem_append.mp ht).elim (hflat t) (hflat' t)

/-- Behind a part the block ends in its closing brace. -/
theorem Part.IsRead.closes (hread : block.IsRead name line rest)
    (hitem : block.item = .block type labels body first last) (hpart : part ∈ block.inside) :
    ∃ below, part.behind = below ++ ⟨.mark .closeBrace, last⟩ :: block.behind := by
  obtain ⟨-, -, -, inner, -, hbody, hparts⟩ := hread.of_block hitem
  exact partsFrom_below _ hbody part (hparts ▸ hpart)

theorem Part.IsRead.items (hread : block.IsRead name line rest)
    (hitem : block.item = .block type labels body first last) :
    block.inside.map Part.item = body := by
  obtain ⟨-, -, -, inner, -, hbody, hparts⟩ := hread.of_block hitem
  rw [hparts]
  exact partsFrom_items _ hbody

/-- How an attribute was read. -/
theorem Part.IsRead.of_attribute {value : Expr} (hread : part.IsRead name line rest)
    (hitem : part.item = .attribute type value) : type = name ∧ ∃ sign tokens,
      part.front = ⟨.word name, line⟩ :: ⟨.mark .assign, sign⟩ :: tokens
      ∧ parseExpr (part.fuel - 1) tokens = some (value, part.behind) := by
  obtain ⟨hfront, hparse⟩ := hread
  rw [hitem] at hparse
  obtain ⟨fuel, hfuel⟩ : ∃ fuel, part.fuel = fuel + 1 := by
    rcases hfuel : part.fuel with _ | fuel
    · rw [hfuel] at hparse
      cases hparse
    · exact ⟨fuel, rfl⟩
  rw [hfuel] at hparse
  by_cases hassign : ∃ line left, rest = ⟨.mark .assign, line⟩ :: left
  · obtain ⟨sign, tokens, rfl⟩ := hassign
    obtain ⟨value', heq, hvalue⟩ := parseItem_assign hparse
    obtain ⟨rfl, rfl⟩ := Item.attribute.inj heq
    exact ⟨rfl, sign, tokens, hfront, by rw [hfuel]; exact hvalue⟩
  · obtain ⟨body, inner, last, heq, -⟩ :=
      parseItem_block (fun line left heq => hassign ⟨line, left, heq⟩) hparse
    cases heq

/-- How an attribute was read: its value from the tokens behind the equals sign, with no newline at
their end. -/
structure Part.Assigns (part : Part) (name : String) (line sign : Nat) (read : Tokens)
    (value : Expr) : Prop where
  item : part.item = .attribute name value
  front : part.front = (⟨.word name, line⟩ :: ⟨.mark .assign, sign⟩ :: read) ++ part.left
  balanced : nesting read = 0
  left : ∃ newlines, part.left = newlines ++ part.behind ∧ ∀ t ∈ newlines, t.isNewline = true
  parse : parseExpr (part.fuel - 1) (read ++ part.left) = some (value, part.behind)

theorem Part.IsRead.assigns {value : Expr} (hread : part.IsRead name line rest)
    (hitem : part.item = .attribute type value) :
    ∃ sign read, part.Assigns type line sign read value := by
  obtain ⟨rfl, sign, tokens, hfront, hparse⟩ := hread.of_attribute hitem
  obtain ⟨⟨taken, rfl, htaken⟩, -⟩ := parseExpr_reads _ hparse
  obtain ⟨read, newlines, rfl, hnewlines, hleft⟩ :=
    Part.left_eq [⟨.word type, line⟩] ⟨.mark .assign, sign⟩ hfront rfl
  have hflat : Flat newlines := fun t ht => by
    rw [show t.token = .newline from of_decide_eq_true (hnewlines t ht)]
    rfl
  have hnesting := htaken.nesting_eq
  rw [nesting_append, hflat.nesting_eq] at hnesting
  rw [List.append_assoc, ← hleft] at hfront hparse
  exact ⟨sign, read, hitem, hfront, by omega, ⟨newlines, hleft, hnewlines⟩, hparse⟩

end Block

end Blocks

end TerraIndex.Hcl
