import TerraIndex.Proofs.Hcl.Parts
import TerraIndex.Proofs.Hcl.TokenLines
/-!
# Where tokens stand in a text

Every token begins at some character and leaves the text behind it (`places`). So a part of a file
has a text, from its first token to its last (`Part.text`), and the texts of the parts of a block
stand in the text of the block, one behind another (`parseBody_inOrder`).
-/

namespace TerraIndex.Hcl

/-- The text from the first character of a token on, and the text behind the token. -/
structure Place where
  start : List Char
  stop : List Char

/-- The places of the tokens of a text. -/
def placesFrom : Nat → Bool → List Char → List Place
  | _, _, [] => []
  | 0, _, _ => []
  | fuel + 1, afterEllipsis, cs =>
    match scanLexeme afterEllipsis cs with
    | none => []
    | some ⟨none, _, rest⟩ => placesFrom fuel afterEllipsis rest
    | some ⟨some token, _, rest⟩ => ⟨cs, rest⟩ :: placesFrom fuel (token = .mark .ellipsis) rest

/-- Each token consumes a character. -/
def places (afterEllipsis : Bool) (cs : List Char) : List Place :=
  placesFrom cs.length afterEllipsis cs

theorem scanLexeme_shorter {afterEllipsis : Bool} {cs : List Char} {lexeme : Lexeme}
    (h : scanLexeme afterEllipsis cs = some lexeme) : lexeme.rest.length < cs.length := by
  obtain ⟨used, hcut⟩ := scanLexeme_cut h
  have hlength := List.length_pos_iff.mpr hcut.nonempty
  rw [hcut.front, List.length_append]
  omega

theorem placesFrom_fuel : ∀ {fuel fuel' : Nat} {b : Bool} {cs : List Char}, cs.length ≤ fuel →
    cs.length ≤ fuel' → placesFrom fuel b cs = placesFrom fuel' b cs
  | 0, 0, _, _, _, _ => rfl
  | 0, _ + 1, _, [], _, _ => rfl
  | _ + 1, 0, _, [], _, _ => rfl
  | _ + 1, _ + 1, _, [], _, _ => rfl
  | fuel + 1, fuel' + 1, b, c :: cs, h, h' => by
    rw [placesFrom, placesFrom]
    · split
      · rfl
      · rename_i hscan
        have hshort := scanLexeme_shorter hscan
        simp only [List.length_cons] at h h' hshort
        exact placesFrom_fuel (by omega) (by omega)
      · rename_i hscan
        have hshort := scanLexeme_shorter hscan
        simp only [List.length_cons] at h h' hshort
        exact congrArg _ (placesFrom_fuel (by omega) (by omega))
    · nofun
    · nofun

section Places

variable {b : Bool} {line newlines : Nat} {cs rest : List Char} {token : Token}

theorem places_blank (h : scanLexeme b cs = some ⟨none, newlines, rest⟩) :
    places b cs = places b rest := by
  have hshort := scanLexeme_shorter h
  rcases cs with _ | ⟨c, cs⟩
  · cases hshort
  rw [places, List.length_cons, placesFrom, h]
  · exact placesFrom_fuel (Nat.le_of_lt_succ hshort) (Nat.le_refl _)
  · nofun

theorem places_token (h : scanLexeme b cs = some ⟨some token, newlines, rest⟩) :
    places b cs = ⟨cs, rest⟩ :: places (token = .mark .ellipsis) rest := by
  have hshort := scanLexeme_shorter h
  rcases cs with _ | ⟨c, cs⟩
  · cases hshort
  rw [places, List.length_cons, placesFrom, h]
  · exact congrArg _ (placesFrom_fuel (Nat.le_of_lt_succ hshort) (Nat.le_refl _))
  · nofun

theorem Lexed.length_places {tokens : Tokens} (h : Lexed b line cs tokens) :
    (places b cs).length = tokens.length := by
  induction h with
  | nil => rfl
  | blank hscan _ ih => rw [places_blank hscan, ih]
  | token hscan _ ih => rw [places_token hscan, List.length_cons, List.length_cons, ih]

section Tokens

/-- A text begins with a token, behind some blanks. -/
structure BeginsWith (b : Bool) (line : Nat) (cs : List Char) (t : Located) (rest : Tokens)
    (blanks used left : List Char) : Prop where
  split : cs = blanks ++ (used ++ left)
  line : t.line = line + blanks.count '\n'
  scan : scanLexeme b (used ++ left) = some ⟨some t.token, used.count '\n', left⟩
  rest : Lexed (t.token = .mark .ellipsis) (t.line + used.count '\n') left rest
  places : places b cs = ⟨used ++ left, left⟩ :: places (t.token = .mark .ellipsis) left

theorem Lexed.begins {t : Located} {tokens : Tokens} (h : Lexed b line cs (t :: tokens)) :
    ∃ blanks used left, BeginsWith b line cs t tokens blanks used left := by
  generalize hfull : t :: tokens = full at h
  induction h with
  | nil => cases hfull
  | blank hscan _ ih =>
    obtain ⟨blanks, used, left, hsplit, hline, hused, hrest, hplaces⟩ := ih hfull
    obtain ⟨blank, hcut⟩ := scanLexeme_cut hscan
    have hnewlines := hcut.newlines
    have hfront := hcut.front
    simp only at hnewlines hfront
    refine ⟨blank ++ blanks, used, left, ?_, ?_, hused, hrest, ?_⟩
    · rw [hfront, hsplit, List.append_assoc]
    · rw [hline, List.count_append, ← hnewlines, Nat.add_assoc]
    · rw [places_blank hscan, hplaces]
  | token hscan hread =>
    obtain ⟨rfl, rfl⟩ := List.cons.inj hfull
    obtain ⟨used, hcut⟩ := scanLexeme_cut hscan
    have hnewlines := hcut.newlines
    have hfront := hcut.front
    simp only at hnewlines hfront
    subst hnewlines hfront
    exact ⟨[], used, _, rfl, rfl, hscan, hread, places_token hscan⟩

/-- Behind some characters the text goes on with the tokens of `rest`. -/
structure Passed (b : Bool) (line : Nat) (cs : List Char) (rest : Tokens) (front : List Char)
    (b' : Bool) (left : List Char) : Prop where
  split : cs = front ++ left
  rest : Lexed b' (line + front.count '\n') left rest
  places : ∃ passed, places b cs = passed ++ places b' left

theorem Lexed.passed {tokens : Tokens} : ∀ {above : Tokens} {b : Bool} {line : Nat}
    {cs : List Char}, Lexed b line cs (above ++ tokens) →
    ∃ front b' left, Passed b line cs tokens front b' left
  | [], b, _, cs, h => ⟨[], b, cs, rfl, h, [], rfl⟩
  | t :: above, b, line, cs, h => by
    obtain ⟨blanks, used, mid, hsplit, hline, hscan, hrest, hplaces⟩ := h.begins
    obtain ⟨front, b', left, rfl, hleft, passed, hpassed⟩ := hrest.passed
    refine ⟨blanks ++ (used ++ front), b', left, ?_, ?_,
      ⟨used ++ (front ++ left), front ++ left⟩ :: passed, ?_⟩
    · rw [hsplit]
      simp
    · rw [hline] at hleft
      simpa [List.count_append, Nat.add_assoc] using hleft
    · rw [hplaces, hpassed]
      rfl

end Tokens

end Places

theorem Passed.trans {b b' b'' : Bool} {line : Nat} {cs left left' front front' : List Char}
    {rest rest' : Tokens} (h : Passed b line cs rest front b' left)
    (h' : Passed b' (line + front.count '\n') left rest' front' b'' left') :
    Passed b line cs rest' (front ++ front') b'' left' := by
  obtain ⟨passed, hpassed⟩ := h.places
  obtain ⟨passed', hpassed'⟩ := h'.places
  refine ⟨?_, ?_, passed ++ passed', ?_⟩
  · rw [h.split, h'.split, List.append_assoc]
  · rw [List.count_append, ← Nat.add_assoc]
    exact h'.rest
  · rw [hpassed, hpassed', List.append_assoc]

/-- The characters of a part, from its first token to its last, by the places of tokens up to the
end of the text. -/
def Part.textIn (places : List Place) (part : Part) : List Char :=
  match places.reverse[part.front.length - 1]?, places.reverse[part.behind.length]? with
  | some first, some last => first.start.take (first.start.length - last.stop.length)
  | _, _ => []

/-- The text of a part of a file. -/
def Part.text (content : List Char) (part : Part) : List Char :=
  part.textIn (places false (content ++ ['\n']))

theorem Part.textIn_append {part : Part} {below : List Place} (above : List Place)
    (hfront : part.front.length ≤ below.length) (hbehind : part.behind.length < part.front.length) :
    part.textIn (above ++ below) = part.textIn below := by
  have hlength : below.reverse.length = below.length := List.length_reverse
  rw [Part.textIn, Part.textIn, List.reverse_append, List.getElem?_append_left (by omega),
    List.getElem?_append_left (by omega)]

theorem Part.textIn_eq {part : Part} {t u : Located} {own : Tokens} {b b' : Bool} {line : Nat}
    {cs blanks first mid front rest blanks' last left : List Char}
    (hfront : part.front = t :: (own ++ u :: part.behind))
    (hfirst : BeginsWith b line cs t (own ++ u :: part.behind) blanks first mid)
    (hown : Passed (t.token = .mark .ellipsis) (t.line + first.count '\n') mid
      (u :: part.behind) front b' rest)
    (hlast : BeginsWith b' (t.line + first.count '\n' + front.count '\n') rest u part.behind
      blanks' last left) :
    part.textIn (places b cs) = first ++ (front ++ (blanks' ++ last)) := by
  obtain ⟨passed, hpassed⟩ := hown.places
  have hplaces : places b cs = ⟨first ++ mid, mid⟩ :: (passed
      ++ ⟨last ++ left, left⟩ :: places (u.token = .mark .ellipsis) left) := by
    rw [hfirst.places, hpassed, hlast.places]
  have hbehind := hlast.rest.length_places
  have hcount : (places b cs).length = part.front.length := by
    rw [hfirst.places, hfront, List.length_cons, List.length_cons, hfirst.rest.length_places]
  have hstart : (places b cs).reverse[part.front.length - 1]? = some ⟨first ++ mid, mid⟩ := by
    have hpos : 0 < part.front.length := by
      rw [hfront]
      exact Nat.succ_pos _
    have hzero : (places b cs).length - 1 - (part.front.length - 1) = 0 := by omega
    rw [List.getElem?_reverse (by omega), hzero, hplaces]
    rfl
  have hstop : (places b cs).reverse[part.behind.length]? = some ⟨last ++ left, left⟩ := by
    have hlength := congrArg List.length hplaces
    simp only [List.length_cons, List.length_append, hbehind] at hlength
    have hindex : (places b cs).length - 1 - part.behind.length = passed.length + 1 := by omega
    rw [List.getElem?_reverse (by omega), hindex, hplaces, List.getElem?_cons_succ,
      List.getElem?_append_right (Nat.le_refl _), Nat.sub_self]
    rfl
  have hmid : first ++ mid = (first ++ (front ++ (blanks' ++ last))) ++ left := by
    rw [hown.split, hlast.split]
    simp
  rw [Part.textIn, hstart, hstop]
  simp only
  rw [hmid]
  exact List.take_left' (Nat.eq_sub_of_add_eq List.length_append.symm)

/-- Texts that stand in a text one behind another. -/
inductive InOrder : List (List Char) → List Char → Prop
  | nil {cs : List Char} : InOrder [] cs
  | cons {text rest : List Char} {texts : List (List Char)} (gap : List Char) :
      InOrder texts rest → InOrder (text :: texts) (gap ++ (text ++ rest))

theorem InOrder.behind {texts : List (List Char)} {cs : List Char} (front : List Char)
    (h : InOrder texts cs) : InOrder texts (front ++ cs) := by
  cases h with
  | nil => exact .nil
  | cons gap h =>
    rw [← List.append_assoc]
    exact .cons (front ++ gap) h

theorem InOrder.before {texts : List (List Char)} {cs : List Char} (left : List Char)
    (h : InOrder texts cs) : InOrder texts (cs ++ left) := by
  induction h with
  | nil => exact .nil
  | cons gap _ ih =>
    rw [List.append_assoc, List.append_assoc]
    exact .cons gap ih

section Parts

theorem Part.IsRead.shorter {part : Part} {name : String} {line : Nat} {rest : Tokens}
    (h : part.IsRead name line rest) : part.behind.length < part.front.length := by
  obtain ⟨read, hread, -⟩ := parseItem_signs _ h.parse
  rw [h.front, hread, List.length_cons, List.length_append]
  omega

/-- A block ends in its closing brace. -/
theorem Part.IsRead.ends {part : Part} {name type : String} {line first last : Nat} {rest : Tokens}
    {labels : List String} {body : List Item} (h : part.IsRead name line rest)
    (hitem : part.item = .block type labels body first last) : ∃ head inner read,
    rest = head ++ inner ∧ inner = read ++ ⟨.mark .closeBrace, last⟩ :: part.behind
      ∧ parseBody (part.fuel - 1) inner = some (body, ⟨.mark .closeBrace, last⟩ :: part.behind)
      ∧ part.inside = partsFrom (part.fuel - 1) inner := by
  obtain ⟨-, -, -, inner, hopen, hbody, hinside⟩ := h.of_block hitem
  obtain ⟨names, hnames, -⟩ := spanLabels_flat rest
  obtain ⟨newlines, hnewlines, -⟩ := skipNewlines_flat (spanLabels rest).2
  obtain ⟨brace, hbrace⟩ := expect_some hopen
  obtain ⟨read, hread, -⟩ := parseBody_signs _ hbody
  refine ⟨names ++ (newlines ++ [⟨.mark .openBrace, brace⟩]), inner, read, ?_, hread, hbody,
    hinside⟩
  rw [hnames, hnewlines, hbrace]
  simp

theorem partsFrom_length {fuel : Nat} {tokens : Tokens} {part : Part}
    (h : part ∈ partsFrom fuel tokens) : part.front.length ≤ tokens.length := by
  obtain ⟨before, after, hparts⟩ := List.append_of_mem h
  obtain ⟨above, rfl, -⟩ := partsFrom_above _ hparts
  rw [List.length_append]
  exact Nat.le_add_left _ _

/-- The texts of parts do not depend on the tokens above them. -/
theorem textIn_partsFrom {fuel : Nat} {tokens : Tokens} {below : List Place} (above : List Place)
    (p : Part → Bool) (hlength : tokens.length ≤ below.length) :
    ((partsFrom fuel tokens).filter p).map (Part.textIn (above ++ below))
      = ((partsFrom fuel tokens).filter p).map (Part.textIn below) := by
  refine List.map_congr_left fun part hpart => ?_
  have hmem := List.mem_of_mem_filter hpart
  obtain ⟨name, line, rest, hread⟩ := partsFrom_isRead _ part hmem
  exact Part.textIn_append above ((partsFrom_length hmem).trans hlength) hread.shorter

/-! ### Blocks -/

theorem scanMark_closeBrace {cs rest : List Char} {newlines : Nat}
    (h : scanMark cs = some ⟨some (.mark .closeBrace), newlines, rest⟩) : cs = '}' :: rest := by
  obtain ⟨spelling, token, hmem, hcs, htoken, -⟩ := scanMark_some h
  obtain rfl := Option.some.inj htoken
  have hspelling : spelling = ['}'] := by simpa [spellings] using hmem
  rw [hcs, hspelling]
  rfl

/-- The brace that closes a block is read from itself. -/
theorem scanLexeme_closeBrace {b : Bool} {cs rest : List Char} {newlines : Nat}
    (h : scanLexeme b cs = some ⟨some (.mark .closeBrace), newlines, rest⟩) : cs = '}' :: rest := by
  obtain heq | ⟨_, heq⟩ | ⟨_, heq⟩ | hmark | hplain := scanLexeme_token h
  · cases heq
  · cases heq
  · cases heq
  · exact scanMark_closeBrace hmark
  · rcases cs with _ | ⟨c, cs⟩
    · cases hplain
    rw [scanPlain] at hplain
    split_ifs at hplain
    · cases hplain
    · cases hplain
    · cases hplain
    · exact scanMark_closeBrace hplain

/-- A block with its text: the brace in its last line ends it. -/
structure Part.Spelled (part : Part) (b : Bool) (line : Nat) (cs : List Char) (last : Nat)
    (blanks inner left : List Char) : Prop where
  text : part.textIn (places b cs) = inner ++ ['}']
  begins : lineOf part.front = line + blanks.count '\n'
  ends : last = line + (blanks ++ inner).count '\n'
  passed : Passed b line cs part.behind (blanks ++ (inner ++ ['}'])) false left

theorem Part.spelled_of {part : Part} {t : Located} {own : Tokens} {b b' : Bool} {line last : Nat}
    {cs blanks first mid front rest : List Char}
    (hfront : part.front = t :: (own ++ ⟨.mark .closeBrace, last⟩ :: part.behind))
    (hfirst : BeginsWith b line cs t (own ++ ⟨.mark .closeBrace, last⟩ :: part.behind)
      blanks first mid)
    (hown : Passed (t.token = .mark .ellipsis) (t.line + first.count '\n') mid
      (⟨.mark .closeBrace, last⟩ :: part.behind) front b' rest) :
    ∃ blanks' left, part.Spelled b line cs last blanks (first ++ (front ++ blanks')) left := by
  obtain ⟨blanks', used, left, hlast⟩ := hown.rest.begins
  have hused : used = ['}'] := by
    have hbrace := scanLexeme_closeBrace hlast.scan
    exact List.append_cancel_right (hbrace.trans (List.singleton_append).symm)
  subst hused
  have hline : last = line + (blanks ++ (first ++ (front ++ blanks'))).count '\n' := by
    have hlines := hlast.line
    have hfirstLine := hfirst.line
    simp only [List.count_append] at hlines ⊢
    omega
  obtain ⟨passed, hpassed⟩ := hown.places
  refine ⟨blanks', left, ⟨?_, ?_, hline, ?_, ?_, ?_⟩⟩
  · rw [Part.textIn_eq hfront hfirst hown hlast]
    simp
  · rw [hfront]
    exact hfirst.line
  · rw [hfirst.split, hown.split, hlast.split]
    simp
  · have hcount : (blanks ++ (first ++ (front ++ blanks') ++ ['}'])).count '\n'
        = (blanks ++ (first ++ (front ++ blanks'))).count '\n' := by
      simp [List.count_append]
    rw [hcount, ← hline]
    exact hlast.rest
  · refine ⟨⟨first ++ mid, mid⟩ :: (passed ++ [⟨['}'] ++ left, left⟩]), ?_⟩
    rw [hfirst.places, hpassed, hlast.places]
    simp

/-- A block is read from its text. -/
theorem Lexed.spelled {part : Part} {name type : String} {line first last : Nat} {rest : Tokens}
    {labels : List String} {body : List Item} {b : Bool} {n : Nat} {cs : List Char}
    (h : Lexed b n cs part.front) (hread : part.IsRead name line rest)
    (hitem : part.item = .block type labels body first last) :
    ∃ blanks inner left, part.Spelled b n cs last blanks inner left := by
  obtain ⟨head, inner, read, hrest, hinner, -, -⟩ := hread.ends hitem
  have hfront : part.front
      = ⟨.word name, line⟩ :: ((head ++ read) ++ ⟨.mark .closeBrace, last⟩ :: part.behind) := by
    rw [hread.front, hrest, hinner, List.append_assoc]
  rw [hfront] at h
  obtain ⟨blanks, used, mid, hfirst⟩ := h.begins
  obtain ⟨front, b', left, hown⟩ := hfirst.rest.passed
  obtain ⟨blanks', left, hspelled⟩ := Part.spelled_of hfront hfirst hown
  exact ⟨blanks, _, left, hspelled⟩

section InOrder

variable {p : Part → Bool}

/-- The texts of the blocks in a body stand in the text of the body, in their order. -/
theorem parseBody_inOrder (hp : ∀ part, p part = true → part.item.isBlock = true) :
    ∀ (fuel : Nat) {tokens stop : Tokens} {items : List Item},
    parseBody fuel tokens = some (items, stop) → ∀ {b : Bool} {line : Nat} {cs : List Char},
    Lexed b line cs tokens → ∃ front b' left, Passed b line cs stop front b' left
      ∧ InOrder (((partsFrom fuel tokens).filter p).map (Part.textIn (places b cs))) front
  | fuel + 1, tokens, stop, items, h, b, line, cs, hlexed => by
    obtain ⟨newlines, hnewlines, -⟩ := skipNewlines_flat tokens
    obtain ⟨name, n, rest, item, mid, others, heq, hitem, hothers, rfl, hparts⟩ |
      ⟨rfl, rfl, hparts⟩ := parseBody_cases h
    · obtain ⟨read, rfl, -⟩ := parseItem_signs fuel hitem
      rw [hparts]
      rw [heq] at hnewlines
      generalize hpart : (⟨item, fuel, ⟨.word name, n⟩ :: (read ++ mid), mid⟩ : Part) = part
      have hread : part.IsRead name n (read ++ mid) := by
        rw [← hpart]
        exact ⟨rfl, hitem⟩
      have hbehind : part.behind = mid := by rw [← hpart]
      rw [hnewlines, ← hread.front] at hlexed
      obtain ⟨front, b₁, cs₁, habove⟩ := hlexed.passed
      cases hchosen : p part with
      | true =>
        obtain ⟨type, labels, body, first, last, hblock⟩ := part.item.exists_block (hp part hchosen)
        obtain ⟨blanks, inner, left, hspelled⟩ := habove.rest.spelled hread hblock
        have hown := hspelled.passed
        rw [hbehind] at hown
        obtain ⟨front', b', left', hbelow, horder⟩ := parseBody_inOrder hp fuel hothers hown.rest
        refine ⟨_, b', left', habove.trans (hown.trans hbelow), ?_⟩
        obtain ⟨upper, hupper⟩ := habove.places
        obtain ⟨lower, hlower⟩ := hown.places
        have htext : part.textIn (places b cs) = inner ++ ['}'] := by
          rw [hupper, Part.textIn_append upper (Nat.le_of_eq habove.rest.length_places.symm)
            hread.shorter, hspelled.text]
        rw [List.filter_cons_of_pos hchosen, List.map_cons, htext, hupper, hlower,
          ← List.append_assoc, textIn_partsFrom _ p (Nat.le_of_eq hown.rest.length_places.symm),
          List.append_assoc blanks, ← List.append_assoc front]
        exact .cons (front ++ blanks) horder
      | false =>
        have hrest := habove.rest
        rw [hread.front, ← List.cons_append] at hrest
        obtain ⟨own, b₂, cs₂, hown⟩ := hrest.passed
        obtain ⟨front', b', left', hbelow, horder⟩ := parseBody_inOrder hp fuel hothers hown.rest
        refine ⟨_, b', left', habove.trans (hown.trans hbelow), ?_⟩
        obtain ⟨passed, hpassed⟩ := (habove.trans hown).places
        rw [List.filter_cons_of_neg (by rw [hchosen]; exact Bool.false_ne_true), hpassed,
          textIn_partsFrom _ p (Nat.le_of_eq hown.rest.length_places.symm)]
        exact (horder.behind own).behind front
    · rw [hnewlines] at hlexed
      obtain ⟨front, b', left, hpassed⟩ := hlexed.passed
      rw [hparts]
      exact ⟨front, b', left, hpassed, .nil⟩

/-- The texts of the parts of a block are found at the places from its name on. -/
theorem Part.IsRead.textIn_inside {block : Part} {name type : String} {line first last : Nat}
    {rest : Tokens} {labels : List String} {body : List Item} (above : List Place)
    {below : List Place} (hread : block.IsRead name line rest)
    (hitem : block.item = .block type labels body first last)
    (hlength : below.length = block.front.length) :
    (block.inside.filter p).map (Part.textIn (above ++ below))
      = (block.inside.filter p).map (Part.textIn below) := by
  obtain ⟨head, inner, read, hrest, -, -, hinside⟩ := hread.ends hitem
  rw [hread.front, hrest, List.length_cons, List.length_append] at hlength
  rw [hinside, textIn_partsFrom above p (by omega)]

/-- The texts of the blocks in a block stand in its own text, in their order. -/
theorem Part.IsRead.inside_inOrder {block : Part} {name type : String} {line first last n : Nat}
    {rest : Tokens} {labels : List String} {body : List Item} {b : Bool} {cs : List Char}
    (hp : ∀ part, p part = true → part.item.isBlock = true) (hread : block.IsRead name line rest)
    (hitem : block.item = .block type labels body first last) (h : Lexed b n cs block.front) :
    ∃ blanks inner left, block.Spelled b n cs last blanks inner left
      ∧ InOrder ((block.inside.filter p).map (Part.textIn (places b cs))) inner := by
  obtain ⟨head, inner, read, hrest, hinner, hbody, hinside⟩ := hread.ends hitem
  have hfront : block.front
      = ⟨.word name, line⟩ :: ((head ++ read) ++ ⟨.mark .closeBrace, last⟩ :: block.behind) := by
    rw [hread.front, hrest, hinner, List.append_assoc]
  rw [hfront] at h
  obtain ⟨blanks, used, mid, hfirst⟩ := h.begins
  have hmid := hfirst.rest
  rw [List.append_assoc, ← hinner] at hmid
  obtain ⟨front, b₁, cs₁, habove⟩ := hmid.passed
  obtain ⟨own, b₂, cs₂, hown, horder⟩ := parseBody_inOrder hp _ hbody habove.rest
  obtain ⟨blanks', left, hspelled⟩ := Part.spelled_of hfront hfirst (habove.trans hown)
  refine ⟨blanks, _, left, hspelled, ?_⟩
  obtain ⟨passed, hpassed⟩ := habove.places
  have hplaces : places b cs = (⟨used ++ mid, mid⟩ :: passed) ++ places b₁ cs₁ := by
    rw [hfirst.places, hpassed]
    rfl
  rw [hinside, hplaces, textIn_partsFrom _ p (Nat.le_of_eq habove.rest.length_places.symm)]
  exact (((horder.behind front).before blanks').behind used)

end InOrder

end Parts

end TerraIndex.Hcl
