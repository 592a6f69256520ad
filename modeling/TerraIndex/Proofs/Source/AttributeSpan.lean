import TerraIndex.Proofs.Hcl.Parts
import TerraIndex.Proofs.Hcl.TokenLines
import TerraIndex.Proofs.Text.Lines
import TerraIndex.Source.ConfigBlocks
/-!
# The lines of an attribute

The lines of an attribute are found by counting the brackets of lines. Where the brackets counted in
each line are those of its tokens, the block and the attribute begin their lines, and every line of
the attribute but the last ends inside of brackets (`Hcl.LaidOut`), the lines found are those from
the name of the attribute to the end of its value (`FirstOf.locateAttribute_eq`).
-/

namespace TerraIndex

namespace ConfigText

/-- How much deeper lines lead. -/
def deltas (lines : List (List Char)) : Int := (lines.map nestingDelta).sum

@[simp] theorem deltas_nil : deltas [] = 0 := rfl

@[simp] theorem deltas_cons (text : List Char) (lines : List (List Char)) :
    deltas (text :: lines) = nestingDelta text + deltas lines := by simp [deltas]

@[simp] theorem deltas_append (lines more : List (List Char)) :
    deltas (lines ++ more) = deltas lines + deltas more := by simp [deltas]

/-- Brackets are counted up to the first line behind which they balance. -/
theorem attributeEnd_run {limit : Int} {text : List Char} {rest : List (List Char)} :
    ∀ {above : List (List Char)} {depth line : Int},
    (∀ front back, above = front ++ back → front ≠ [] → 0 < depth + deltas front) →
    depth + deltas (above ++ [text]) ≤ 0 → line + above.length ≤ limit →
    attributeEnd limit depth line (above ++ text :: rest) = .ok (line + above.length)
  | [], depth, line, _, hlast, hlimit => by
    simp only [List.length_nil, Int.natCast_zero, Int.add_zero, List.nil_append, deltas_cons,
      deltas_nil] at hlimit hlast ⊢
    rw [attributeEnd, if_neg (by omega)]
    simp only
    rw [if_pos hlast]
  | first :: above, depth, line, hopen, hlast, hlimit => by
    have hfirst := hopen [first] above rfl (List.cons_ne_nil _ _)
    simp only [List.length_cons, List.cons_append, deltas_cons, deltas_nil, Int.add_zero] at *
    rw [attributeEnd, if_neg (by omega)]
    simp only
    rw [if_neg (by omega), attributeEnd_run (fun front back heq hne => ?_) (by omega) (by omega)]
    · congr 1
      omega
    · have hfront := hopen (first :: front) back (by rw [heq]; rfl) (List.cons_ne_nil _ _)
      rw [deltas_cons] at hfront
      omega

/-- Lines that do not assign the name at depth one are passed over. -/
theorem attributeLines_run {limit : Int} {name : List Char} {rest : List (List Char)} :
    ∀ {above : List (List Char)} {depth line : Int},
    (∀ front text back, above = front ++ text :: back →
      ¬ (depth + deltas front = 1 ∧ assigns name text = true)) →
    line + above.length ≤ limit + 1 →
    attributeLines name limit depth line (above ++ rest)
      = attributeLines name limit (depth + deltas above) (line + above.length) rest
  | [], depth, line, _, _ => by simp
  | first :: above, depth, line, hpass, hlimit => by
    have hfirst := hpass [] first above rfl
    simp only [List.length_cons, List.cons_append, deltas_cons, deltas_nil, Int.add_zero] at *
    rw [attributeLines, if_neg (by omega), if_neg hfirst,
      attributeLines_run (fun front text back heq => ?_) (by omega)]
    · congr 1
      · omega
      · omega
    · have hfront := hpass (first :: front) text back (by rw [heq]; rfl)
      rw [deltas_cons] at hfront
      rwa [Int.add_assoc]

end ConfigText

namespace Hcl

def onLine (tokens : Tokens) (k : Nat) : Tokens := tokens.filter (·.line = k)

/-- The tokens from one line to before another. -/
def between (tokens : Tokens) (first next : Nat) : Tokens :=
  tokens.filter fun t => first ≤ t.line ∧ t.line < next

/-- The text of the line of a number, counted from one. -/
def lineAt (content : List Char) (k : Nat) : List Char :=
  ((Text.splitNewlines content)[k - 1]?).getD []

theorem nesting_between_self (k : Nat) (tokens : Tokens) : nesting (between tokens k k) = 0 := by
  rw [between, List.filter_eq_nil_iff.mpr]
  · rfl
  · intro t _
    simp only [decide_eq_true_eq]
    omega

theorem nesting_between_succ {first next : Nat} (hle : first ≤ next) : ∀ tokens : Tokens,
    nesting (between tokens first (next + 1))
      = nesting (between tokens first next) + nesting (onLine tokens next)
  | [] => rfl
  | t :: tokens => by
    have ih := nesting_between_succ hle tokens
    simp only [between, onLine, List.filter_cons, decide_eq_true_eq] at ih ⊢
    by_cases hnext : t.line = next
    · rw [if_pos (by omega), if_neg (by omega), if_pos hnext, nesting_cons, nesting_cons]
      omega
    · by_cases hbetween : first ≤ t.line ∧ t.line < next
      · rw [if_pos (by omega), if_pos hbetween, if_neg hnext, nesting_cons, nesting_cons]
        omega
      · rw [if_neg (by omega), if_neg hbetween, if_neg hnext]
        exact ih

/-- The brackets counted in a line are those of its tokens. -/
def Counted (content : List Char) (tokens : Tokens) (k : Nat) : Prop :=
  nestingDelta (lineAt content k) = nesting (onLine tokens k)

theorem deltas_between {content : List Char} {tokens : Tokens} {first next : Nat}
    (hfirst : 1 ≤ first) (hnext : next ≤ (Text.splitNewlines content).length + 1)
    (hcounted : ∀ k, first ≤ k → k < next → Counted content tokens k) : ∀ n, first + n ≤ next →
    ConfigText.deltas (((Text.splitNewlines content).drop (first - 1)).take n)
      = nesting (between tokens first (first + n))
  | 0, _ => by
    rw [List.take_zero, Nat.add_zero, nesting_between_self]
    rfl
  | n + 1, hn => by
    have hlength : n < ((Text.splitNewlines content).drop (first - 1)).length := by
      rw [List.length_drop]
      omega
    have hline : ((Text.splitNewlines content).drop (first - 1))[n]
        = lineAt content (first + n) := by
      rw [lineAt, List.getElem_drop, List.getElem?_eq_getElem (by omega), Option.getD_some]
      congr 1
      omega
    rw [List.take_succ_eq_append_getElem hlength, ConfigText.deltas_append, hline,
      ConfigText.deltas_cons, ConfigText.deltas_nil, Int.add_zero, hcounted _ (by omega) (by omega),
      deltas_between hfirst hnext hcounted n (by omega), ← Nat.add_assoc,
      nesting_between_succ (by omega)]

/-- How an attribute of a block is written for the lines of it to be found by counting brackets. The
block and the attribute begin their lines, the attribute below the first line of the block and with
its name in front of the equals sign, and the attribute ends the line of its last token. Each line
of it but the last ends inside of brackets. From the first line of the block on, the brackets
counted in a line are those of its tokens, and no line above that is part of a comment or a text
assigns the name. -/
structure LaidOut (content : List Char) (block part : Part) : Prop where
  isAttribute : ∃ value, part.item = .attribute part.item.name value
  blockBegins : onLine block.front (lineOf block.front)
    = onLine (tokensOf content) (lineOf block.front)
  below : lineOf block.front < lineOf part.front
  begins : onLine part.front (lineOf part.front) = onLine (tokensOf content) (lineOf part.front)
  newline : ⟨.newline, lineOf part.front - 1⟩ ∈ tokensOf content
  named : assigns part.item.name.toList (lineAt content (lineOf part.front)) = true
  ends : part.left.head?.map Located.token = some .newline
  inside : ∀ k, lineOf part.front ≤ k → k < lineOf part.left →
    0 < nesting (between part.front (lineOf part.front) (k + 1))
  counted : ∀ k, lineOf block.front ≤ k → k ≤ lineOf part.left →
    Counted content (tokensOf content) k
  alone : ∀ k, lineOf block.front < k → k < lineOf part.front →
    assigns part.item.name.toList (lineAt content k) = true → ⟨.newline, k - 1⟩ ∈ tokensOf content

section Between

variable {first next : Nat} {tokens more : Tokens}

theorem between_append :
    between (tokens ++ more) first next = between tokens first next ++ between more first next :=
  List.filter_append _ _

theorem between_eq_self (h : ∀ t ∈ tokens, first ≤ t.line ∧ t.line < next) :
    between tokens first next = tokens :=
  List.filter_eq_self.mpr fun t ht => decide_eq_true (h t ht)

theorem between_eq_nil (h : ∀ t ∈ tokens, first ≤ t.line → next ≤ t.line) :
    between tokens first next = [] := by
  rw [between, List.filter_eq_nil_iff]
  intro t ht
  have hline := h t ht
  simp only [decide_eq_true_eq]
  omega

/-- Tokens that begin their line. -/
theorem InLines.starts {line : Nat} (h : InLines line (tokens ++ more)) (hne : more ≠ [])
    (hbegins : onLine more (lineOf more) = onLine (tokens ++ more) (lineOf more)) :
    (∀ t ∈ tokens, t.line < lineOf more) ∧ ∀ t ∈ more, lineOf more ≤ t.line := by
  rcases more with _ | ⟨u, more⟩
  · exact absurd rfl hne
  · have hordered := (List.pairwise_append.mp h.ordered).2
    have hnone : onLine tokens u.line = [] := by
      rw [onLine, onLine, List.filter_append] at hbegins
      exact List.append_cancel_right (hbegins.symm.trans (List.nil_append _).symm)
    refine ⟨fun t ht => ?_, fun t ht => ?_⟩
    · have hle := (hordered.2 t ht u (List.mem_cons_self ..)).1
      have hne := List.filter_eq_nil_iff.mp hnone t ht
      simp only [decide_eq_true_eq] at hne
      exact Nat.lt_of_le_of_ne hle hne
    · rcases List.mem_cons.mp ht with rfl | ht
      · exact Nat.le_refl _
      · exact ((List.pairwise_cons.mp hordered.1).1 t ht).1

theorem InLines.head_le {line : Nat} (h : InLines line tokens) :
    ∀ t ∈ tokens, lineOf tokens ≤ t.line := by
  intro t ht
  rcases tokens with _ | ⟨u, tokens⟩
  · cases ht
  · rcases List.mem_cons.mp ht with rfl | ht
    · exact Nat.le_refl _
    · exact ((List.pairwise_cons.mp h.ordered).1 t ht).1

theorem InLines.le_newline {line k : Nat} (h : InLines line (tokens ++ ⟨.newline, k⟩ :: more)) :
    ∀ t ∈ tokens ++ [⟨.newline, k⟩], t.line ≤ k := by
  intro t ht
  rcases List.mem_append.mp ht with ht | ht
  · exact ((List.pairwise_append.mp h.ordered).2.2 t ht _ (List.mem_cons_self ..)).1
  · obtain rfl := List.mem_singleton.mp ht
    exact Nat.le_refl _

end Between

/-- The tokens of a file around the beginning of an attribute: those in front of its block, those
of the block in front of the attribute, and those from its name on. -/
structure Around (tokens pre flat above front : Tokens) (brace first start : Nat) : Prop where
  split : tokens = pre ++ ((flat ++ ⟨.mark .openBrace, brace⟩ :: above) ++ front)
  isFlat : Flat flat
  upper : ∀ t ∈ pre, t.line < first
  block : ∀ t ∈ flat ++ ⟨.mark .openBrace, brace⟩ :: above, first ≤ t.line ∧ t.line < start
  lower : ∀ t ∈ front, start ≤ t.line

namespace Around

variable {tokens pre flat above front : Tokens} {brace first start : Nat}

/-- The tokens of the block above a line. -/
theorem between_eq (h : Around tokens pre flat above front brace first start) {inner left : Tokens}
    {k : Nat} (hsplit : flat ++ ⟨.mark .openBrace, brace⟩ :: above = inner ++ left)
    (hinner : ∀ t ∈ inner, t.line < k) (hleft : ∀ t ∈ left, k ≤ t.line) (hk : k ≤ start) :
    between tokens first k = inner := by
  have hblock := h.block
  rw [hsplit] at hblock
  have hpre : between pre first k = [] :=
    between_eq_nil fun t ht hle => absurd (h.upper t ht) (Nat.not_lt.mpr hle)
  have hself : between inner first k = inner :=
    between_eq_self fun t ht => ⟨(hblock t (List.mem_append_left _ ht)).1, hinner t ht⟩
  have hnone : between left first k = [] := between_eq_nil fun t ht _ => hleft t ht
  have hfront : between front first k = [] :=
    between_eq_nil fun t ht _ => Nat.le_trans hk (h.lower t ht)
  rw [h.split, hsplit, between_append, between_append, between_append, hpre, hself, hnone, hfront,
    List.nil_append, List.append_nil, List.append_nil]

/-- The tokens from the name of the attribute on. -/
theorem between_front (h : Around tokens pre flat above front brace first start)
    (hfirst : first ≤ start) (next : Nat) :
    between tokens start next = between front start next := by
  have hupper : ∀ t ∈ pre ++ (flat ++ ⟨.mark .openBrace, brace⟩ :: above), t.line < start := by
    intro t ht
    rcases List.mem_append.mp ht with ht | ht
    · exact Nat.lt_of_lt_of_le (h.upper t ht) hfirst
    · exact (h.block t ht).2
  rw [h.split, ← List.append_assoc, between_append,
    between_eq_nil fun t ht hle => absurd (hupper t ht) (Nat.not_lt.mpr hle), List.nil_append]

/-- In front of an attribute of a block the depth is one. -/
theorem nesting_start (h : Around tokens pre flat above front brace first start)
    (habove : nesting above = 0) : nesting (between tokens first start) = 1 := by
  rw [h.between_eq (List.append_nil _).symm (fun t ht => (h.block t ht).2) nofun (Nat.le_refl _)]
  simp [h.isFlat.nesting_eq, habove, Token.nesting]

/-- Two tokens on a line of the block above the attribute stand between what is in front of the
block and the attribute. -/
theorem tokens_in_block (h : Around tokens pre flat above front brace first start)
    {t u : Located} {upper left : Tokens} (htokens : tokens = upper ++ t :: u :: left)
    (hfirst : first ≤ t.line) (hstart : u.line < start) :
    ∃ inner more, upper = pre ++ inner
      ∧ flat ++ ⟨.mark .openBrace, brace⟩ :: above = inner ++ t :: u :: more
      ∧ left = more ++ front := by
  -- both tokens stand in front of the attribute
  obtain ⟨more, hmore, rfl⟩ : ∃ more, pre ++ (flat ++ ⟨.mark .openBrace, brace⟩ :: above)
      = (upper ++ [t, u]) ++ more ∧ left = more ++ front := by
    have hfull : (pre ++ (flat ++ ⟨.mark .openBrace, brace⟩ :: above)) ++ front
        = (upper ++ [t, u]) ++ left := by
      rw [List.append_assoc, ← h.split, htokens]
      simp
    rcases List.append_eq_append_iff.mp hfull with ⟨rest, hrest, rfl⟩ | hmore
    · rcases rest with _ | ⟨v, rest⟩
      · exact ⟨[], by rw [List.append_nil, hrest, List.append_nil], rfl⟩
      · have hlast := congrArg List.getLast? hrest
        rw [List.getLast?_append_of_ne_nil _ (List.cons_ne_nil _ _),
          List.getLast?_append_of_ne_nil _ (List.cons_ne_nil v rest)] at hlast
        have hmem := List.mem_of_getLast? hlast.symm
        have hlower := h.lower _ (List.mem_append_left _ hmem)
        exact absurd hlower (Nat.not_le.mpr hstart)
    · exact hmore
  -- and behind the tokens in front of the block
  rw [List.append_assoc] at hmore
  rcases List.append_eq_append_iff.mp hmore with ⟨inner, hupper, hinner⟩ | ⟨rest, rfl, hrest⟩
  · exact ⟨inner, more, hupper, hinner, rfl⟩
  · rcases rest with _ | ⟨v, rest⟩
    · exact ⟨[], more, by rw [List.append_nil, List.append_nil], hrest.symm, rfl⟩
    · obtain ⟨rfl, -⟩ := List.cons.inj hrest
      have hupper := h.upper _ (List.mem_append_right _ (List.mem_cons_self ..))
      exact absurd hupper (Nat.not_lt.mpr hfirst)

/-- A name with a sign behind it that stands at depth one and begins its line stands outside of the
brackets of the body. -/
theorem of_sign (h : Around tokens pre flat above front brace first start)
    {name : String} {sign : Token} {k : Nat} {upper left : Tokens}
    (htokens : tokens = upper ++ ⟨.word name, k⟩ :: ⟨sign, k⟩ :: left)
    (hupper : ∀ t ∈ upper, t.line < k) (hleft : ∀ t ∈ left, k ≤ t.line) (hfirst : first ≤ k)
    (hstart : k < start) (hdepth : nesting (between tokens first k) = 1) :
    ∃ inner more, above = inner ++ ⟨.word name, k⟩ :: ⟨sign, k⟩ :: more ∧ nesting inner = 0 := by
  obtain ⟨inner, more, rfl, hinner, rfl⟩ := h.tokens_in_block htokens hfirst hstart
  have hbelow : ∀ t ∈ ⟨.word name, k⟩ :: ⟨sign, k⟩ :: more, k ≤ t.line := by
    refine List.forall_mem_cons.mpr ⟨Nat.le_refl _, List.forall_mem_cons.mpr ⟨Nat.le_refl _, ?_⟩⟩
    exact fun t ht => hleft t (List.mem_append_left _ ht)
  rw [h.between_eq hinner (fun t ht => hupper t (List.mem_append_right _ ht)) hbelow
    (Nat.le_of_lt hstart)] at hdepth
  rcases List.append_eq_append_iff.mp hinner with ⟨rest, rfl, hrest⟩ | ⟨rest, rfl, -⟩
  · rcases rest with _ | ⟨t, rest⟩
    · cases (Located.mk.inj (List.cons.inj hrest).1).1
    · obtain ⟨rfl, habove⟩ := List.cons.inj hrest
      refine ⟨rest, more, habove, ?_⟩
      rw [nesting_append, nesting_cons, h.isFlat.nesting_eq] at hdepth
      simp only [Token.nesting] at hdepth
      omega
  · have hflat : Flat inner := fun t ht => h.isFlat t (List.mem_append_left _ ht)
    rw [hflat.nesting_eq] at hdepth
    cases hdepth

end Around

section Lines

variable {content : List Char} {tokens : Tokens}

theorem drop_lines {k : Nat} (hpos : 1 ≤ k) (hle : k ≤ (Text.splitNewlines content).length) :
    (Text.splitNewlines content).drop (k - 1)
      = lineAt content k :: (Text.splitNewlines content).drop k := by
  have hlt : k - 1 < (Text.splitNewlines content).length := by omega
  rw [List.drop_eq_getElem_cons hlt, lineAt, List.getElem?_eq_getElem hlt, Option.getD_some,
    Nat.sub_add_cancel hpos]

theorem newline_notMem_lineAt (content : List Char) (k : Nat) : '\n' ∉ lineAt content k := by
  rw [lineAt]
  rcases hline : (Text.splitNewlines content)[k - 1]? with _ | line
  · exact List.not_mem_nil
  · exact Text.newline_notMem_line content line (List.mem_of_getElem? hline)

/-- The lines up to one that ends in a token are read for themselves. -/
theorem Lexed.split_lines (h : Lexed false 1 (content ++ ['\n']) tokens) {k : Nat} (hpos : 1 ≤ k)
    (hmem : ⟨.newline, k⟩ ∈ tokens) : ∃ upper behind,
    tokens = upper ++ ⟨.newline, k⟩ :: behind
      ∧ Lexed false (k + 1) (Text.endLines ((Text.splitNewlines content).drop k)) behind := by
  have hk := h.newline_line hmem
  rw [← Text.endLines_splitNewlines,
    Text.count_endLines (Text.newline_notMem_line content)] at hk
  have htake : ((Text.splitNewlines content).take k).length = k := by
    rw [List.length_take]
    omega
  have hne : (Text.splitNewlines content).take k ≠ [] := by
    rw [← List.length_pos_iff, htake]
    exact hpos
  have hcontent : content ++ ['\n'] = Text.endLines ((Text.splitNewlines content).take k)
      ++ Text.endLines ((Text.splitNewlines content).drop k) := by
    rw [← Text.endLines_append, List.take_append_drop, Text.endLines_splitNewlines]
  have hcount : (Text.endLines ((Text.splitNewlines content).take k)).count '\n' = k := by
    rw [Text.count_endLines fun line hline =>
      Text.newline_notMem_line content line (List.mem_of_mem_take hline), htake]
  obtain ⟨own, behind, htokens, hsplits⟩ :=
    h.split hcontent (Text.getLast?_endLines hne) (by rw [hcount, Nat.add_comm]) hmem
  exact ⟨own, behind, htokens, hsplits.behind⟩

theorem take_split {α : Type} {l front back : List α} {m : Nat} (h : l.take m = front ++ back) :
    front = l.take front.length := by
  have htake := congrArg (List.take front.length) h
  rw [List.take_left, List.take_take] at htake
  have hle := congrArg List.length h
  rw [List.length_append, List.length_take] at hle
  rw [Nat.min_eq_left (by omega)] at htake
  exact htake.symm

/-- A line among those from a line on. -/
theorem eq_lineAt {first m : Nat} {front back : List (List Char)} {text : List Char}
    (hfirst : 1 ≤ first)
    (h : ((Text.splitNewlines content).drop (first - 1)).take m = front ++ text :: back) :
    text = lineAt content (first + front.length) := by
  have hlength := congrArg List.length h
  rw [List.length_take, List.length_append, List.length_cons] at hlength
  have hline := congrArg (fun lines => lines[front.length]?) h
  simp only [List.getElem?_take, List.getElem?_append_right (Nat.le_refl _), Nat.sub_self,
    List.getElem?_cons_zero, List.getElem?_drop] at hline
  rw [if_pos (by omega)] at hline
  rw [lineAt, Nat.add_comm first, Nat.add_sub_assoc hfirst, Nat.add_comm, hline, Option.getD_some]

end Lines

section Found

variable {content : List Char} {pre flat above rest : Tokens} {block part : Part}
  {names : List String} {brace : Nat}

/-- No line of the block above the attribute assigns its name at depth one. -/
theorem LaidOut.not_assigns (h : LaidOut content block part)
    (hlexed : Lexed false 1 (content ++ ['\n']) (tokensOf content))
    (haround : Around (tokensOf content) pre flat above part.front brace (lineOf block.front)
      (lineOf part.front)) (hsigns : Signs names above)
    (hname : IsName part.item.name.toList) (hfirst : part.item.name ∉ names) {k : Nat}
    (hpos : 1 ≤ lineOf block.front) (hk : lineOf block.front < k) (hk' : k < lineOf part.front)
    (hlines : k ≤ (Text.splitNewlines content).length)
    (hdepth : nesting (between (tokensOf content) (lineOf block.front) k) = 1) :
    assigns part.item.name.toList (lineAt content k) ≠ true := by
  intro hassigns
  obtain ⟨upper, behind, htokens, hbehind⟩ := hlexed.split_lines (k := k - 1) (by omega)
    (h.alone k hk hk' hassigns)
  rw [Nat.sub_add_cancel (by omega), drop_lines (by omega) hlines, Text.endLines_cons] at hbehind
  obtain ⟨sign, left, rfl, hsign⟩ :=
    hbehind.of_assigns hname (newline_notMem_lineAt content k) hassigns
  rw [String.ofList_toList] at htokens
  have hinLines := hlexed.inLines
  rw [htokens] at hinLines
  have hupper : ∀ t ∈ upper ++ [⟨.newline, k - 1⟩], t.line < k := fun t ht => by
    have hle := hinLines.le_newline t ht
    omega
  have hleft : ∀ t ∈ left, k ≤ t.line := fun t ht =>
    hbehind.inLines.above t (List.mem_cons_of_mem _ (List.mem_cons_of_mem _ ht))
  have hsplit : tokensOf content = (upper ++ [⟨.newline, k - 1⟩])
      ++ ⟨.word part.item.name, k⟩ :: ⟨sign, k⟩ :: left := by
    rw [htokens, List.append_assoc]
    rfl
  obtain ⟨inner, more, rfl, hinner⟩ :=
    haround.of_sign hsplit hupper hleft (Nat.le_of_lt hk) hk' hdepth
  obtain ⟨above', name', line', heq, hmem⟩ := hsigns.named (inner ++ [⟨.word part.item.name, k⟩])
    ⟨sign, k⟩ more (by simp) (by simp [hinner, Token.nesting]) hsign
  obtain ⟨-, hsame⟩ := List.append_inj' heq rfl
  obtain ⟨htoken, -⟩ := Located.mk.inj (List.cons.inj hsame).1
  exact hfirst (Token.word.inj htoken ▸ hmem)

end Found

section Attribute

/-- The first attribute of its name in a block of a file, where the block ends in some line. -/
structure FirstOf (content : List Char) (block part : Part) (last : Nat) : Prop where
  lexed : Lexed false 1 (content ++ ['\n']) (tokensOf content)
  upper : ∃ pre, tokensOf content = pre ++ block.front
  isBlock : ∃ type line rest labels body first, block.IsRead type line rest
    ∧ block.item = .block type labels body first last
  isPart : ∃ name line rest, part.IsRead name line rest
  first : ∃ before after, block.inside = before ++ part :: after
    ∧ part.item.name ∉ attributeNames (before.map Part.item)

/-- The tokens of a file around an attribute that begins and ends its lines. -/
structure Spans (tokens upper own below : Tokens) (start stop : Nat) : Prop where
  split : tokens = upper ++ (own ++ ⟨.newline, stop⟩ :: below)
  above : ∀ t ∈ upper, t.line < start
  among : ∀ t ∈ own, start ≤ t.line ∧ t.line ≤ stop
  beyond : ∀ t ∈ below, stop < t.line

theorem Spans.between_all {tokens upper own below : Tokens} {start stop : Nat}
    (h : Spans tokens upper own below start stop) (hle : start ≤ stop) :
    between tokens start (stop + 1) = own ++ [⟨.newline, stop⟩] := by
  have hupper : between upper start (stop + 1) = [] :=
    between_eq_nil fun t ht hline => absurd (h.above t ht) (Nat.not_lt.mpr hline)
  have hbelow : between below start (stop + 1) = [] := between_eq_nil fun t ht _ => h.beyond t ht
  have hown : between (own ++ [⟨.newline, stop⟩]) start (stop + 1) = own ++ [⟨.newline, stop⟩] := by
    refine between_eq_self fun t ht => ?_
    rcases List.mem_append.mp ht with ht | ht
    · exact ⟨(h.among t ht).1, Nat.lt_succ_of_le (h.among t ht).2⟩
    · obtain rfl := List.mem_singleton.mp ht
      exact ⟨hle, Nat.lt_succ_self _⟩
  have hsplit : tokens = upper ++ ((own ++ [⟨.newline, stop⟩]) ++ below) := by
    rw [h.split, List.append_assoc]
    rfl
  rw [hsplit, between_append, between_append, hupper, hown, hbelow, List.append_nil,
    List.nil_append]

section First

variable {content : List Char} {block part : Part} {last : Nat}

theorem FirstOf.around (h : FirstOf content block part last) (hlaid : LaidOut content block part) :
    ∃ names pre flat above brace,
      Around (tokensOf content) pre flat above part.front brace (lineOf block.front)
        (lineOf part.front) ∧ Signs names above ∧ part.item.name ∉ names := by
  obtain ⟨pre, hpre⟩ := h.upper
  obtain ⟨type, line, rest, labels, body, first, hread, hitem⟩ := h.isBlock
  obtain ⟨name, line', rest', hpart⟩ := h.isPart
  obtain ⟨before, after, hinside, hname⟩ := h.first
  obtain ⟨flat, above, brace, hfront, hflat, hsigns⟩ := hread.standsIn hitem hinside
  have hne : part.front ≠ [] := by
    rw [hpart.front]
    exact List.cons_ne_nil _ _
  have hne' : block.front ≠ [] := by
    rw [hread.front]
    exact List.cons_ne_nil _ _
  have hlines := h.lexed.inLines
  have hsplit : tokensOf content
      = pre ++ ((⟨.word type, line⟩ :: flat ++ ⟨.mark .openBrace, brace⟩ :: above)
        ++ part.front) := by
    rw [hpre, hfront]
    simp
  have hblock := hlaid.blockBegins
  have hbegins := hlaid.begins
  rw [hpre] at hlines hblock
  obtain ⟨hupper, hlower⟩ := hlines.starts hne' hblock
  rw [← hpre, hsplit, ← List.append_assoc] at hlines
  rw [hsplit, ← List.append_assoc] at hbegins
  obtain ⟨habove, hbelow⟩ := hlines.starts hne hbegins
  refine ⟨_, pre, _, above, brace, ⟨hsplit, hflat, hupper, fun t ht => ⟨?_, ?_⟩, hbelow⟩,
    hsigns, hname⟩
  · refine hlower t ?_
    rw [hfront, ← List.cons_append, ← List.append_assoc]
    exact List.mem_append_left _ ht
  · exact habove t (List.mem_append_right _ ht)

/-- How the attribute was read, up to the end of its line. -/
theorem FirstOf.spans (h : FirstOf content block part last) (hlaid : LaidOut content block part) :
    ∃ upper sign read below value,
      part.Assigns part.item.name (lineOf part.front) sign read value
      ∧ part.left = ⟨.newline, lineOf part.left⟩ :: below
      ∧ Spans (tokensOf content) upper
        (⟨.word part.item.name, lineOf part.front⟩ :: ⟨.mark .assign, sign⟩ :: read) below
        (lineOf part.front) (lineOf part.left) := by
  obtain ⟨names, pre, flat, above, brace, haround, -, -⟩ := h.around hlaid
  obtain ⟨value, hitem⟩ := hlaid.isAttribute
  obtain ⟨name, line, rest, hpart⟩ := h.isPart
  obtain ⟨sign, read, hassigns⟩ := hpart.assigns hitem
  have hline : lineOf part.front = line := by
    rw [hpart.front]
    rfl
  obtain ⟨stop, below, hleft⟩ : ∃ stop below, part.left = ⟨.newline, stop⟩ :: below := by
    have hends := hlaid.ends
    rcases hleft : part.left with _ | ⟨⟨t, stop⟩, below⟩
    · rw [hleft] at hends
      cases hends
    · rw [hleft] at hends
      obtain rfl := Option.some.inj hends
      exact ⟨stop, below, rfl⟩
  have hstop : lineOf part.left = stop := by
    rw [hleft]
    rfl
  have hsplit : tokensOf content = (pre ++ (flat ++ ⟨.mark .openBrace, brace⟩ :: above))
      ++ ((⟨.word part.item.name, line⟩ :: ⟨.mark .assign, sign⟩ :: read)
        ++ ⟨.newline, stop⟩ :: below) := by
    rw [haround.split, hassigns.front, hleft, ← List.append_assoc pre]
  have hordered := h.lexed.inLines.ordered
  rw [hsplit] at hordered
  have hinner := List.pairwise_append.mp (List.pairwise_append.mp hordered).2.1
  rw [hline, hstop]
  refine ⟨_, sign, read, below, value, hassigns, hleft, hsplit, fun t ht => ?_,
    fun t ht => ⟨?_, ?_⟩, fun t ht => ?_⟩
  · rcases List.mem_append.mp ht with ht | ht
    · exact hline ▸ Nat.lt_trans (haround.upper t ht) hlaid.below
    · exact hline ▸ (haround.block t ht).2
  · refine hline ▸ haround.lower t ?_
    rw [hassigns.front]
    exact List.mem_append_left _ ht
  · exact (hinner.2.2 t ht _ (List.mem_cons_self ..)).1
  · exact ((List.pairwise_cons.mp hinner.2.1).1 t ht).2 rfl

/-- The attribute stands within the lines of its block and of the file. -/
theorem FirstOf.lines (h : FirstOf content block part last) (hlaid : LaidOut content block part) :
    1 ≤ lineOf block.front ∧ lineOf part.front ≤ lineOf part.left
      ∧ lineOf part.left ≤ last
      ∧ lineOf part.left ≤ (Text.splitNewlines content).length := by
  obtain ⟨pre, hpre⟩ := h.upper
  obtain ⟨type, line, rest, labels, body, first, hread, hitem⟩ := h.isBlock
  obtain ⟨before, after, hinside, -⟩ := h.first
  obtain ⟨upper, sign, read, below, value, hassigns, hbehind, hspans⟩ := h.spans hlaid
  refine ⟨?_, ?_, ?_, ?_⟩
  · have habove := h.lexed.inLines
    rw [hpre, hread.front] at habove
    rw [hread.front]
    exact habove.above _ (List.mem_append_right _ (List.mem_cons_self ..))
  · exact (hspans.among _ (List.mem_cons_self ..)).2
  · obtain ⟨left, hleft⟩ := hread.closes hitem (by
      rw [hinside]
      exact List.mem_append_right _ (List.mem_cons_self ..) : part ∈ block.inside)
    obtain ⟨newlines, hnewlines, -⟩ := hassigns.left
    have hlines := h.lexed.inLines
    rw [hspans.split, ← hbehind] at hlines
    refine hlines.right.right.head_le ⟨.mark .closeBrace, last⟩ ?_
    rw [hnewlines, hleft]
    exact List.mem_append_right _ (List.mem_append_right _ (List.mem_cons_self ..))
  · have hmem : ⟨.newline, lineOf part.left⟩ ∈ tokensOf content := by
      rw [hspans.split]
      exact List.mem_append_right _ (List.mem_append_right _ (List.mem_cons_self ..))
    have hline := h.lexed.newline_line hmem
    rw [← Text.endLines_splitNewlines,
      Text.count_endLines (Text.newline_notMem_line content)] at hline
    omega

/-- Up to the end of the attribute, the brackets of lines are those of the tokens in them. -/
theorem FirstOf.deltas (h : FirstOf content block part last) (hlaid : LaidOut content block part)
    {first : Nat} (hfirst : lineOf block.front ≤ first) {n : Nat}
    (hn : first + n ≤ lineOf part.left + 1) :
    ConfigText.deltas (((Text.splitNewlines content).drop (first - 1)).take n)
      = nesting (between (tokensOf content) first (first + n)) := by
  obtain ⟨hpos, -, -, hlines⟩ := h.lines hlaid
  exact deltas_between (Nat.le_trans hpos hfirst) (Nat.succ_le_succ hlines)
    (fun k hk hk' => hlaid.counted k (Nat.le_trans hfirst hk) (Nat.le_of_lt_succ hk')) n hn

/-- The attribute ends where its brackets balance. -/
theorem FirstOf.attributeEnd_eq (h : FirstOf content block part last)
    (hlaid : LaidOut content block part) :
    ConfigText.attributeEnd last 0 (lineOf part.front)
        ((Text.splitNewlines content).drop (lineOf part.front - 1))
      = .ok (lineOf part.left) := by
  obtain ⟨hpos, hle, hlast, hlines⟩ := h.lines hlaid
  obtain ⟨names, pre, flat, above, brace, haround, -, -⟩ := h.around hlaid
  obtain ⟨upper, sign, read, below, value, hassigns, -, hspans⟩ := h.spans hlaid
  have hbelow := Nat.le_of_lt hlaid.below
  have hdeltas {n : Nat} := h.deltas hlaid hbelow (n := n)
  have hinside := hlaid.inside
  generalize lineOf part.front = start at *
  generalize lineOf part.left = stop at *
  let texts := (Text.splitNewlines content).drop (start - 1)
  have hrest : texts.drop (stop - start)
      = lineAt content stop :: (Text.splitNewlines content).drop stop := by
    rw [← drop_lines (by omega) hlines, List.drop_drop]
    congr 1
    omega
  have hlength : (texts.take (stop - start)).length = stop - start := by
    rw [List.length_take, List.length_drop]
    omega
  have hopen : ∀ front back, texts.take (stop - start) = front ++ back → front ≠ [] →
      0 < 0 + ConfigText.deltas front := by
    intro front back heq hne
    have hfront := List.length_pos_iff.mpr hne
    have hshort := congrArg List.length heq
    rw [hlength, List.length_append] at hshort
    have hnesting := hinside (start + front.length - 1) (by omega) (by omega)
    rw [Nat.sub_add_cancel (by omega), ← haround.between_front hbelow, ← hdeltas (by omega),
      ← take_split heq] at hnesting
    rwa [Int.zero_add]
  have hclosed :
      0 + ConfigText.deltas (texts.take (stop - start) ++ [lineAt content stop]) ≤ 0 := by
    have htake : texts.take (stop - start) ++ [lineAt content stop]
        = texts.take (stop - start + 1) := by
      rw [List.take_add, hrest]
      rfl
    rw [htake, hdeltas (by omega), ← Nat.add_assoc, Nat.add_sub_cancel' hle, hspans.between_all hle,
      nesting_append, nesting_cons, nesting_cons, hassigns.balanced]
    exact Int.le_refl _
  have hrun : ConfigText.attributeEnd last 0 start (texts.take (stop - start)
        ++ lineAt content stop :: (Text.splitNewlines content).drop stop)
      = .ok (start + (texts.take (stop - start)).length) :=
    ConfigText.attributeEnd_run hopen hclosed (by omega)
  rw [← hrest, List.take_append_drop, hlength] at hrun
  rw [hrun]
  congr 1
  omega

/-- No line above the attribute assigns its name at depth one. -/
theorem FirstOf.passes (h : FirstOf content block part last) (hlaid : LaidOut content block part)
    (front : List (List Char)) (text : List Char) (back : List (List Char))
    (heq : ((Text.splitNewlines content).drop (lineOf block.front - 1)).take
      (lineOf part.front - lineOf block.front) = front ++ text :: back) :
    ¬ (0 + ConfigText.deltas front = 1 ∧ assigns part.item.name.toList text = true) := by
  rintro ⟨hdepth, htext⟩
  obtain ⟨hpos, hle, -, hlines⟩ := h.lines hlaid
  obtain ⟨names, pre, flat, above, brace, haround, hsigns, hname⟩ := h.around hlaid
  obtain ⟨upper, sign, read, below, value, -, -, hspans⟩ := h.spans hlaid
  have hword : IsName part.item.name.toList := by
    refine h.lexed.isName (k := lineOf part.front) ?_
    rw [hspans.split]
    exact List.mem_append_right _ (List.mem_append_left _ (List.mem_cons_self ..))
  have hshort := congrArg List.length heq
  rw [List.length_take, List.length_append, List.length_cons] at hshort
  have hbelow := hlaid.below
  rw [take_split heq, h.deltas hlaid (Nat.le_refl _) (by omega), Int.zero_add] at hdepth
  rcases Nat.eq_zero_or_pos front.length with hzero | hfront
  · rw [hzero, Nat.add_zero, nesting_between_self] at hdepth
    cases hdepth
  · rw [eq_lineAt hpos heq] at htext
    exact hlaid.not_assigns h.lexed haround hsigns hword hname hpos (by omega) (by omega) (by omega)
      hdepth htext

/-- The attribute begins at the first line at depth one that assigns its name. -/
theorem FirstOf.attributeLines_eq (h : FirstOf content block part last)
    (hlaid : LaidOut content block part) :
    ConfigText.attributeLines part.item.name.toList last 0 (lineOf block.front)
        ((Text.splitNewlines content).drop (lineOf block.front - 1))
      = .ok (some (lineOf part.front, lineOf part.left)) := by
  obtain ⟨hpos, hle, hlast, hlines⟩ := h.lines hlaid
  obtain ⟨names, pre, flat, above, brace, haround, hsigns, -⟩ := h.around hlaid
  have habove := hsigns.nested.nesting_eq
  have hbelow := hlaid.below
  have hend := h.attributeEnd_eq hlaid
  have hdeltas {n : Nat} := h.deltas hlaid (Nat.le_refl _) (n := n)
  have hpass := h.passes hlaid
  have hnamed := hlaid.named
  generalize lineOf part.front = start at *
  generalize lineOf part.left = stop at *
  generalize lineOf block.front = first at *
  let texts := (Text.splitNewlines content).drop (first - 1)
  have hrest : texts.drop (start - first) = (Text.splitNewlines content).drop (start - 1) := by
    rw [List.drop_drop]
    congr 1
    omega
  have hlength : (texts.take (start - first)).length = start - first := by
    rw [List.length_take, List.length_drop]
    omega
  have hrun : ConfigText.attributeLines part.item.name.toList last 0 first
        (texts.take (start - first) ++ texts.drop (start - first))
      = ConfigText.attributeLines part.item.name.toList last
        (0 + ConfigText.deltas (texts.take (start - first)))
        (first + (texts.take (start - first)).length) (texts.drop (start - first)) :=
    ConfigText.attributeLines_run hpass (by omega)
  have hdepth : 0 + ConfigText.deltas (texts.take (start - first)) = 1 := by
    rw [hdeltas (by omega), Nat.add_sub_cancel' (Nat.le_of_lt hbelow), haround.nesting_start habove]
    rfl
  have hline : (first : Int) + (texts.take (start - first)).length = start := by
    rw [hlength]
    omega
  rw [List.take_append_drop, hdepth, hline, hrest] at hrun
  rw [hrun]
  rw [drop_lines (by omega) (by omega)] at hend ⊢
  rw [ConfigText.attributeLines, if_neg (by omega), if_pos ⟨rfl, hnamed⟩, hend]
  rfl

/-- The lines of an attribute are those from its name to the end of its value. -/
theorem FirstOf.locateAttribute_eq (h : FirstOf content block part last)
    (hlaid : LaidOut content block part) {span : Span}
    (hstart : span.startLine = lineOf block.front)
    (hend : span.endLine = last) (tree : Body) :
    (ConfigText.ofContent content tree).locateAttribute span part.item.name
      = .ok ⟨lineOf part.front, lineOf part.left, (ConfigText.ofContent content tree).sourceText
          (lineOf part.front) (lineOf part.left)⟩ := by
  obtain ⟨hpos, -, -, -⟩ := h.lines hlaid
  have hfound : span.found = true := by
    rw [Span.found, hstart, decide_eq_true_eq]
    omega
  have hlines : (ConfigText.ofContent content tree).lines = Text.splitNewlines content := rfl
  simp only [ConfigText.locateAttribute, hfound, hstart, hend, hlines, Int.toNat_natCast,
    h.attributeLines_eq hlaid]
  rfl

end First

end Attribute

end Hcl

end TerraIndex
