import Mathlib.Data.List.Forall2
import TerraIndex.Proofs.Hcl.Locality
import TerraIndex.Proofs.Source.AttributeSpan
/-!
# The source of an attribute

The lines of an attribute that is laid out hold all of it: between the first line of a `locals`
block and its closing brace they are read as that attribute and nothing else
(`FirstOf.parse_wrapped`).
-/

namespace TerraIndex.Hcl

/-- The first line of a `locals` block. -/
def opening : List Char := "locals \x7b\n".toList

/-- Lines between the first line of a `locals` block and its closing brace. -/
def wrapped (source : List Char) : List Char := opening ++ (source ++ ['\n', '}'])

theorem wrapped_joinNewlines {lines : List (List Char)} (hne : lines ≠ []) :
    wrapped (Text.joinNewlines lines) ++ ['\n']
      = opening ++ (Text.endLines lines ++ closingLine) := by
  rw [wrapped, ← Text.joinNewlines_newline hne]
  simp [closingLine]

section Lines

variable {content : List Char} {tokens upper own below : Tokens} {start stop : Nat}

/-- The tokens of some lines are the ones between those above and those below. -/
theorem Spans.unique {upper' own' below' : Tokens} (h : Spans tokens upper own below start stop)
    (h' : Spans tokens upper' own' below' start stop) (hle : start ≤ stop) : own = own' :=
  List.append_cancel_right ((h.between_all hle).symm.trans (h'.between_all hle))

theorem count_lines (h : stop ≤ (Text.splitNewlines content).length) :
    (Text.endLines (((Text.splitNewlines content).take stop).drop (start - 1))).count '\n'
      = stop - (start - 1) := by
  rw [Text.count_endLines fun line hline =>
      Text.newline_notMem_line content line (List.mem_of_mem_take (List.mem_of_mem_drop hline)),
    List.length_drop, List.length_take]
  omega

theorem endLines_drop (hle : start ≤ stop + 1)
    (hlines : stop ≤ (Text.splitNewlines content).length) :
    Text.endLines ((Text.splitNewlines content).drop (start - 1))
      = Text.endLines (((Text.splitNewlines content).take stop).drop (start - 1))
        ++ Text.endLines ((Text.splitNewlines content).drop stop) := by
  rw [← Text.endLines_append]
  congr 1
  conv_lhs => rw [← List.take_append_drop stop (Text.splitNewlines content)]
  rw [List.drop_append_of_le_length (by rw [List.length_take]; omega)]

/-- Tokens between two newlines that end the lines in front of `start` and up to `stop`. -/
theorem spans_of_newlines {above own : Tokens} {line : Nat} (hline : InLines line tokens)
    (htokens : tokens = above ++ ⟨.newline, start - 1⟩ :: (own ++ ⟨.newline, stop⟩ :: below))
    (hstart : 1 < start) (hbelow : InLines start (own ++ ⟨.newline, stop⟩ :: below)) :
    Spans tokens (above ++ [⟨.newline, start - 1⟩]) own below start stop where
  split := by
    rw [htokens, List.append_assoc]
    rfl
  above t ht := by
    rw [htokens] at hline
    have hle := hline.le_newline t ht
    omega
  among t ht := ⟨hbelow.above t (List.mem_append_left _ ht),
    hbelow.le_newline t (List.mem_append_left _ ht)⟩
  beyond t ht :=
    ((List.pairwise_cons.mp (List.pairwise_append.mp hbelow.ordered).2.1).1 t ht).2 rfl

/-- The lines read for themselves, in any place, with a closing brace below them. -/
theorem Spans.closed (h : Spans tokens upper own below start stop)
    (hlexed : Lexed false 1 (content ++ ['\n']) tokens) (hstart : 1 < start) (hle : start ≤ stop)
    (hlines : stop ≤ (Text.splitNewlines content).length)
    (hnewline : ⟨.newline, start - 1⟩ ∈ tokens) (line : Nat) :
    ∃ own' last' below', Renumbered own own' ∧
      Lexed false line
        (Text.endLines (((Text.splitNewlines content).take stop).drop (start - 1)) ++ closingLine)
        (own' ++ [⟨.newline, last'⟩, ⟨.mark .closeBrace, below'⟩, ⟨.newline, below'⟩]) := by
  obtain ⟨front, behind, htokens, hbehind⟩ := hlexed.split_lines (by omega) hnewline
  rw [Nat.sub_add_cancel (by omega)] at hbehind
  have hmem : ⟨.newline, stop⟩ ∈ behind := by
    have hinLines := hlexed.inLines
    have hall : ⟨.newline, stop⟩ ∈ (front ++ [⟨.newline, start - 1⟩]) ++ behind := by
      rw [List.append_assoc, List.singleton_append, ← htokens, h.split]
      exact List.mem_append_right _ (List.mem_append_right _ (List.mem_cons_self ..))
    rw [htokens] at hinLines
    refine (List.mem_append.mp hall).resolve_left fun hfront => ?_
    have hle : stop ≤ start - 1 := hinLines.le_newline _ hfront
    omega
  have hne : ((Text.splitNewlines content).take stop).drop (start - 1) ≠ [] := by
    rw [← List.length_pos_iff, List.length_drop, List.length_take]
    omega
  obtain ⟨own', below', rfl, hsplits⟩ := hbehind.split (endLines_drop (by omega) hlines)
    (Text.getLast?_endLines hne) (by rw [count_lines hlines]; omega) hmem
  -- the tokens of these lines are the attribute's
  rw [h.unique (spans_of_newlines hlexed.inLines htokens hstart hbehind.inLines) hle]
  exact hsplits.closed line

/-- Below the first line of a `locals` block. -/
theorem Lexed.below_opening {rest : List Char} (h : Lexed false 2 rest tokens) :
    Lexed false 1 (opening ++ rest)
      (⟨.word "locals", 1⟩ :: ⟨.mark .openBrace, 1⟩ :: ⟨.newline, 1⟩ :: tokens) := by
  have hname : scanLexeme false (opening ++ rest)
      = some ⟨some (.word "locals"), 0, " \x7b\n".toList ++ rest⟩ := rfl
  have hblank : scanLexeme false (" \x7b\n".toList ++ rest)
      = some ⟨none, 0, "\x7b\n".toList ++ rest⟩ := rfl
  exact .token hname (.blank hblank (.token rfl (.token rfl h)))

end Lines

section Read

variable {part : Part} {name : String} {line sign : Nat} {read : Tokens} {value : Expr}

theorem Renumbered.alike {tokens tokens' behind behind' left left' : Tokens}
    (h : Renumbered tokens tokens') (hleft : Alike behind behind' left left') :
    Alike behind behind' (tokens ++ left) (tokens' ++ left') := by
  induction h with
  | nil => exact hleft
  | @cons t t' _ _ ht _ ih =>
    obtain ⟨token, line⟩ := t
    obtain ⟨token', line'⟩ := t'
    obtain rfl : token = token' := ht
    exact .cons ih

/-- A closing brace in the next line ends the body that the attribute stands in. -/
theorem Part.Assigns.parseBody_closed (h : part.Assigns name line sign read value) {read' : Tokens}
    {stop line' sign' last below fuel : Nat} {behind : Tokens}
    (hleft : part.left = ⟨.newline, stop⟩ :: behind) (hread : Renumbered read read')
    (hfuel : 8 * read'.length + 29 < fuel) :
    parseBody fuel ((⟨.word name, line'⟩ :: ⟨.mark .assign, sign'⟩ :: read')
        ++ [⟨.newline, last⟩, ⟨.mark .closeBrace, below⟩, ⟨.newline, below⟩])
      = some ([.attribute name value], [⟨.mark .closeBrace, below⟩, ⟨.newline, below⟩]) := by
  obtain ⟨fuel, rfl⟩ : ∃ n, fuel = n + 3 := ⟨fuel - 3, by omega⟩
  obtain ⟨newlines, hnewlines, hall⟩ := h.left
  have hskip : skipNewlines part.left = skipNewlines part.behind := by
    rw [hnewlines, skipNewlines_append hall]
  have hb : Behind (skipNewlines part.left) [⟨.mark .closeBrace, below⟩, ⟨.newline, below⟩] :=
     ⟨skipNewlines_of_first (first_skipNewlines part.left), rfl⟩
  have halike : Alike (skipNewlines part.left) [⟨.mark .closeBrace, below⟩, ⟨.newline, below⟩]
      (read ++ part.left)
      (read' ++ [⟨.newline, last⟩, ⟨.mark .closeBrace, below⟩, ⟨.newline, below⟩]) := by
    refine hread.alike ?_
    rw [hleft]
    exact .breaks rfl rfl
  have hkept : Kept (skipNewlines part.left) [⟨.mark .closeBrace, below⟩, ⟨.newline, below⟩]
      (parseExpr (fuel + 1)
        (read' ++ [⟨.newline, last⟩, ⟨.mark .closeBrace, below⟩, ⟨.newline, below⟩]))
      value part.behind := by
    refine parseExpr_alike hb h.parse halike (hskip ▸ length_skipNewlines part.behind) ?_
    rw [List.length_append, List.length_cons, List.length_cons, List.length_singleton]
    omega
  obtain ⟨rest, hvalue, hrest⟩ := hkept
  have hend := hrest.skip hb
  rw [← hskip] at hend
  have hbody : parseBody (fuel + 2) rest
      = some ([], [⟨.mark .closeBrace, below⟩, ⟨.newline, below⟩]) := by
    rw [parseBody, hend.at_end hb]
  rw [parseBody, List.cons_append, List.cons_append, skipNewlines_of_first (by simp)]
  simp only [parseItem, hvalue, hbody, Option.bind_eq_bind, Option.bind_some, Option.pure_def]

/-- The same in a block of its own, with the fuel that its tokens give. -/
theorem Part.Assigns.parseBody_wrapped (h : part.Assigns name line sign read value)
    {read' behind tokens : Tokens} {stop line' sign' last below : Nat}
    (hleft : part.left = ⟨.newline, stop⟩ :: behind) (hread : Renumbered read read')
    (htokens : tokens = ⟨.word "locals", 1⟩ :: ⟨.mark .openBrace, 1⟩ :: ⟨.newline, 1⟩
      :: ((⟨.word name, line'⟩ :: ⟨.mark .assign, sign'⟩ :: read')
        ++ [⟨.newline, last⟩, ⟨.mark .closeBrace, below⟩, ⟨.newline, below⟩])) :
    parseBody (8 * tokens.length + 8) tokens
      = some ([.block "locals" [] [.attribute name value] 1 below], []) := by
  have hlength : tokens.length = read'.length + 8 := by
    rw [htokens]
    simp
  obtain ⟨fuel, hfuel⟩ : ∃ n, 8 * tokens.length + 8 = n + 3 := ⟨8 * tokens.length + 5, rfl⟩
  have hend : parseBody (fuel + 2) [⟨.newline, below⟩] = some ([], []) := by
    rw [parseBody]
    rfl
  rw [hfuel, htokens]
  refine parseBody_block rfl (by simp) ?_ hend
  rw [parseBody_newline]
  exact h.parseBody_closed hleft hread (by omega)

end Read

section First

variable {content : List Char} {block part : Part} {last : Nat} {name : String} {value : Expr}

/-- Wrapped into a block of its own, the source of an attribute is read as the attribute. -/
theorem FirstOf.parse_wrapped (h : FirstOf content block part last)
    (hlaid : LaidOut content block part) (hitem : part.item = .attribute name value)
    (tree : Body) : ∃ last',
    parse (wrapped ((ConfigText.ofContent content tree).sourceText
        (lineOf part.front) (lineOf part.left)).toList)
      = some [.block "locals" [] [.attribute name value] 1 last'] := by
  obtain ⟨upper, sign, read, below, value', hassigns, hleft, hspans⟩ := h.spans hlaid
  obtain ⟨rfl, rfl⟩ := Item.attribute.inj (hitem.symm.trans hassigns.item)
  obtain ⟨hpos, hle, -, hlines⟩ := h.lines hlaid
  have hbelow := hlaid.below
  obtain ⟨own', last', below', hown, hlexed⟩ :=
    hspans.closed h.lexed (by omega) hle hlines hlaid.newline 2
  obtain ⟨⟨_, line'⟩, rest', rfl, hrest, rfl⟩ := List.forall₂_cons_left_iff.mp hown
  obtain ⟨⟨_, sign'⟩, read', rfl, hread, rfl⟩ := List.forall₂_cons_left_iff.mp hrest
  have hne : ((Text.splitNewlines content).take (lineOf part.left)).drop (lineOf part.front - 1)
      ≠ [] := by
    rw [← List.length_pos_iff, List.length_drop, List.length_take]
    omega
  have hlines' : (ConfigText.ofContent content tree).lines = Text.splitNewlines content := rfl
  rw [parse, ConfigText.sourceText, String.toList_ofList, hlines', wrapped_joinNewlines hne,
    hlexed.below_opening.tokenize_eq]
  refine ⟨below', ?_⟩
  simp only [Option.bind_eq_bind, Option.bind_some, hassigns.parseBody_wrapped hleft hread rfl]

end First

end TerraIndex.Hcl
