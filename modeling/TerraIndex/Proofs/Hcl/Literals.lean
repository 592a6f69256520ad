import TerraIndex.Proofs.Document.Decoded
import TerraIndex.Proofs.Hcl.TokenLines
import TerraIndex.Proofs.Json.Occurrences
/-!
# The numbers in the tree of a configuration

An integer of a configuration is a literal, which the parser refuses where it has more digits than
are read, or the line of a block. So the tree of a configuration is a document, unless the
configuration has so many lines that their numbers are too long (`isDocument_decode`).
-/

namespace TerraIndex.Hcl

/-- A number that has no more digits than are read. -/
def IsShort (n : Nat) : Prop := n.repr.toList.length ≤ maxIntegerDigits

/-- A token stands on a line with a short number, and a digit is a decimal digit. -/
structure Located.Sound (t : Located) : Prop where
  line : IsShort t.line
  digit : ∀ d, t.token = .digit d → d.isDigit = true

theorem spellings_ne_digit (d : Char) : ∀ spelling ∈ spellings, spelling.2 ≠ .digit d := by
  simp [spellings]

theorem scanMark_ne_digit {cs rest : List Char} {d : Char} {newlines : Nat} :
    scanMark cs ≠ some ⟨some (.digit d), newlines, rest⟩ := by
  intro h
  obtain ⟨spelling, token, hmem, -, htoken, -⟩ := scanMark_some h
  exact spellings_ne_digit d _ hmem (Option.some.inj htoken).symm

theorem scanLexeme_digit {b : Bool} {cs rest : List Char} {d : Char} {newlines : Nat}
    (h : scanLexeme b cs = some ⟨some (.digit d), newlines, rest⟩) : d.isDigit = true := by
  obtain heq | ⟨_, heq⟩ | ⟨_, heq⟩ | hmark | hplain := scanLexeme_token h
  · cases heq
  · cases heq
  · cases heq
  · exact absurd hmark scanMark_ne_digit
  · rcases cs with _ | ⟨c, cs⟩
    · cases hplain
    rw [scanPlain] at hplain
    split_ifs at hplain with hdigit hword hkeyword
    · obtain ⟨htoken, -, -⟩ := Lexeme.mk.inj (Option.some.inj hplain)
      exact Token.digit.inj (Option.some.inj htoken) ▸ hdigit
    · obtain ⟨htoken, -, -⟩ := Lexeme.mk.inj (Option.some.inj hplain)
      cases htoken
    · obtain ⟨htoken, -, -⟩ := Lexeme.mk.inj (Option.some.inj hplain)
      cases htoken
    · exact absurd hplain scanMark_ne_digit

/-- The tokens of a text of not too many lines are sound. -/
theorem Lexed.sound {b : Bool} {line : Nat} {cs : List Char} {tokens : Tokens}
    (h : Lexed b line cs tokens) (hlines : line + cs.length < 10 ^ maxIntegerDigits) :
    ∀ t ∈ tokens, t.Sound := by
  have hless : ∀ {b : Bool} {cs : List Char} {lexeme : Lexeme}, scanLexeme b cs = some lexeme →
      lexeme.newlines + lexeme.rest.length ≤ cs.length := by
    intro b cs lexeme hscan
    obtain ⟨used, hcut⟩ := scanLexeme_cut hscan
    rw [hcut.front, List.length_append, hcut.newlines]
    exact Nat.add_le_add_right List.count_le_length _
  induction h with
  | nil => exact nofun
  | blank hscan _ ih =>
    have hrest := hless hscan
    exact ih (by dsimp only at hrest; omega)
  | token hscan _ ih =>
    have hrest := hless hscan
    dsimp only at hrest
    refine List.forall_mem_cons.mpr ⟨⟨?_, ?_⟩, ih (by omega)⟩
    · exact length_repr_le (Nat.lt_of_le_of_lt (Nat.le_add_right _ _) hlines)
    · rintro d rfl
      exact scanLexeme_digit hscan

section ShortLiterals

mutual

/-- No integer among the values that an expression is made of has too many digits. Those that are
part of a text are no values. -/
def Expr.Short : Expr → Prop
  | .whole n => IsShort n
  | .tuple items => exprsShort items
  | .object fields => fieldsShort fields
  | _ => True

def exprsShort : List Expr → Prop
  | [] => True
  | e :: rest => e.Short ∧ exprsShort rest

def fieldsShort : List (Expr × Expr) → Prop
  | [] => True
  | (_, e) :: rest => e.Short ∧ fieldsShort rest

end

section Expressions

variable {tokens rest : Tokens} {e : Expr}

theorem Passes.sound {s : Bool} (h : Passes s tokens rest) (ht : ∀ t ∈ tokens, t.Sound) :
    ∀ t ∈ rest, t.Sound := by
  obtain ⟨passed, rfl, -⟩ := h
  exact fun t hmem => ht t (List.mem_append_right _ hmem)

theorem spanDigits_digits : ∀ {tokens : Tokens}, (∀ t ∈ tokens, t.Sound) →
    ∀ d ∈ (spanDigits tokens).1, d.isDigit = true
  | [], _ => nofun
  | ⟨t, line⟩ :: tokens, h => by
    obtain ⟨ht, htokens⟩ := List.forall_mem_cons.mp h
    cases t with
    | digit d =>
      rw [spanDigits]
      exact List.forall_mem_cons.mpr ⟨ht.digit d rfl, spanDigits_digits htokens⟩
    | _ => exact nofun

theorem parseNumber_short (ht : ∀ t ∈ tokens, t.Sound) (h : parseNumber tokens = some (e, rest)) :
    e.Short := by
  unfold parseNumber at h
  simp only at h
  split at h
  · split_ifs at h
    cases h
    trivial
  · split_ifs at h with hlong
    cases h
    exact length_digitsValue_le (spanDigits_digits ht) (Nat.not_lt.mp hlong)

theorem parseAccess_short : ∀ (fuel : Nat) {tokens rest : Tokens} {behindSplat : Bool}
    {base e : Expr}, parseAccess fuel behindSplat base tokens = some (e, rest) → base.Short →
    e.Short
  | fuel + 1, tokens, rest, behindSplat, base, e, h, hbase => by
    unfold parseAccess at h
    split at h
    · exact parseAccess_short fuel h trivial
    · split_ifs at h
      exact parseAccess_short fuel h trivial
    · cases h
    · exact parseAccess_short fuel h trivial
    · exact parseAccess_short fuel h trivial
    · obtain ⟨⟨position, mid⟩, -, h⟩ := Option.bind_eq_some_iff.mp h
      obtain ⟨mid', -, h⟩ := Option.bind_eq_some_iff.mp h
      exact parseAccess_short fuel h trivial
    · cases h
      exact hbase

theorem parseOperators_short : ∀ (fuel : Nat) {tokens rest : Tokens} {left e : Expr},
    parseOperators fuel left tokens = some (e, rest) → left.Short → e.Short
  | fuel + 1, tokens, rest, left, e, h, hleft => by
    unfold parseOperators at h
    split at h
    · obtain ⟨⟨right, mid⟩, -, h⟩ := Option.bind_eq_some_iff.mp h
      exact parseOperators_short fuel h trivial
    · obtain ⟨⟨yes, mid⟩, -, h⟩ := Option.bind_eq_some_iff.mp h
      obtain ⟨mid', -, h⟩ := Option.bind_eq_some_iff.mp h
      obtain ⟨⟨no, mid''⟩, -, h⟩ := Option.bind_eq_some_iff.mp h
      cases h
      trivial
    · cases h
      exact hleft

theorem parseForTuple_short : ∀ {fuel : Nat}, parseForTuple fuel tokens = some (e, rest) → e.Short
  | fuel + 1, h => by
    obtain ⟨⟨⟨names, source⟩, mid⟩, -, h⟩ := Option.bind_eq_some_iff.mp h
    obtain ⟨⟨item, mid'⟩, -, h⟩ := Option.bind_eq_some_iff.mp h
    obtain ⟨⟨guard, mid''⟩, -, h⟩ := Option.bind_eq_some_iff.mp h
    obtain ⟨left, -, h⟩ := Option.bind_eq_some_iff.mp h
    cases h
    trivial

theorem parseForObject_short : ∀ {fuel : Nat}, parseForObject fuel tokens = some (e, rest) →
    e.Short
  | fuel + 1, h => by
    rw [parseForObject_eq] at h
    obtain ⟨⟨⟨names, source⟩, mid⟩, -, h⟩ := Option.bind_eq_some_iff.mp h
    obtain ⟨⟨key, mid'⟩, -, h⟩ := Option.bind_eq_some_iff.mp h
    obtain ⟨left, -, h⟩ := Option.bind_eq_some_iff.mp h
    obtain ⟨⟨value, behind⟩, -, h⟩ := Option.bind_eq_some_iff.mp h
    obtain ⟨⟨guard, last⟩, -, h⟩ := Option.bind_eq_some_iff.mp h
    obtain ⟨left', -, h⟩ := Option.bind_eq_some_iff.mp h
    cases h
    trivial

end Expressions

mutual

theorem parseExpr_short : ∀ (fuel : Nat) {tokens rest : Tokens} {e : Expr},
    (∀ t ∈ tokens, t.Sound) → parseExpr fuel tokens = some (e, rest) → e.Short
  | fuel + 1, _, _, _, ht, h => by
    obtain ⟨⟨left, mid⟩, hleft, h⟩ := Option.bind_eq_some_iff.mp h
    exact parseOperators_short fuel h (parseOperand_short fuel ht hleft)

theorem parseOperand_short : ∀ (fuel : Nat) {tokens rest : Tokens} {e : Expr},
    (∀ t ∈ tokens, t.Sound) → parseOperand fuel tokens = some (e, rest) → e.Short
  | fuel + 1, _, _, _, ht, h => by
    unfold parseOperand at h
    split at h
    · obtain ⟨⟨operand, mid⟩, -, h⟩ := Option.bind_eq_some_iff.mp h
      cases h
      trivial
    · obtain ⟨⟨operand, mid⟩, -, h⟩ := Option.bind_eq_some_iff.mp h
      cases h
      trivial
    · exact parseTerm_short fuel ht h

theorem parseTerm_short : ∀ (fuel : Nat) {tokens rest : Tokens} {e : Expr},
    (∀ t ∈ tokens, t.Sound) → parseTerm fuel tokens = some (e, rest) → e.Short
  | fuel + 1, _, _, _, ht, h => by
    obtain ⟨⟨base, mid⟩, hbase, h⟩ := Option.bind_eq_some_iff.mp h
    exact parseAccess_short fuel h (parsePrimary_short fuel ht hbase)

theorem parsePrimary_short : ∀ (fuel : Nat) {tokens rest : Tokens} {e : Expr},
    (∀ t ∈ tokens, t.Sound) → parsePrimary fuel tokens = some (e, rest) → e.Short
  | fuel + 1, _, _, _, ht, h => by
    unfold parsePrimary at h
    split at h
    · obtain ⟨⟨inner, mid⟩, hinner, h⟩ := Option.bind_eq_some_iff.mp h
      obtain ⟨mid', -, h⟩ := Option.bind_eq_some_iff.mp h
      cases h
      obtain ⟨-, hrest⟩ := List.forall_mem_cons.mp ht
      exact parseExpr_short fuel ((skipNewlines_passes (s := true) _).sound hrest) hinner
    · exact parseNumber_short ht h
    · cases h
      trivial
    · cases h
      trivial
    · obtain ⟨-, hrest⟩ := List.forall_mem_cons.mp ht
      simp only at h
      split at h
      · exact parseForTuple_short h
      · obtain ⟨⟨items, mid⟩, hitems, h⟩ := Option.bind_eq_some_iff.mp h
        cases h
        exact parseItems_short fuel ((skipNewlines_passes (s := true) _).sound hrest) hitems
    · obtain ⟨-, hrest⟩ := List.forall_mem_cons.mp ht
      simp only at h
      split at h
      · exact parseForObject_short h
      · obtain ⟨⟨fields, mid⟩, hfields, h⟩ := Option.bind_eq_some_iff.mp h
        cases h
        exact parseFields_short fuel ((skipNewlines_passes (s := true) _).sound hrest) hfields
    · obtain ⟨⟨arguments, mid⟩, -, h⟩ := Option.bind_eq_some_iff.mp h
      cases h
      trivial
    · obtain ⟨⟨function, mid⟩, -, h⟩ := Option.bind_eq_some_iff.mp h
      obtain ⟨mid', -, h⟩ := Option.bind_eq_some_iff.mp h
      obtain ⟨⟨arguments, mid''⟩, -, h⟩ := Option.bind_eq_some_iff.mp h
      cases h
      trivial
    · cases h
      trivial
    · cases h

theorem parseItems_short : ∀ (fuel : Nat) {tokens rest : Tokens} {items : List Expr},
    (∀ t ∈ tokens, t.Sound) → parseItems fuel tokens = some (items, rest) → exprsShort items
  | fuel + 1, tokens, _, _, ht, h => by
    unfold parseItems at h
    split at h
    · cases h
      trivial
    · obtain ⟨⟨item, mid⟩, hitem, h⟩ := Option.bind_eq_some_iff.mp h
      have hfirst := parseExpr_short fuel ht hitem
      have hleft := (parseExpr_reads fuel hitem).1.sound ht
      have hmid := (skipNewlines_passes (s := false) mid).sound hleft
      simp only at h
      split at h
      · cases h
        exact ⟨hfirst, trivial⟩
      · rename_i left hleft
        obtain ⟨⟨more, mid'⟩, hmore, h⟩ := Option.bind_eq_some_iff.mp h
        cases h
        rw [hleft] at hmid
        obtain ⟨-, hleft⟩ := List.forall_mem_cons.mp hmid
        have hbehind := (skipNewlines_passes (s := false) _).sound hleft
        exact ⟨hfirst, parseItems_short fuel hbehind hmore⟩
      · cases h

theorem parseFields_short : ∀ (fuel : Nat) {tokens rest : Tokens} {fields : List (Expr × Expr)},
    (∀ t ∈ tokens, t.Sound) → parseFields fuel tokens = some (fields, rest) → fieldsShort fields
  | fuel + 1, tokens, _, _, ht, h => by
    by_cases hclose : ∃ line left, tokens = ⟨.mark .closeBrace, line⟩ :: left
    · obtain ⟨line, left, rfl⟩ := hclose
      cases h
      trivial
    · rw [parseFields_field fuel fun line left heq => hclose ⟨line, left, heq⟩] at h
      obtain ⟨⟨field, left⟩, hread, h⟩ := Option.bind_eq_some_iff.mp h
      have hleft : ∀ t ∈ left, t.Sound :=
        (parseField_reads (fun hexpr => parseExpr_reads fuel hexpr) hread).1.sound ht
      have hfield : field.2.Short := by
        obtain ⟨⟨key, mid⟩, hkey, hread⟩ := Option.bind_eq_some_iff.mp hread
        obtain ⟨behind, hbinder, hread⟩ := Option.bind_eq_some_iff.mp hread
        obtain ⟨⟨value, last⟩, hvalue, hread⟩ := Option.bind_eq_some_iff.mp hread
        cases hread
        have hmid := (parseKey_reads (fun hexpr => parseExpr_reads fuel hexpr) hkey).1.sound ht
        obtain ⟨t, line, rfl, -⟩ := expectBinder_some hbinder
        exact parseExpr_short fuel (List.forall_mem_cons.mp hmid).2 hvalue
      simp only at h
      split at h
      · cases h
        exact ⟨hfield, trivial⟩
      · obtain ⟨⟨more, mid⟩, hmore, h⟩ := Option.bind_eq_some_iff.mp h
        cases h
        obtain ⟨-, hleft⟩ := List.forall_mem_cons.mp hleft
        exact ⟨hfield,
          parseFields_short fuel ((skipNewlines_passes (s := false) _).sound hleft) hmore⟩
      · obtain ⟨⟨more, mid⟩, hmore, h⟩ := Option.bind_eq_some_iff.mp h
        cases h
        obtain ⟨-, hleft⟩ := List.forall_mem_cons.mp hleft
        exact ⟨hfield,
          parseFields_short fuel ((skipNewlines_passes (s := false) _).sound hleft) hmore⟩
      · cases h

end

end ShortLiterals

section Items

mutual

/-- The values and the lines of an item are short. -/
def Item.Short : Item → Prop
  | .attribute _ value => value.Short
  | .block _ _ body first last => IsShort first ∧ IsShort last ∧ itemsShort body

def itemsShort : List Item → Prop
  | [] => True
  | item :: rest => item.Short ∧ itemsShort rest

end

mutual

theorem parseBody_short : ∀ (fuel : Nat) {tokens rest : Tokens} {items : List Item},
    (∀ t ∈ tokens, t.Sound) → parseBody fuel tokens = some (items, rest) →
    itemsShort items ∧ ∀ t ∈ rest, t.Sound
  | fuel + 1, tokens, _, _, ht, h => by
    have hskip := (skipNewlines_passes (s := false) tokens).sound ht
    unfold parseBody at h
    split at h
    · rename_i name line left hleft
      rw [hleft] at hskip
      obtain ⟨hword, hleft⟩ := List.forall_mem_cons.mp hskip
      obtain ⟨⟨item, mid⟩, hitem, h⟩ := Option.bind_eq_some_iff.mp h
      obtain ⟨⟨items, last⟩, hitems, h⟩ := Option.bind_eq_some_iff.mp h
      cases h
      obtain ⟨hshort, hmid⟩ := parseItem_short fuel hword.line hleft hitem
      obtain ⟨hmore, hlast⟩ := parseBody_short fuel hmid hitems
      exact ⟨⟨hshort, hmore⟩, hlast⟩
    · cases h
      exact ⟨trivial, hskip⟩

theorem parseItem_short : ∀ (fuel : Nat) {name : String} {line : Nat} {tokens rest : Tokens}
    {item : Item}, IsShort line → (∀ t ∈ tokens, t.Sound) →
    parseItem fuel name line tokens = some (item, rest) → item.Short ∧ ∀ t ∈ rest, t.Sound
  | fuel + 1, name, line, tokens, _, _, hline, ht, h => by
    unfold parseItem at h
    split at h
    · obtain ⟨-, hrest⟩ := List.forall_mem_cons.mp ht
      obtain ⟨⟨value, mid⟩, hvalue, h⟩ := Option.bind_eq_some_iff.mp h
      cases h
      exact ⟨parseExpr_short fuel hrest hvalue, (parseExpr_reads fuel hvalue).1.sound hrest⟩
    · simp only at h
      obtain ⟨mid, hopen, h⟩ := Option.bind_eq_some_iff.mp h
      obtain ⟨⟨body, left⟩, hbody, h⟩ := Option.bind_eq_some_iff.mp h
      have hlabels := (skipNewlines_passes (s := false) _).sound
        ((spanLabels_passes (s := false) tokens).sound ht)
      obtain ⟨openLine, hmid⟩ := expect_some hopen
      rw [hmid] at hlabels
      obtain ⟨hshort, hleft⟩ := parseBody_short fuel (List.forall_mem_cons.mp hlabels).2 hbody
      simp only at h
      split at h
      · cases h
        obtain ⟨hclose, hlast⟩ := List.forall_mem_cons.mp hleft
        exact ⟨⟨hline, hclose.line, hshort⟩, hlast⟩
      · cases h

end

end Items

section Values

theorem embedded_isDocument {v : Value} (h : v.toRaw.IsDocument) : v.embedded.toRaw.IsDocument := by
  cases v with
  | text cs =>
    rw [Value.embedded]
    split <;> trivial
  | _ => exact h

theorem insertKey_forall {P : Value → Prop} {entries : List (Key × Value)} {key : Key}
    {value : Value} (h : ∀ entry ∈ entries, P entry.2) (hvalue : P value) :
    ∀ entry ∈ Value.insertKey entries key value, P entry.2 := by
  induction entries with
  | nil => exact List.forall_mem_singleton.mpr hvalue
  | cons entry entries ih =>
    obtain ⟨hentry, hentries⟩ := List.forall_mem_cons.mp h
    rw [Value.insertKey]
    split_ifs
    · exact List.forall_mem_cons.mpr ⟨hvalue, hentries⟩
    · exact List.forall_mem_cons.mpr ⟨hentry, ih hentries⟩

theorem foldl_insertKey_forall {P : Value → Prop} {fields : List (Key × Value)} :
    ∀ {entries : List (Key × Value)}, (∀ entry ∈ entries, P entry.2) →
    (∀ field ∈ fields, P field.2) →
    ∀ entry ∈ fields.foldl (fun entries (k, v) => Value.insertKey entries k v) entries,
      P entry.2 := by
  induction fields with
  | nil => exact fun h _ => h
  | cons field fields ih =>
    intro entries h hfields
    obtain ⟨hfield, hrest⟩ := List.forall_mem_cons.mp hfields
    exact ih (insertKey_forall h hfield) hrest

theorem toRawList_documents : ∀ {vs : List Value}, (∀ v ∈ vs, v.toRaw.IsDocument) →
    itemsAreDocuments (Value.toRawList vs)
  | [], _ => trivial
  | _ :: _, h => ⟨(List.forall_mem_cons.mp h).1, toRawList_documents (List.forall_mem_cons.mp h).2⟩

theorem toRawEntries_documents : ∀ {entries : List (Key × Value)},
    (∀ entry ∈ entries, entry.2.toRaw.IsDocument) →
    ∀ entry ∈ Value.toRawEntries entries, entry.2.IsDocument
  | [], _ => nofun
  | (_, _) :: _, h => List.forall_mem_cons.mpr
    ⟨(List.forall_mem_cons.mp h).1, toRawEntries_documents (List.forall_mem_cons.mp h).2⟩

mutual

/-- The value of an expression is a document where its literals are short. -/
theorem value_isDocument : ∀ {e : Expr} {v : Value}, e.Short → e.value = some v →
    v.toRaw.IsDocument
  | .word name, v, _, h => by
    obtain rfl := Option.some.inj h
    split_ifs <;> trivial
  | .whole n, v, hshort, h => by
    obtain rfl := Option.some.inj h
    exact hshort
  | .tuple items, v, hshort, h => by
    obtain ⟨vs, hvs, h⟩ := Option.bind_eq_some_iff.mp h
    cases h
    refine toRawList_documents (List.forall_mem_map.mpr fun v hv => ?_)
    exact embedded_isDocument (values_areDocuments hshort hvs v hv)
  | .object fields, v, hshort, h => by
    obtain ⟨entries, hentries, h⟩ := Option.bind_eq_some_iff.mp h
    cases h
    refine isDocument_merge isDocument_empty (toRawEntries_documents ?_)
    exact foldl_insertKey_forall (P := fun v => v.toRaw.IsDocument) nofun
      (fieldValues_areDocuments hshort hentries)
  | .label _, v, _, h => by
    cases h
    trivial
  | .decimal _, v, _, h => by
    cases h
    trivial
  | .quoted _, v, _, h => by
    cases h
    trivial
  | .unary _ _, v, _, h => by
    obtain ⟨operand, -, h⟩ := Option.bind_eq_some_iff.mp h
    cases h
    trivial
  | .binary _ _ _, v, _, h => by
    obtain ⟨left, -, h⟩ := Option.bind_eq_some_iff.mp h
    obtain ⟨right, -, h⟩ := Option.bind_eq_some_iff.mp h
    cases h
    trivial
  | .conditional _ _ _, v, _, h => by
    obtain ⟨condition, -, h⟩ := Option.bind_eq_some_iff.mp h
    obtain ⟨yes, -, h⟩ := Option.bind_eq_some_iff.mp h
    obtain ⟨no, -, h⟩ := Option.bind_eq_some_iff.mp h
    cases h
    trivial
  | .index _ _, v, _, h => by
    obtain ⟨base, -, h⟩ := Option.bind_eq_some_iff.mp h
    obtain ⟨position, -, h⟩ := Option.bind_eq_some_iff.mp h
    cases h
    trivial
  | .attribute _ _, v, _, h => by
    obtain ⟨base, -, h⟩ := Option.bind_eq_some_iff.mp h
    cases h
    trivial
  | .attributeSplat _, v, _, h => by
    obtain ⟨base, -, h⟩ := Option.bind_eq_some_iff.mp h
    cases h
    trivial
  | .fullSplat _, v, _, h => by
    obtain ⟨base, -, h⟩ := Option.bind_eq_some_iff.mp h
    cases h
    trivial
  | .call _ _, v, _, h => by
    obtain ⟨arguments, -, h⟩ := Option.bind_eq_some_iff.mp h
    cases h
    trivial
  | .forTuple _ _ _ _, v, _, h => by
    obtain ⟨source, -, h⟩ := Option.bind_eq_some_iff.mp h
    obtain ⟨item, -, h⟩ := Option.bind_eq_some_iff.mp h
    obtain ⟨guard, -, h⟩ := Option.bind_eq_some_iff.mp h
    cases h
    trivial
  | .forObject _ _ _ _ _ _, v, _, h => by
    obtain ⟨source, -, h⟩ := Option.bind_eq_some_iff.mp h
    obtain ⟨key, -, h⟩ := Option.bind_eq_some_iff.mp h
    obtain ⟨element, -, h⟩ := Option.bind_eq_some_iff.mp h
    obtain ⟨guard, -, h⟩ := Option.bind_eq_some_iff.mp h
    cases h
    trivial

theorem values_areDocuments : ∀ {es : List Expr} {vs : List Value}, exprsShort es →
    Expr.values es = some vs → ∀ v ∈ vs, v.toRaw.IsDocument
  | [], vs, _, h => by
    cases h
    exact nofun
  | e :: es, vs, hshort, h => by
    obtain ⟨v, hv, h⟩ := Option.bind_eq_some_iff.mp h
    obtain ⟨more, hmore, h⟩ := Option.bind_eq_some_iff.mp h
    cases h
    exact List.forall_mem_cons.mpr
      ⟨value_isDocument hshort.1 hv, values_areDocuments hshort.2 hmore⟩

theorem fieldValues_areDocuments : ∀ {fields : List (Expr × Expr)} {entries : List (Key × Value)},
    fieldsShort fields → Expr.fieldValues fields = some entries →
    ∀ entry ∈ entries, entry.2.toRaw.IsDocument
  | [], entries, _, h => by
    cases h
    exact nofun
  | (k, e) :: fields, entries, hshort, h => by
    obtain ⟨kv, -, h⟩ := Option.bind_eq_some_iff.mp h
    obtain ⟨key, -, h⟩ := Option.bind_eq_some_iff.mp h
    obtain ⟨v, hv, h⟩ := Option.bind_eq_some_iff.mp h
    obtain ⟨more, hmore, h⟩ := Option.bind_eq_some_iff.mp h
    cases h
    exact List.forall_mem_cons.mpr ⟨embedded_isDocument (value_isDocument hshort.1 hv),
      fieldValues_areDocuments hshort.2 hmore⟩

end

end Values

section Trees

theorem isDocument_concat {entries : List (String × Raw)} {name : String} {value : Raw}
    (h : (Raw.map entries).IsDocument) (hnew : hasEntry entries name = false)
    (hvalue : value.IsDocument) : (Raw.map (entries ++ [(name, value)])).IsDocument := by
  have hkey : name ∉ entries.map Prod.fst := by
    rw [mem_keys_iff, hnew]
    exact Bool.false_ne_true
  rw [← insertEntry_new value hkey]
  exact isDocument_insert h hvalue

theorem isDocument_noted {inner : List (String × Raw)} {first last : Nat}
    (h : (Raw.map inner).IsDocument) (hfirst : IsShort first) (hlast : IsShort last) :
    (Raw.map (noted inner first last)).IsDocument :=
  isDocument_insert (isDocument_insert h hfirst) hlast

theorem isDocument_nestLabels : ∀ (labels : List String) {body : Raw}, body.IsDocument →
    (nestLabels labels body).IsDocument
  | [], _, h => h
  | _ :: labels, _, h => ⟨List.nodup_singleton _, isDocument_nestLabels labels h, trivial⟩

theorem isDocument_append {entries : List (String × Raw)} {key : String} {raw : Raw}
    (h : (Raw.map entries).IsDocument) (hraw : raw.IsDocument) :
    (Raw.map (appendEntry entries key raw)).IsDocument := by
  unfold appendEntry
  split
  · rename_i items hitems
    have hold : itemsAreDocuments items :=
      (entriesAreDocuments_iff entries).mp h.2 _ (mem_of_entryAt? hitems)
    refine isDocument_insert h ((itemsAreDocuments_iff _).mpr ?_)
    exact List.forall_mem_append.mpr
      ⟨(itemsAreDocuments_iff items).mp hold, List.forall_mem_singleton.mpr hraw⟩
  · exact isDocument_insert h ⟨hraw, trivial⟩

mutual

/-- Short items make the entries of a body a document. -/
theorem addItems_isDocument : ∀ {items : List Item} {entries out : List (String × Raw)}
    {attributes : List String}, itemsShort items → (Raw.map entries).IsDocument →
    Item.addItems entries attributes items = some out → (Raw.map out).IsDocument
  | [], _, _, _, _, hentries, h => by
    cases h
    exact hentries
  | item :: items, _, _, _, hshort, hentries, h => by
    rw [Item.addItems] at h
    obtain ⟨⟨next, names⟩, hitem, h⟩ := Option.bind_eq_some_iff.mp h
    exact addItems_isDocument hshort.2 (addItem_isDocument hshort.1 hentries hitem) h

theorem addItem_isDocument : ∀ {item : Item} {entries out : List (String × Raw)}
    {attributes names : List String}, item.Short → (Raw.map entries).IsDocument →
    Item.addItem entries attributes item = some (out, names) → (Raw.map out).IsDocument
  | .attribute name value, _, _, _, _, hshort, hentries, h => by
    obtain ⟨v, hv, hnew, rfl, -⟩ := Item.addItem_attribute h
    exact isDocument_concat hentries hnew (embedded_isDocument (value_isDocument hshort hv))
  | .block type labels body first last, _, _, _, _, hshort, hentries, h => by
    obtain ⟨raw, hadds, rfl, -⟩ := Item.addItem_block h
    obtain ⟨hfirst, hlast, hbody⟩ := hshort
    cases hadds with
    | block hinner =>
      have hdoc := addItems_isDocument hbody isDocument_empty hinner
      exact isDocument_append hentries
        (isDocument_nestLabels labels (isDocument_noted hdoc hfirst hlast))

end

/-- The tree of a configuration of not too many lines is a document. -/
theorem isDocument_decode {text : List Char} {raw : Raw}
    (hsize : text.length + 2 < 10 ^ maxIntegerDigits) (h : decode text = some raw) :
    raw.IsDocument := by
  obtain ⟨items, hitems, h⟩ := Option.bind_eq_some_iff.mp h
  obtain ⟨root, hroot, h⟩ := Option.bind_eq_some_iff.mp h
  cases h
  obtain ⟨hlexed, hbody⟩ := parse_tokensOf hitems
  have hsound := hlexed.sound (by rw [List.length_append, List.length_singleton]; omega)
  obtain ⟨hshort, -⟩ := parseBody_short _ hsound hbody
  exact addItems_isDocument hshort isDocument_empty hroot

end Trees

end TerraIndex.Hcl
