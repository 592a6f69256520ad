import TerraIndex.Hcl.Parser
import Mathlib.Algebra.Ring.Int.Defs
import Mathlib.Tactic.SplitIfs
/-!
# What the parser consumes

The tokens that a function of the parser consumes stand in front of those it leaves. Braces and
square brackets among them are balanced, and in an expression every equals sign and arrow stands
inside some (`Nested`, `parseExpr_reads`). Parentheses are balanced too, but nothing counts them.
-/

namespace TerraIndex.Hcl

section BalancedTokens

/-- How much deeper a token leads into braces and square brackets. -/
def Token.nesting : Token → Int
  | .mark .openBrace => 1
  | .mark .openBracket => 1
  | .mark .closeBrace => -1
  | .mark .closeBracket => -1
  | _ => 0

/-- An equals sign that assigns, or an arrow. -/
def Token.isSign : Token → Bool
  | .mark .assign => true
  | .mark .arrow => true
  | _ => false

def nesting (tokens : Tokens) : Int := (tokens.map fun t => t.token.nesting).sum

@[simp] theorem nesting_nil : nesting [] = 0 := rfl

@[simp] theorem nesting_cons (t : Located) (tokens : Tokens) :
    nesting (t :: tokens) = t.token.nesting + nesting tokens := by simp [nesting]

@[simp] theorem nesting_append (tokens more : Tokens) :
    nesting (tokens ++ more) = nesting tokens + nesting more := by simp [nesting]

/-- Brackets are balanced; outside all of them signs stand only where they are allowed. -/
inductive Nested : Bool → Tokens → Prop
  | nil {s : Bool} : Nested s []
  | flat {s : Bool} {t : Located} {tokens : Tokens} : t.token.nesting = 0 →
      (t.token.isSign = true → s = true) → Nested s tokens → Nested s (t :: tokens)
  | box {s : Bool} {o c : Located} {inner tokens : Tokens} : o.token.nesting = 1 →
      Nested true inner → c.token.nesting = -1 → Nested s tokens →
      Nested s (o :: (inner ++ c :: tokens))

namespace Nested

variable {s : Bool} {tokens more : Tokens}

theorem append (h : Nested s tokens) (hmore : Nested s more) :
    Nested s (tokens ++ more) := by
  induction h with
  | nil => exact hmore
  | flat ht hsign _ ih => exact .flat ht hsign (ih hmore)
  | box ho hinner hc _ _ ih =>
    rw [List.cons_append, List.append_assoc, List.cons_append]
    exact .box ho hinner hc (ih hmore)

theorem allowed (h : Nested s tokens) : Nested true tokens := by
  induction h with
  | nil => exact .nil
  | flat ht _ _ ih => exact .flat ht (fun _ => rfl) ih
  | box ho hinner hc _ _ ih => exact .box ho hinner hc ih

theorem nesting_eq (h : Nested s tokens) : nesting tokens = 0 := by
  induction h with
  | nil => rfl
  | flat ht _ _ ih => rw [nesting_cons, ht, ih, Int.zero_add]
  | box ho _ hc _ ihinner ih =>
    rw [nesting_cons, nesting_append, nesting_cons, ho, ihinner, hc, ih]
    rfl

end Nested

end BalancedTokens

section Passes

/-- The tokens left stand behind balanced ones. -/
def Passes (s : Bool) (tokens rest : Tokens) : Prop :=
  ∃ passed, tokens = passed ++ rest ∧ Nested s passed

/-- As `Passes`, with one token at least. -/
def Reads (s : Bool) (tokens rest : Tokens) : Prop :=
  Passes s tokens rest ∧ rest.length < tokens.length

/-- The tokens left stand behind balanced ones and a closing mark. -/
def Closes (m : Mark) (s : Bool) (tokens rest : Tokens) : Prop :=
  ∃ line, Passes s tokens (⟨.mark m, line⟩ :: rest)

section Passing

variable {s : Bool} {m : Mark} {tokens mid rest : Tokens}

theorem Passes.refl : Passes s tokens tokens := ⟨[], rfl, .nil⟩

theorem Passes.trans (h : Passes s tokens mid) (hmid : Passes s mid rest) :
    Passes s tokens rest := by
  obtain ⟨front, rfl, hfront⟩ := h
  obtain ⟨back, rfl, hback⟩ := hmid
  exact ⟨front ++ back, by rw [List.append_assoc], hfront.append hback⟩

theorem Passes.allowed (h : Passes s tokens rest) : Passes true tokens rest :=
  h.imp fun _ h => ⟨h.1, h.2.allowed⟩

theorem Passes.length (h : Passes s tokens rest) : rest.length ≤ tokens.length := by
  obtain ⟨front, rfl, -⟩ := h
  rw [List.length_append]
  exact Nat.le_add_left _ _

/-- A token that is neither a bracket nor a sign. -/
theorem Passes.flat {t : Token} {line : Nat} (ht : t.nesting = 0) (hsign : t.isSign = false) :
    Passes s (⟨t, line⟩ :: tokens) tokens :=
  ⟨[⟨t, line⟩], rfl, .flat ht (fun h => absurd (hsign.symm.trans h) Bool.false_ne_true) .nil⟩

/-- A sign, where it is allowed. -/
theorem Passes.sign {t : Token} {line : Nat} (ht : t.nesting = 0) :
    Passes true (⟨t, line⟩ :: tokens) tokens :=
  ⟨[⟨t, line⟩], rfl, .flat ht (fun _ => rfl) .nil⟩

theorem Passes.reads (h : Passes s tokens mid) (hmid : Reads s mid rest) :
    Reads s tokens rest := ⟨h.trans hmid.1, Nat.lt_of_lt_of_le hmid.2 h.length⟩

theorem Reads.passes (h : Reads s tokens mid) (hmid : Passes s mid rest) :
    Reads s tokens rest := ⟨h.1.trans hmid, Nat.lt_of_le_of_lt hmid.length h.2⟩

theorem Reads.flat {t : Token} {line : Nat} (ht : t.nesting = 0) (hsign : t.isSign = false) :
    Reads s (⟨t, line⟩ :: tokens) tokens :=
  ⟨.flat ht hsign, by simp⟩

theorem Passes.closes (h : Passes s tokens mid) (hmid : Closes m s mid rest) :
    Closes m s tokens rest := hmid.imp fun _ => h.trans

theorem Closes.length_first (h : Closes m s tokens rest)
    (hfirst : ∀ line rest, tokens ≠ ⟨.mark m, line⟩ :: rest) : rest.length + 1 < tokens.length := by
  obtain ⟨line, passed, rfl, -⟩ := h
  rcases passed with _ | ⟨t, passed⟩
  · exact absurd rfl (hfirst line rest)
  · simp only [List.cons_append, List.length_cons, List.length_append]
    omega

theorem Closes.length (h : Closes m s tokens rest) : rest.length < tokens.length :=
  h.elim fun _ h => h.length

/-- An opening mark and what is read up to the closing one. -/
theorem Closes.box {o : Mark} {line : Nat} (ho : (Token.mark o).nesting = 1)
    (hm : (Token.mark m).nesting = -1) (h : Closes m s tokens rest) {r : Bool} :
    Reads r (⟨.mark o, line⟩ :: tokens) rest := by
  obtain ⟨last, inner, rfl, hinner⟩ := h
  refine ⟨⟨⟨.mark o, line⟩ :: (inner ++ [⟨.mark m, last⟩]), by simp, ?_⟩, by simp; omega⟩
  exact .box ho hinner.allowed hm .nil

end Passing

end Passes

theorem skipNewlines_passes {s : Bool} : ∀ tokens : Tokens,
    Passes s tokens (skipNewlines tokens)
  | [] => .refl
  | ⟨t, line⟩ :: tokens => by
    cases t with
    | newline => exact (Passes.flat rfl rfl).trans (skipNewlines_passes tokens)
    | _ => exact .refl

theorem expect_some {m : Mark} {tokens rest : Tokens} (h : expect m tokens = some rest) :
    ∃ line, tokens = ⟨.mark m, line⟩ :: rest := by
  unfold expect at h
  split at h
  · split_ifs at h with hm
    rw [hm, Option.some.inj h]
    exact ⟨_, rfl⟩
  · cases h

theorem expectWord_some {tokens rest : Tokens} {name : String}
    (h : expectWord tokens = some (name, rest)) : ∃ line, tokens = ⟨.word name, line⟩ :: rest := by
  unfold expectWord at h
  split at h
  · obtain ⟨rfl, rfl⟩ := Prod.mk.inj (Option.some.inj h)
    exact ⟨_, rfl⟩
  · cases h

theorem expectBinder_some {tokens rest : Tokens} (h : expectBinder tokens = some rest) :
    ∃ t line, tokens = ⟨t, line⟩ :: rest ∧ (t = .mark .assign ∨ t = .mark .colon) := by
  unfold expectBinder at h
  split at h
  · rw [Option.some.inj h]
    exact ⟨_, _, rfl, .inl rfl⟩
  · rw [Option.some.inj h]
    exact ⟨_, _, rfl, .inr rfl⟩
  · cases h

theorem parseLabel?_some {tokens rest : Tokens} {key : Expr}
    (h : parseLabel? tokens = some (key, rest)) :
    ∃ name line, tokens = ⟨.word name, line⟩ :: rest ∧ key = .label name := by
  unfold parseLabel? at h
  split at h
  · obtain ⟨rfl, rfl⟩ := Prod.mk.inj (Option.some.inj h)
    exact ⟨_, _, rfl, rfl⟩
  · obtain ⟨rfl, rfl⟩ := Prod.mk.inj (Option.some.inj h)
    exact ⟨_, _, rfl, rfl⟩
  · cases h

theorem spanDigits_passes {s : Bool} : ∀ tokens : Tokens,
    Passes s tokens (spanDigits tokens).2
  | [] => .refl
  | ⟨t, line⟩ :: tokens => by
    cases t with
    | digit d => exact (Passes.flat rfl rfl).trans (spanDigits_passes tokens)
    | _ => exact .refl

theorem parseNumber_passes {s : Bool} {tokens rest : Tokens} {e : Expr}
    (h : parseNumber tokens = some (e, rest)) : Passes s (spanDigits tokens).2 rest := by
  unfold parseNumber at h
  simp only at h
  split at h
  · rename_i line mid hmid
    split_ifs at h
    obtain ⟨-, rfl⟩ := Prod.mk.inj (Option.some.inj h)
    rw [hmid]
    exact (Passes.flat rfl rfl).trans (spanDigits_passes _)
  · split_ifs at h
    obtain ⟨-, rfl⟩ := Prod.mk.inj (Option.some.inj h)
    exact .refl

theorem parseNumber_reads {s : Bool} {tokens rest : Tokens} {d : Char} {line : Nat} {e : Expr}
    (h : parseNumber (⟨.digit d, line⟩ :: tokens) = some (e, rest)) :
    Reads s (⟨.digit d, line⟩ :: tokens) rest :=
  (Reads.flat rfl rfl).passes
    ((spanDigits_passes tokens).trans (@parseNumber_passes _ (⟨.digit d, line⟩ :: tokens) _ _ h))

/-- The word `in` behind the names that a `for` expression binds. -/
def parseIn (names : List String) (tokens : Tokens) : Option (List String × Tokens) :=
  match skipNewlines tokens with
  | ⟨.word "in", _⟩ :: rest => some (names, skipNewlines rest)
  | _ => none

theorem parseForNames_eq (tokens : Tokens) : parseForNames tokens = (do
    let (first, rest) ← expectWord (skipNewlines tokens)
    match rest with
    | ⟨.mark .comma, _⟩ :: rest => do
      let (second, rest) ← expectWord rest
      parseIn [first, second] rest
    | rest => parseIn [first] rest) := by
  unfold parseForNames parseIn
  congr 1

theorem parseIn_some {tokens rest : Tokens} {names bound : List String}
    (h : parseIn bound tokens = some (names, rest)) :
    names = bound ∧ ∃ line left, skipNewlines tokens = ⟨.word "in", line⟩ :: left
      ∧ rest = skipNewlines left := by
  unfold parseIn at h
  split at h
  · rename_i line left hleft
    obtain ⟨rfl, rfl⟩ := Prod.mk.inj (Option.some.inj h)
    exact ⟨rfl, line, left, hleft, rfl⟩
  · cases h

theorem parseIn_passes {s : Bool} {tokens rest : Tokens} {names bound : List String}
    (h : parseIn bound tokens = some (names, rest)) : Passes s tokens rest := by
  obtain ⟨-, line, left, hleft, rfl⟩ := parseIn_some h
  refine (skipNewlines_passes tokens).trans ?_
  rw [hleft]
  exact (Passes.flat rfl rfl).trans (skipNewlines_passes left)

theorem parseForNames_reads {s : Bool} {tokens rest : Tokens} {names : List String}
    (h : parseForNames tokens = some (names, rest)) : Reads s tokens rest := by
  rw [parseForNames_eq] at h
  obtain ⟨⟨name, mid⟩, hname, h⟩ := Option.bind_eq_some_iff.mp h
  obtain ⟨line, hline⟩ := expectWord_some hname
  have hword : Reads s tokens mid :=
    (skipNewlines_passes tokens).reads (by rw [hline]; exact .flat rfl rfl)
  refine hword.passes ?_
  simp only at h
  split at h
  · obtain ⟨⟨second, left⟩, hsecond, h⟩ := Option.bind_eq_some_iff.mp h
    obtain ⟨line', rfl⟩ := expectWord_some hsecond
    exact (Passes.flat rfl rfl).trans ((Passes.flat rfl rfl).trans (parseIn_passes h))
  · exact parseIn_passes h

theorem parseQualified_reads {s : Bool} {tokens rest : Tokens} {first name : String}
    (h : parseQualified first tokens = some (name, rest)) : Reads s tokens rest := by
  obtain ⟨⟨second, behind⟩, hsecond, h⟩ := Option.bind_eq_some_iff.mp h
  obtain ⟨left, hcolons, h⟩ := Option.bind_eq_some_iff.mp h
  obtain ⟨⟨third, rest'⟩, hthird, h⟩ := Option.bind_eq_some_iff.mp h
  obtain ⟨-, rfl⟩ := Prod.mk.inj (Option.some.inj h)
  obtain ⟨line, rfl⟩ := expectWord_some hsecond
  obtain ⟨line', rfl⟩ := expect_some hcolons
  obtain ⟨line'', rfl⟩ := expectWord_some hthird
  exact (Reads.flat rfl rfl).passes
    ((Passes.flat rfl rfl).trans (.flat rfl rfl))

theorem isFor_some {tokens : Tokens} (h : isFor tokens = true) :
    ∃ line rest, tokens = ⟨.word "for", line⟩ :: rest := by
  unfold isFor at h
  split at h
  · exact ⟨_, _, rfl⟩
  · cases h

theorem isFor_of_startsFor {tokens : Tokens} (h : startsFor tokens = true) :
    isFor tokens = true := by
  unfold startsFor at h
  split at h
  · rfl
  · rfl
  · cases h

theorem isFor_of_or {tokens : Tokens} {b : Bool}
    (h : (startsFor tokens || isFor tokens && b) = true) :
    isFor tokens = true := by
  rcases Bool.or_eq_true_iff.mp h with h | h
  · exact isFor_of_startsFor h
  · exact (Bool.and_eq_true_iff.mp h).1

section Brackets

variable {fuel n : Nat} {tokens rest : Tokens} {e : Expr}

/-- Behind an opening bracket a tuple is read up to the closing one. -/
theorem parsePrimary_bracket
    (hfor : ∀ {tokens : Tokens} {e : Expr}, parseForTuple fuel tokens = some (e, rest) →
      Closes .closeBracket false tokens rest)
    (hitems : ∀ {tokens : Tokens} {items : List Expr}, parseItems fuel tokens = some (items, rest) →
      Closes .closeBracket false tokens rest)
    (h : parsePrimary (fuel + 1) (⟨.mark .openBracket, n⟩ :: tokens) = some (e, rest)) :
    Closes .closeBracket false (skipNewlines tokens) rest := by
  rw [parsePrimary] at h
  simp only at h
  split at h
  · rename_i hstarts
    obtain ⟨line', rest', hword⟩ := isFor_some (isFor_of_or hstarts)
    rw [hword] at h ⊢
    exact (Passes.flat rfl rfl).closes (hfor h)
  · obtain ⟨⟨items, mid⟩, hread, h⟩ := Option.bind_eq_some_iff.mp h
    obtain ⟨-, rfl⟩ := Prod.mk.inj (Option.some.inj h)
    exact hitems hread

/-- Behind an opening brace an object is read up to the closing one. -/
theorem parsePrimary_brace
    (hfor : ∀ {tokens : Tokens} {e : Expr}, parseForObject fuel tokens = some (e, rest) →
      Closes .closeBrace true tokens rest)
    (hfields : ∀ {tokens : Tokens} {fields : List (Expr × Expr)},
      parseFields fuel tokens = some (fields, rest) → Closes .closeBrace true tokens rest)
    (h : parsePrimary (fuel + 1) (⟨.mark .openBrace, n⟩ :: tokens) = some (e, rest)) :
    Closes .closeBrace true (skipNewlines tokens) rest := by
  rw [parsePrimary] at h
  simp only at h
  split at h
  · rename_i hstarts
    obtain ⟨line', rest', hword⟩ := isFor_some (isFor_of_startsFor hstarts)
    rw [hword] at h ⊢
    exact (Passes.flat rfl rfl).closes (hfor h)
  · obtain ⟨⟨fields, mid⟩, hread, h⟩ := Option.bind_eq_some_iff.mp h
    obtain ⟨-, rfl⟩ := Prod.mk.inj (Option.some.inj h)
    exact hfields hread

end Brackets

/-- Whether an ellipsis comes next, and what follows it. -/
def takeEllipsis (tokens : Tokens) : Bool × Tokens :=
  match expect .ellipsis tokens with
  | some rest => (true, rest)
  | none => (false, tokens)

theorem takeEllipsis_passes {s : Bool} (tokens : Tokens) :
    Passes s tokens (takeEllipsis tokens).2 := by
  unfold takeEllipsis
  split
  · rename_i rest hrest
    obtain ⟨line, rfl⟩ := expect_some hrest
    exact .flat rfl rfl
  · exact .refl

theorem parseForObject_eq (fuel : Nat) (tokens : Tokens) :
    parseForObject (fuel + 1) tokens = (do
      let ((names, source), rest) ← parseForHead fuel tokens
      let (key, rest) ← parseExpr fuel rest
      let rest ← expect .arrow rest
      let (value, rest) ← parseExpr fuel (skipNewlines rest)
      let (guard, left) ← parseGuard fuel (skipNewlines (takeEllipsis rest).2)
      let left ← expect .closeBrace (skipNewlines left)
      return (.forObject names source key value (takeEllipsis rest).1 guard, left)) := rfl

/-- The key of an object element. -/
def parseKey (fuel : Nat) (tokens : Tokens) : Option (Expr × Tokens) :=
  match parseLabel? tokens with
  | some found => some found
  | none => parseExpr fuel tokens

/-- The key and the value of an object element. -/
def parseField (fuel : Nat) (tokens : Tokens) : Option ((Expr × Expr) × Tokens) := do
  let (key, rest) ← parseKey fuel tokens
  let rest ← expectBinder rest
  let (value, rest) ← parseExpr fuel rest
  return ((key, value), rest)

/-- An element of an object, where the object does not end. -/
theorem parseFields_field (fuel : Nat) {tokens : Tokens}
    (hclose : ∀ line rest, tokens ≠ ⟨.mark .closeBrace, line⟩ :: rest) :
    parseFields (fuel + 1) tokens = (do
      let (field, rest) ← parseField fuel tokens
      match rest with
      | ⟨.mark .closeBrace, _⟩ :: rest => some ([field], rest)
      | ⟨.newline, _⟩ :: rest =>
        let (fields, rest) ← parseFields fuel (skipNewlines rest)
        some (field :: fields, rest)
      | ⟨.mark .comma, _⟩ :: rest =>
        let (fields, rest) ← parseFields fuel (skipNewlines rest)
        some (field :: fields, rest)
      | _ => none) := by
  conv => lhs; unfold parseFields
  split
  · exact absurd rfl (hclose _ _)
  · unfold parseField parseKey
    simp only [bind_assoc, pure_bind]
    cases parseLabel? tokens <;> rfl

/-- What follows an argument up to the closing parenthesis of its call, further arguments
included. -/
def parseBehindArgument (fuel : Nat) (argument : Expr) (tokens : Tokens) :
    Option (List Expr × Tokens) :=
  match tokens with
  | ⟨.mark .ellipsis, _⟩ :: rest => do
    let rest ← expect .closeParen (skipNewlines rest)
    some ([argument], rest)
  | ⟨.mark .comma, _⟩ :: rest =>
    match skipNewlines rest with
    | ⟨.mark .closeParen, _⟩ :: rest => some ([argument], rest)
    | rest => do
      let (arguments, rest) ← parseSomeArguments fuel rest
      some (argument :: arguments, rest)
  | rest =>
    match skipNewlines rest with
    | ⟨.mark .closeParen, _⟩ :: rest => some ([argument], rest)
    | ⟨.mark .comma, _⟩ :: rest => do
      let (arguments, rest) ← parseSomeArguments fuel (skipNewlines rest)
      some (argument :: arguments, rest)
    | _ => none

theorem parseSomeArguments_eq (fuel : Nat) (tokens : Tokens) :
    parseSomeArguments (fuel + 1) tokens = (do
      let (argument, rest) ← parseExpr fuel tokens
      parseBehindArgument fuel argument rest) := rfl

theorem parseBehindArgument_passes {fuel : Nat} {argument : Expr} {tokens rest : Tokens}
    {arguments : List Expr}
    (hsome : ∀ {tokens rest : Tokens} {arguments : List Expr},
      parseSomeArguments fuel tokens = some (arguments, rest) → Reads false tokens rest)
    (h : parseBehindArgument fuel argument tokens = some (arguments, rest)) :
    Passes false tokens rest := by
  unfold parseBehindArgument at h
  split at h
  · rename_i line mid
    obtain ⟨left, hclose, h⟩ := Option.bind_eq_some_iff.mp h
    obtain ⟨-, rfl⟩ := Prod.mk.inj (Option.some.inj h)
    obtain ⟨line', hline'⟩ := expect_some hclose
    have hskip := skipNewlines_passes (s := false) mid
    rw [hline'] at hskip
    exact (Passes.flat rfl rfl).trans (hskip.trans (.flat rfl rfl))
  · rename_i line mid
    have hskip := skipNewlines_passes (s := false) mid
    refine (Passes.flat rfl rfl).trans ?_
    split at h
    · rename_i line' left hleft
      obtain ⟨-, rfl⟩ := Prod.mk.inj (Option.some.inj h)
      rw [hleft] at hskip
      exact hskip.trans (.flat rfl rfl)
    · obtain ⟨⟨more, left⟩, hmore, h⟩ := Option.bind_eq_some_iff.mp h
      obtain ⟨-, rfl⟩ := Prod.mk.inj (Option.some.inj h)
      exact hskip.trans (hsome hmore).1
  · have hskip := skipNewlines_passes (s := false) tokens
    split at h
    · rename_i line' left hleft
      obtain ⟨-, rfl⟩ := Prod.mk.inj (Option.some.inj h)
      rw [hleft] at hskip
      exact hskip.trans (.flat rfl rfl)
    · rename_i line' left hleft
      obtain ⟨⟨more, left'⟩, hmore, h⟩ := Option.bind_eq_some_iff.mp h
      obtain ⟨-, rfl⟩ := Prod.mk.inj (Option.some.inj h)
      rw [hleft] at hskip
      exact hskip.trans ((Passes.flat rfl rfl).trans
        ((skipNewlines_passes left).trans (hsome hmore).1))
    · cases h

section Field

variable {fuel : Nat} {tokens rest : Tokens}
  (hexpr : ∀ {tokens rest : Tokens} {e : Expr}, parseExpr fuel tokens = some (e, rest) →
    Reads false tokens rest)
include hexpr

theorem parseKey_reads {key : Expr} (h : parseKey fuel tokens = some (key, rest)) :
    Reads true tokens rest := by
  unfold parseKey at h
  split at h
  · rename_i found hlabel
    rw [h] at hlabel
    obtain ⟨name, line, rfl, -⟩ := parseLabel?_some hlabel
    exact .flat rfl rfl
  · exact ⟨(hexpr h).1.allowed, (hexpr h).2⟩

theorem parseField_reads {field : Expr × Expr} (h : parseField fuel tokens = some (field, rest)) :
    Reads true tokens rest := by
  obtain ⟨⟨key, mid⟩, hkey, h⟩ := Option.bind_eq_some_iff.mp h
  obtain ⟨behindBinder, hbinder, h⟩ := Option.bind_eq_some_iff.mp h
  obtain ⟨⟨value, left⟩, hvalue, h⟩ := Option.bind_eq_some_iff.mp h
  obtain ⟨-, rfl⟩ := Prod.mk.inj (Option.some.inj h)
  have hsign : Passes true mid behindBinder := by
    obtain ⟨t, line, rfl, ht⟩ := expectBinder_some hbinder
    exact .sign (by rcases ht with rfl | rfl <;> rfl)
  exact (parseKey_reads hexpr hkey).passes (hsign.trans (hexpr hvalue).1.allowed)

end Field

section Expressions

mutual

theorem parseExpr_reads : ∀ (fuel : Nat) {tokens rest : Tokens} {e : Expr},
    parseExpr fuel tokens = some (e, rest) → Reads false tokens rest
  | fuel + 1, tokens, rest, e, h => by
    obtain ⟨⟨left, mid⟩, hleft, h⟩ := Option.bind_eq_some_iff.mp h
    exact (parseOperand_reads fuel hleft).passes (parseOperators_passes fuel h)

theorem parseOperators_passes : ∀ (fuel : Nat) {tokens rest : Tokens} {left e : Expr},
    parseOperators fuel left tokens = some (e, rest) → Passes false tokens rest
  | fuel + 1, tokens, rest, left, e, h => by
    unfold parseOperators at h
    split at h
    · obtain ⟨⟨right, mid⟩, hright, h⟩ := Option.bind_eq_some_iff.mp h
      have hoperand := (skipNewlines_passes _).trans (parseExpr_reads fuel hright).1
      have hmore := (skipNewlines_passes _).trans (parseOperators_passes fuel h)
      exact (Passes.flat rfl rfl).trans (hoperand.trans hmore)
    · obtain ⟨⟨yes, mid⟩, hyes, h⟩ := Option.bind_eq_some_iff.mp h
      obtain ⟨mid', hcolon, h⟩ := Option.bind_eq_some_iff.mp h
      obtain ⟨⟨no, mid''⟩, hno, h⟩ := Option.bind_eq_some_iff.mp h
      obtain ⟨-, rfl⟩ := Prod.mk.inj (Option.some.inj h)
      obtain ⟨line, hline⟩ := expect_some hcolon
      have hfirst := (skipNewlines_passes _).trans (parseExpr_reads fuel hyes).1
      have hsecond := (skipNewlines_passes _).trans (parseExpr_reads fuel hno).1
      have hmark := skipNewlines_passes (s := false) mid
      rw [hline] at hmark
      exact (Passes.flat rfl rfl).trans
        (hfirst.trans (hmark.trans ((Passes.flat rfl rfl).trans hsecond)))
    · obtain ⟨-, rfl⟩ := Prod.mk.inj (Option.some.inj h)
      exact .refl

theorem parseOperand_reads : ∀ (fuel : Nat) {tokens rest : Tokens} {e : Expr},
    parseOperand fuel tokens = some (e, rest) → Reads false tokens rest
  | fuel + 1, tokens, rest, e, h => by
    unfold parseOperand at h
    split at h
    · obtain ⟨⟨operand, mid⟩, hoperand, h⟩ := Option.bind_eq_some_iff.mp h
      obtain ⟨-, rfl⟩ := Prod.mk.inj (Option.some.inj h)
      exact (Passes.flat rfl rfl).reads (parseTerm_reads fuel hoperand)
    · obtain ⟨⟨operand, mid⟩, hoperand, h⟩ := Option.bind_eq_some_iff.mp h
      obtain ⟨-, rfl⟩ := Prod.mk.inj (Option.some.inj h)
      exact (Passes.flat rfl rfl).reads (parseTerm_reads fuel hoperand)
    · exact parseTerm_reads fuel h

theorem parseTerm_reads : ∀ (fuel : Nat) {tokens rest : Tokens} {e : Expr},
    parseTerm fuel tokens = some (e, rest) → Reads false tokens rest
  | fuel + 1, tokens, rest, e, h => by
    obtain ⟨⟨base, mid⟩, hbase, h⟩ := Option.bind_eq_some_iff.mp h
    exact (parsePrimary_reads fuel hbase).passes (parseAccess_passes fuel h)

theorem parseAccess_passes : ∀ (fuel : Nat) {tokens rest : Tokens} {behindSplat : Bool}
    {base e : Expr}, parseAccess fuel behindSplat base tokens = some (e, rest) →
    Passes false tokens rest
  | fuel + 1, tokens, rest, behindSplat, base, e, h => by
    unfold parseAccess at h
    split at h
    · exact (Passes.flat rfl rfl).trans
        ((Passes.flat rfl rfl).trans (parseAccess_passes fuel h))
    · split_ifs at h
      exact (Passes.flat rfl rfl).trans ((Passes.flat rfl rfl).trans
        ((spanDigits_passes _).trans (parseAccess_passes fuel h)))
    · cases h
    · exact (Passes.flat rfl rfl).trans (parseAccess_passes fuel h)
    · exact (Passes.flat rfl rfl).trans (parseAccess_passes fuel h)
    · obtain ⟨⟨position, mid⟩, hposition, h⟩ := Option.bind_eq_some_iff.mp h
      obtain ⟨mid', hclose, h⟩ := Option.bind_eq_some_iff.mp h
      obtain ⟨line, hline⟩ := expect_some hclose
      have hinside := (skipNewlines_passes _).trans
        ((parseExpr_reads fuel hposition).1.trans (skipNewlines_passes mid))
      rw [hline] at hinside
      exact (Closes.box rfl rfl ⟨line, hinside⟩).1.trans (parseAccess_passes fuel h)
    · obtain ⟨-, rfl⟩ := Prod.mk.inj (Option.some.inj h)
      exact .refl

theorem parsePrimary_reads : ∀ (fuel : Nat) {tokens rest : Tokens} {e : Expr},
    parsePrimary fuel tokens = some (e, rest) → Reads false tokens rest
  | fuel + 1, tokens, rest, e, h => by
    unfold parsePrimary at h
    split at h
    · obtain ⟨⟨inner, mid⟩, hinner, h⟩ := Option.bind_eq_some_iff.mp h
      obtain ⟨mid', hclose, h⟩ := Option.bind_eq_some_iff.mp h
      obtain ⟨-, rfl⟩ := Prod.mk.inj (Option.some.inj h)
      obtain ⟨line, hline⟩ := expect_some hclose
      have hinside := (skipNewlines_passes _).trans
        ((parseExpr_reads fuel hinner).1.trans (skipNewlines_passes mid))
      rw [hline] at hinside
      exact (Reads.flat rfl rfl).passes (hinside.trans (.flat rfl rfl))
    · exact parseNumber_reads h
    · obtain ⟨-, rfl⟩ := Prod.mk.inj (Option.some.inj h)
      exact .flat rfl rfl
    · obtain ⟨-, rfl⟩ := Prod.mk.inj (Option.some.inj h)
      exact .flat rfl rfl
    · exact Closes.box rfl rfl ((skipNewlines_passes _).closes
        (parsePrimary_bracket (n := 0) (parseForTuple_closes fuel) (parseItems_closes fuel) h))
    · exact Closes.box rfl rfl ((skipNewlines_passes _).closes
        (parsePrimary_brace (n := 0) (parseForObject_closes fuel) (parseFields_closes fuel) h))
    · obtain ⟨⟨arguments, mid⟩, harguments, h⟩ := Option.bind_eq_some_iff.mp h
      obtain ⟨-, rfl⟩ := Prod.mk.inj (Option.some.inj h)
      have hinside := (skipNewlines_passes _).reads (parseArguments_reads fuel harguments)
      exact (Passes.flat rfl rfl).reads
        ((Passes.flat rfl rfl).reads hinside)
    · obtain ⟨⟨function, mid⟩, hfunction, h⟩ := Option.bind_eq_some_iff.mp h
      obtain ⟨mid', hopen, h⟩ := Option.bind_eq_some_iff.mp h
      obtain ⟨⟨arguments, mid''⟩, harguments, h⟩ := Option.bind_eq_some_iff.mp h
      obtain ⟨-, rfl⟩ := Prod.mk.inj (Option.some.inj h)
      obtain ⟨line, rfl⟩ := expect_some hopen
      have hinside := (skipNewlines_passes _).reads (parseArguments_reads fuel harguments)
      exact (Passes.flat rfl rfl).reads
        ((Passes.flat rfl rfl).reads
          ((parseQualified_reads hfunction).1.reads ((Passes.flat rfl rfl).reads hinside)))
    · obtain ⟨-, rfl⟩ := Prod.mk.inj (Option.some.inj h)
      exact .flat rfl rfl
    · cases h

theorem parseItems_closes : ∀ (fuel : Nat) {tokens rest : Tokens} {items : List Expr},
    parseItems fuel tokens = some (items, rest) → Closes .closeBracket false tokens rest
  | fuel + 1, tokens, rest, items, h => by
    unfold parseItems at h
    split at h
    · obtain ⟨-, rfl⟩ := Prod.mk.inj (Option.some.inj h)
      exact ⟨_, .refl⟩
    · obtain ⟨⟨item, mid⟩, hitem, h⟩ := Option.bind_eq_some_iff.mp h
      have hfirst := (parseExpr_reads fuel hitem).1.trans (skipNewlines_passes mid)
      simp only at h
      split at h
      · rename_i line mid' hmid
        obtain ⟨-, rfl⟩ := Prod.mk.inj (Option.some.inj h)
        rw [hmid] at hfirst
        exact ⟨_, hfirst⟩
      · rename_i line mid' hmid
        obtain ⟨⟨more, left⟩, hmore, h⟩ := Option.bind_eq_some_iff.mp h
        obtain ⟨-, rfl⟩ := Prod.mk.inj (Option.some.inj h)
        rw [hmid] at hfirst
        exact hfirst.closes ((Passes.flat rfl rfl).closes
          ((skipNewlines_passes mid').closes (parseItems_closes fuel hmore)))
      · cases h

theorem parseFields_closes : ∀ (fuel : Nat) {tokens rest : Tokens} {fields : List (Expr × Expr)},
    parseFields fuel tokens = some (fields, rest) → Closes .closeBrace true tokens rest
  | fuel + 1, tokens, rest, fields, h => by
    by_cases hclose : ∃ line left, tokens = ⟨.mark .closeBrace, line⟩ :: left
    · obtain ⟨line, left, rfl⟩ := hclose
      obtain ⟨-, rfl⟩ := Prod.mk.inj (Option.some.inj h)
      exact ⟨_, .refl⟩
    · rw [parseFields_field fuel fun line left heq => hclose ⟨line, left, heq⟩] at h
      obtain ⟨⟨field, left⟩, hread, h⟩ := Option.bind_eq_some_iff.mp h
      have hfield : Passes true tokens left :=
        (parseField_reads (fun hexpr => parseExpr_reads fuel hexpr) hread).1
      simp only at h
      split at h
      · obtain ⟨-, rfl⟩ := Prod.mk.inj (Option.some.inj h)
        exact ⟨_, hfield⟩
      · obtain ⟨⟨more, mid⟩, hmore, h⟩ := Option.bind_eq_some_iff.mp h
        obtain ⟨-, rfl⟩ := Prod.mk.inj (Option.some.inj h)
        exact hfield.closes ((Passes.flat rfl rfl).closes
          ((skipNewlines_passes _).closes (parseFields_closes fuel hmore)))
      · obtain ⟨⟨more, mid⟩, hmore, h⟩ := Option.bind_eq_some_iff.mp h
        obtain ⟨-, rfl⟩ := Prod.mk.inj (Option.some.inj h)
        exact hfield.closes ((Passes.flat rfl rfl).closes
          ((skipNewlines_passes _).closes (parseFields_closes fuel hmore)))
      · cases h

theorem parseArguments_reads : ∀ (fuel : Nat) {tokens rest : Tokens} {arguments : List Expr},
    parseArguments fuel tokens = some (arguments, rest) → Reads false tokens rest
  | fuel + 1, tokens, rest, arguments, h => by
    unfold parseArguments at h
    split at h
    · obtain ⟨-, rfl⟩ := Prod.mk.inj (Option.some.inj h)
      exact .flat rfl rfl
    · exact parseSomeArguments_reads fuel h

theorem parseSomeArguments_reads : ∀ (fuel : Nat) {tokens rest : Tokens} {arguments : List Expr},
    parseSomeArguments fuel tokens = some (arguments, rest) → Reads false tokens rest
  | fuel + 1, tokens, rest, arguments, h => by
    rw [parseSomeArguments_eq] at h
    obtain ⟨⟨argument, mid⟩, hargument, h⟩ := Option.bind_eq_some_iff.mp h
    exact (parseExpr_reads fuel hargument).passes
      (parseBehindArgument_passes (fun hmore => parseSomeArguments_reads fuel hmore) h)

theorem parseForHead_reads : ∀ (fuel : Nat) {tokens rest : Tokens} {head : List String × Expr},
    parseForHead fuel tokens = some (head, rest) → Reads false tokens rest
  | fuel + 1, tokens, rest, head, h => by
    obtain ⟨⟨names, mid⟩, hnames, h⟩ := Option.bind_eq_some_iff.mp h
    obtain ⟨⟨source, mid'⟩, hsource, h⟩ := Option.bind_eq_some_iff.mp h
    obtain ⟨mid'', hcolon, h⟩ := Option.bind_eq_some_iff.mp h
    obtain ⟨-, rfl⟩ := Prod.mk.inj (Option.some.inj h)
    obtain ⟨line, hline⟩ := expect_some hcolon
    have hbefore := (parseExpr_reads fuel hsource).1.trans (skipNewlines_passes mid')
    rw [hline] at hbefore
    exact (parseForNames_reads hnames).passes
      (hbefore.trans ((Passes.flat rfl rfl).trans (skipNewlines_passes _)))

theorem parseGuard_passes : ∀ (fuel : Nat) {tokens rest : Tokens} {guard : Option Expr},
    parseGuard fuel tokens = some (guard, rest) → Passes false tokens rest
  | fuel + 1, tokens, rest, guard, h => by
    unfold parseGuard at h
    split at h
    · obtain ⟨⟨condition, mid⟩, hcondition, h⟩ := Option.bind_eq_some_iff.mp h
      obtain ⟨-, rfl⟩ := Prod.mk.inj (Option.some.inj h)
      exact (Passes.flat rfl rfl).trans
        ((skipNewlines_passes _).trans (parseExpr_reads fuel hcondition).1)
    · obtain ⟨-, rfl⟩ := Prod.mk.inj (Option.some.inj h)
      exact .refl

theorem parseForTuple_closes : ∀ (fuel : Nat) {tokens rest : Tokens} {e : Expr},
    parseForTuple fuel tokens = some (e, rest) → Closes .closeBracket false tokens rest
  | fuel + 1, tokens, rest, e, h => by
    obtain ⟨⟨⟨names, source⟩, mid⟩, hhead, h⟩ := Option.bind_eq_some_iff.mp h
    obtain ⟨⟨item, mid'⟩, hitem, h⟩ := Option.bind_eq_some_iff.mp h
    obtain ⟨⟨guard, mid''⟩, hguard, h⟩ := Option.bind_eq_some_iff.mp h
    obtain ⟨left, hclose, h⟩ := Option.bind_eq_some_iff.mp h
    obtain ⟨-, rfl⟩ := Prod.mk.inj (Option.some.inj h)
    obtain ⟨line, hline⟩ := expect_some hclose
    have hbefore := ((skipNewlines_passes mid').trans (parseGuard_passes fuel hguard)).trans
      (skipNewlines_passes mid'')
    rw [hline] at hbefore
    exact ⟨line, (parseForHead_reads fuel hhead).1.trans
      ((parseExpr_reads fuel hitem).1.trans hbefore)⟩

theorem parseForObject_closes : ∀ (fuel : Nat) {tokens rest : Tokens} {e : Expr},
    parseForObject fuel tokens = some (e, rest) → Closes .closeBrace true tokens rest
  | fuel + 1, tokens, rest, e, h => by
    rw [parseForObject_eq] at h
    obtain ⟨⟨⟨names, source⟩, mid⟩, hhead, h⟩ := Option.bind_eq_some_iff.mp h
    obtain ⟨⟨key, mid'⟩, hkey, h⟩ := Option.bind_eq_some_iff.mp h
    obtain ⟨left, harrow, h⟩ := Option.bind_eq_some_iff.mp h
    obtain ⟨⟨value, behind⟩, hvalue, h⟩ := Option.bind_eq_some_iff.mp h
    have hfront := (parseForHead_reads fuel hhead).1.trans (parseExpr_reads fuel hkey).1
    have hsign : Passes true mid' left := by
      obtain ⟨line, rfl⟩ := expect_some harrow
      exact .sign rfl
    have helement := hsign.trans
      ((skipNewlines_passes left).trans (parseExpr_reads fuel hvalue).1.allowed)
    have hellipsis := takeEllipsis_passes (s := true) behind
    obtain ⟨⟨guard, last⟩, hguard, h⟩ := Option.bind_eq_some_iff.mp h
    obtain ⟨left', hclose, h⟩ := Option.bind_eq_some_iff.mp h
    obtain ⟨-, rfl⟩ := Prod.mk.inj (Option.some.inj h)
    obtain ⟨line', hline'⟩ := expect_some hclose
    have hback := (skipNewlines_passes _).trans
      ((parseGuard_passes fuel hguard).allowed.trans (skipNewlines_passes last))
    rw [hline'] at hback
    exact ⟨line', hfront.allowed.trans (helement.trans (hellipsis.trans hback))⟩

end

end Expressions

end TerraIndex.Hcl
