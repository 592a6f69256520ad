import TerraIndex.Json.Decode
/-!
# Written JSON

`Written v t` says that `t`, from its first character to its last, is a text for the value `v`: the
tokens of JSON with any white space between them, broken into lines anywhere, any of the escapes
that a string allows and any form of a number. The words for the numbers that are not finite are
tokens too, integers have at most `maxIntegerDigits` digits, and a key repeated in an object counts
as the decoder counts it.

`MoreItems vs u` says that `u` is what follows an item in an array, up to and with the bracket:
the items `vs`, each with a comma in front. `ItemsBefore vs p` says that `p` is what stands in an
array in front of an item: the bracket and the items `vs`, each with its comma.
-/

namespace TerraIndex.Json

section Decidable

variable {α : Type} (p : α → Prop) [DecidablePred p]

-- over the characters of a list, and not over all characters
instance (priority := high) decidableForallMem (items : List α) :
    Decidable (∀ item ∈ items, p item) := List.decidableBAll p items

instance (priority := high) decidableForallMemOption (item? : Option α) :
    Decidable (∀ item ∈ item?, p item) := item?.decidableForallMem

end Decidable

/-- White space between two tokens. -/
def Blanks (cs : List Char) : Prop := ∀ c ∈ cs, isBlank c = true

instance (cs : List Char) : Decidable (Blanks cs) := decidableForallMem _ cs

theorem blanks_nil : Blanks [] := List.forall_mem_nil _

section Tokens

/-- The text begins with the escape of the second half of a surrogate pair. -/
def LowUnitFirst (t : List Char) : Prop :=
  ∃ a b c d n rest, t = '\\' :: 'u' :: a :: b :: c :: d :: rest ∧ unit? a b c d = some n
    ∧ isLowSurrogate n = true

/-- The characters of a string and a text for them between its quotes. An escaped unit that is
half of no pair stands for the character the decoder puts there. -/
inductive StringBody : List Char → List Char → Prop
  | nil : StringBody [] []
  | plain {c : Char} {s t : List Char} : c ≠ '"' → c ≠ '\\' → 0x20 ≤ c.toNat →
      StringBody s t → StringBody (c :: s) (c :: t)
  | letter {e c : Char} {s t : List Char} : letterEscape? e = some c →
      StringBody s t → StringBody (c :: s) ('\\' :: e :: t)
  | unit {a b c d : Char} {n : Nat} {s t : List Char} : unit? a b c d = some n →
      (isHighSurrogate n = true → ¬ LowUnitFirst t) →
      StringBody s t → StringBody (unitChar n :: s) ('\\' :: 'u' :: a :: b :: c :: d :: t)
  | pair {a b c d e f g h : Char} {high low : Nat} {s t : List Char} :
      unit? a b c d = some high → isHighSurrogate high = true →
      unit? e f g h = some low → isLowSurrogate low = true → StringBody s t →
      StringBody (pairChar high low :: s)
        ('\\' :: 'u' :: a :: b :: c :: d :: '\\' :: 'u' :: e :: f :: g :: h :: t)

inductive Word : Raw → List Char → Prop
  | null : Word .null ['n', 'u', 'l', 'l']
  | true : Word (.bool true) ['t', 'r', 'u', 'e']
  | false : Word (.bool false) ['f', 'a', 'l', 's', 'e']
  | nan : Word (.float .nan) ['N', 'a', 'N']
  | infinity : Word (.float (.infinity false)) ['I', 'n', 'f', 'i', 'n', 'i', 't', 'y']
  | negativeInfinity :
      Word (.float (.infinity true)) ['-', 'I', 'n', 'f', 'i', 'n', 'i', 't', 'y']

def Digits (cs : List Char) : Prop := ∀ c ∈ cs, c.isDigit = true

instance (cs : List Char) : Decidable (Digits cs) := decidableForallMem _ cs

/-- The digits of an integer part. -/
inductive Whole : List Char → Prop
  | zero : Whole ['0']
  | digits {c : Char} {cs : List Char} : c ≠ '0' → Digits (c :: cs) → Whole (c :: cs)

/-- The digits behind a point and the text that holds them. -/
inductive Fraction : List Char → List Char → Prop
  | none : Fraction [] []
  | some {cs : List Char} : cs ≠ [] → Digits cs → Fraction cs ('.' :: cs)

inductive Sign : Bool → List Char → Prop
  | none : Sign false []
  | plus : Sign false ['+']
  | minus : Sign true ['-']

inductive Exponent : Option Int → List Char → Prop
  | none : Exponent none []
  | some {mark : Char} {negative : Bool} {sign cs : List Char} : mark = 'e' ∨ mark = 'E' →
      Sign negative sign → cs ≠ [] → Digits cs →
      Exponent (some (if negative then -(digitsValue cs : Int) else digitsValue cs))
        (mark :: (sign ++ cs))

def minusText (negative : Bool) : List Char := if negative then ['-'] else []

/-- The text of a number. Integers of more than `maxIntegerDigits` digits have none, since no value is
decoded from their digits. -/
inductive Numeral : Raw → List Char → Prop
  | int (negative : Bool) {cs : List Char} : Whole cs → cs.length ≤ maxIntegerDigits →
      Numeral (.int (if negative then -(digitsValue cs : Int) else digitsValue cs))
        (minusText negative ++ cs)
  | float (negative : Bool) {cs fs f x : List Char} {e : Option Int} : Whole cs →
      Fraction fs f → Exponent e x → fs ≠ [] ∨ e ≠ none →
      Numeral (.float (Binary64.ofDecimal negative (digitsValue (cs ++ fs))
        (e.getD 0 - (fs.length : Int)))) (minusText negative ++ (cs ++ (f ++ x)))

end Tokens

mutual

inductive Written : Raw → List Char → Prop
  | word {v : Raw} {t : List Char} : Word v t → Written v t
  | numeral {v : Raw} {t : List Char} : Numeral v t → Written v t
  | text {s t : List Char} : StringBody s t →
      Written (.text (String.ofList s)) ('"' :: (t ++ ['"']))
  | emptyList {w : List Char} : Blanks w → Written (.list []) ('[' :: (w ++ [']']))
  | list {v : Raw} {vs : List Raw} {w t u : List Char} : Blanks w → Written v t →
      MoreItems vs u → Written (.list (v :: vs)) ('[' :: (w ++ (t ++ u)))
  | emptyMap {w : List Char} : Blanks w → Written (.map []) ('{' :: (w ++ ['}']))
  | map {m : String × Raw} {ms : List (String × Raw)} {w t u : List Char} : Blanks w →
      Member m t → MoreMembers ms u →
      Written (.map (mergeEntries [] (m :: ms))) ('{' :: (w ++ (t ++ u)))

/-- What follows an item of an array. -/
inductive MoreItems : List Raw → List Char → Prop
  | last {w : List Char} : Blanks w → MoreItems [] (w ++ [']'])
  | next {v : Raw} {vs : List Raw} {w w' t u : List Char} : Blanks w → Blanks w' →
      Written v t → MoreItems vs u → MoreItems (v :: vs) (w ++ ',' :: (w' ++ (t ++ u)))

/-- A key and its value. -/
inductive Member : String × Raw → List Char → Prop
  | mk {s k : List Char} {v : Raw} {w w' t : List Char} : StringBody s k → Blanks w → Blanks w' →
      Written v t → Member (String.ofList s, v) ('"' :: (k ++ '"' :: (w ++ ':' :: (w' ++ t))))

/-- What follows a member of an object. -/
inductive MoreMembers : List (String × Raw) → List Char → Prop
  | last {w : List Char} : Blanks w → MoreMembers [] (w ++ ['}'])
  | next {m : String × Raw} {ms : List (String × Raw)} {w w' t u : List Char} : Blanks w →
      Blanks w' → Member m t → MoreMembers ms u →
      MoreMembers (m :: ms) (w ++ ',' :: (w' ++ (t ++ u)))

end

/-- What stands in an array in front of an item. -/
inductive ItemsBefore : List Raw → List Char → Prop
  | first {w : List Char} : Blanks w → ItemsBefore [] ('[' :: w)
  | next {vs : List Raw} {v : Raw} {p t w w' : List Char} : ItemsBefore vs p → Written v t →
      Blanks w → Blanks w' → ItemsBefore (vs ++ [v]) (p ++ (t ++ (w ++ ',' :: w')))

end TerraIndex.Json
