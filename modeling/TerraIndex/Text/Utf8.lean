/-!
# Reading UTF-8

`decode` turns bytes into characters. Where the bytes stop being UTF-8 it reports the longest run
that could still have begun a character, or the one byte that can begin none.
-/

namespace TerraIndex.Text.Utf8

inductive Reason
  | invalidStart
  | invalidContinuation
  | unexpectedEnd
deriving DecidableEq

/-- Bytes that are no UTF-8: where they start, which they are and why they are refused. -/
structure Fault where
  position : Nat
  run : List UInt8
  reason : Reason
deriving DecidableEq

/-- A character begun: its bytes so far, the number they spell, how many are missing, and the
least and greatest value the next may have. -/
structure Pending where
  bytes : List UInt8
  value : Nat
  missing : Nat
  low : Nat
  high : Nat

/-- What a first byte above ASCII begins. -/
def begin? (b : UInt8) : Option Pending :=
  let n := b.toNat
  if 0xc2 ≤ n ∧ n ≤ 0xdf then some ⟨[b], n - 0xc0, 1, 0x80, 0xbf⟩
  else if n = 0xe0 then some ⟨[b], 0, 2, 0xa0, 0xbf⟩
  else if n = 0xed then some ⟨[b], 0xd, 2, 0x80, 0x9f⟩
  else if 0xe1 ≤ n ∧ n ≤ 0xef then some ⟨[b], n - 0xe0, 2, 0x80, 0xbf⟩
  else if n = 0xf0 then some ⟨[b], 0, 3, 0x90, 0xbf⟩
  else if 0xf1 ≤ n ∧ n ≤ 0xf3 then some ⟨[b], n - 0xf0, 3, 0x80, 0xbf⟩
  else if n = 0xf4 then some ⟨[b], 4, 3, 0x80, 0x8f⟩
  else none

/-- Decodes from the byte numbered `position` on, with a character begun or none. -/
def decodeFrom (position : Nat) : Option Pending → List UInt8 → Except Fault (List Char)
  | none, [] => .ok []
  | some p, [] => .error ⟨position - p.bytes.length, p.bytes, .unexpectedEnd⟩
  | none, b :: bs =>
    if b.toNat < 0x80 then (Char.ofNat b.toNat :: ·) <$> decodeFrom (position + 1) none bs
    else
      match begin? b with
      | some p => decodeFrom (position + 1) (some p) bs
      | none => .error ⟨position, [b], .invalidStart⟩
  | some p, b :: bs =>
    if p.low ≤ b.toNat ∧ b.toNat ≤ p.high then
      let value := p.value * 64 + (b.toNat - 0x80)
      if p.missing ≤ 1 then (Char.ofNat value :: ·) <$> decodeFrom (position + 1) none bs
      else
        decodeFrom (position + 1) (some ⟨p.bytes ++ [b], value, p.missing - 1, 0x80, 0xbf⟩) bs
    else .error ⟨position - p.bytes.length, p.bytes, .invalidContinuation⟩

def decode (bytes : List UInt8) : Except Fault (List Char) := decodeFrom 0 none bytes

def Reason.text : Reason → String
  | .invalidStart => "invalid start byte"
  | .invalidContinuation => "invalid continuation byte"
  | .unexpectedEnd => "unexpected end of data"

def Fault.message (f : Fault) : String :=
  let place :=
    match f.run with
    | [b] =>
      let digit (n : Nat) : String := String.ofList [Nat.digitChar n]
      "byte 0x" ++ digit (b.toNat / 16) ++ digit (b.toNat % 16) ++ " in position "
        ++ f.position.repr
    | run => "bytes in position " ++ f.position.repr ++ "-" ++ (f.position + run.length - 1).repr
  "'utf-8' codec can't decode " ++ place ++ ": " ++ f.reason.text

end TerraIndex.Text.Utf8
