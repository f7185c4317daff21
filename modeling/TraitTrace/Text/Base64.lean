/-! Bytes in base 64. Characters outside the alphabet do not count. A pair of padding marks after
two digits of a group of four, or one after three, ends the bytes. -/

namespace TraitTrace.Text

def base64Digit? (c : Char) : Option Nat :=
  if 'A' ≤ c ∧ c ≤ 'Z' then some (c.toNat - 65)
  else if 'a' ≤ c ∧ c ≤ 'z' then some (c.toNat - 71)
  else if '0' ≤ c ∧ c ≤ '9' then some (c.toNat + 4)
  else if c = '+' then some 62
  else if c = '/' then some 63
  else none

/-- The digits of a text that a last group ends, and whether the group is whole. `place` counts the
digits of the group so far and `pads` the padding marks since. -/
def base64DigitsFrom (digits : List Nat) (place pads : Nat) : List Char → List Nat × Bool
  | [] => (digits.reverse, place == 0)
  | c :: s =>
    if c = '=' then
      if place < 2 then base64DigitsFrom digits place pads s
      else if 4 ≤ place + pads + 1 then (digits.reverse, true)
      else base64DigitsFrom digits place (pads + 1) s
    else
      match base64Digit? c with
      | some d => base64DigitsFrom (d :: digits) ((place + 1) % 4) 0 s
      | none => base64DigitsFrom digits place pads s

def base64Bytes : List Nat → List UInt8
  | a :: b :: c :: d :: digits =>
    [4 * a + b / 16, 16 * (b % 16) + c / 4, 64 * (c % 4) + d].map UInt8.ofNat ++ base64Bytes digits
  | [a, b, c] => [4 * a + b / 16, 16 * (b % 16) + c / 4].map UInt8.ofNat
  | [a, b] => [UInt8.ofNat (4 * a + b / 16)]
  | _ => []

def base64? (s : List Char) : Option (List UInt8) :=
  match base64DigitsFrom [] 0 0 s with
  | (digits, true) => some (base64Bytes digits)
  | (_, false) => none

example : (base64? "TWFu".toList, base64? "T W\nE=".toList, base64? "TQ==TWFu".toList) =
    (some [77, 97, 110], some [77, 97], some [77]) := by decide +kernel

example : (base64? "T".toList, base64? "TQ=".toList) = (none, none) := by decide +kernel

end TraitTrace.Text
