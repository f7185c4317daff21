import TraitTrace.Text.Blank
import TraitTrace.Text.Digit

/-! Numerals: the values of digits and of runs of digits, signs, and the blanks that may stand
around. A decimal numeral may not have more than 4300 digits. -/

namespace TraitTrace.Decimal

def maxDigits : Nat := 4300

def nat (base : Nat) (digits : List Nat) : Nat :=
  digits.foldl (fun n d => n * base + d) 0

@[simp] theorem nat_append_singleton (base : Nat) (digits : List Nat) (d : Nat) :
    nat base (digits ++ [d]) = nat base digits * base + d := by
  simp [nat]

def asciiDigit? (c : Char) : Option Nat :=
  if '0' ≤ c ∧ c ≤ '9' then some (c.toNat - 48) else none

/-- The value of a hexadecimal digit; decimal digits may be of any script. -/
def hexValue? (c : Char) : Option Nat :=
  if 'a' ≤ c ∧ c ≤ 'f' then some (c.toNat - 87)
  else if 'A' ≤ c ∧ c ≤ 'F' then some (c.toNat - 55)
  else Text.decimalValue? c

/-- Blanks that may stand around a numeral: the separator controls are not among them. -/
def isNumeralBlank (c : Char) : Bool :=
  Text.isBlank c && !(0x1C ≤ c.toNat && c.toNat ≤ 0x1F)

def trimmed (s : List Char) : List Char :=
  Text.trimRight isNumeralBlank (Text.trimLeft isNumeralBlank s)

def digitRun? (value? : Char → Option Nat) : List Char → Option (List Nat)
  | [] => none
  | [c] => (value? c).map fun d => [d]
  | c :: '_' :: rest => do
    let d ← value? c
    let ds ← digitRun? value? rest
    return d :: ds
  | c :: rest => do
    let d ← value? c
    let ds ← digitRun? value? rest
    return d :: ds

/-- Takes a sign off the front: whether it was a minus, and the rest. -/
def takeSign : List Char → Bool × List Char
  | '-' :: rest => (true, rest)
  | '+' :: rest => (false, rest)
  | s => (false, s)

end TraitTrace.Decimal
