import TraitTrace.Decimal.Numeral

/-! Whole numbers as settings may give them: decimal, in ASCII, and lenient about blanks, a plus,
zeros in front, a fraction of zeros and underscores. -/

namespace TraitTrace.Decimal

/-- Why a text is no integer: it is not written as one, or it has more digits than a numeral may. -/
inductive NumeralFlaw where
  | unreadable
  | tooLong
  deriving DecidableEq, Repr

/-- An integer as JSON writes it: an optional minus, and digits of which only a lone one is zero. -/
def plainInt (s : List Char) : Except NumeralFlaw Int :=
  let (negative, digits) :=
    match s with
    | '-' :: digits => (true, digits)
    | digits => (false, digits)
  let run := digits.takeWhile Char.isDigit
  if digits = ['0'] then .ok 0
  else if digits.head? = some '0' ∨ run = [] then .error .unreadable
  else if maxDigits < run.length then .error .tooLong
  else if run.length < digits.length then .error .unreadable
  else
    let n : Int := nat 10 (run.filterMap asciiDigit?)
    .ok (if negative then -n else n)

/-- The numeral after the zeros and underscores it starts with, once its first zero is read. A zero
before a point stays, and of nothing but zeros the last character. -/
def afterZeros? (last : Char) : List Char → Option (List Char)
  | [] => some [last]
  | c :: s =>
    if c = '0' ∨ c = '_' then afterZeros? c s
    else if c = '.' then some (last :: c :: s)
    else if c.isDigit ∨ c = '-' then some (c :: s)
    else none

/-- A numeral without leading zeros. It starts with a digit or a minus. -/
def dropZeros? : List Char → Option (List Char)
  | '0' :: s => afterZeros? '0' s
  | c :: s => if c.isDigit ∨ c = '-' then some (c :: s) else none
  | [] => none

def dropZeroFraction (s : List Char) : List Char :=
  let fraction := (s.dropWhile (· != '.')).drop 1
  if fraction ≠ [] ∧ fraction.all (· == '0') then s.takeWhile (· != '.') else s

def hasDoubleUnderscore : List Char → Bool
  | '_' :: '_' :: _ => true
  | _ :: s => hasDoubleUnderscore s
  | [] => false

def dropUnderscores (s : List Char) : List Char :=
  if s.head? = some '_' ∨ s.getLast? = some '_' ∨ hasDoubleUnderscore s then s
  else s.filter (· != '_')

/-- A lenient numeral in the plain form: without blanks around it, a plus, leading zeros, a fraction
of zeros and underscores. -/
def plainForm? (s : List Char) : Option (List Char) :=
  let s := trimmed s
  let unsigned :=
    match s with
    | '+' :: '-' :: _ => none
    | '+' :: s => some s
    | s => some s
  (unsigned.bind dropZeros?).map fun s => dropUnderscores (dropZeroFraction s)

/-- A whole number as settings may give it: plain, or else in a form that becomes plain. -/
def wholeInt (s : List Char) : Except NumeralFlaw Int :=
  match plainInt s with
  | .error .unreadable =>
    match plainForm? s with
    | some t => plainInt t
    | none => .error .unreadable
  | outcome => outcome

def wholeInt? (s : String) : Option Int := (wholeInt s.toList).toOption

example : [" 8 ", "+8", "008", "8.0", "1_0", "-4", "0__8", "0_-8", "+0__8.0"].map wholeInt? =
    [some 8, some 8, some 8, some 8, some 10, some (-4), some 8, some (-8), some 8] := by
  decide +kernel

example : ["", "8.5", "8.", "0x8", "_1", "+-1", "-08", "1__0", "0_", "1e3"].map wholeInt? =
    List.replicate 10 none := by decide +kernel

end TraitTrace.Decimal
