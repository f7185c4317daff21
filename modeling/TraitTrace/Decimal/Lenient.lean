import TraitTrace.Decimal.Binary
import TraitTrace.Decimal.Double
import TraitTrace.Decimal.Numeral

/-! Numbers read the lenient way: blanks around them, a sign, and decimal digits of any script. An
integer may have single underscores between its digits and the mark of its base in front; a double
may have a point and an exponent, and infinity and what is no number go by their names. -/

namespace TraitTrace.Decimal

def baseMark? : Nat → Option Char
  | 2 => some 'b'
  | 8 => some 'o'
  | 16 => some 'x'
  | _ => none

def dropMark (base : Nat) : List Char → List Char
  | '0' :: m :: rest =>
    if baseMark? base = some m.toLower then
      match rest with
      | '_' :: rest => rest
      | rest => rest
    else '0' :: m :: rest
  | s => s

def digitIn? (base : Nat) (c : Char) : Option Nat := (hexValue? c).filter (· < base)

def lenientInt? (base : Nat) (s : List Char) : Option Int :=
  let (negative, s) := takeSign (trimmed s)
  (digitRun? (digitIn? base) (dropMark base s)).map fun ds =>
    if negative then -(nat base ds : Int) else nat base ds

def leadingDigits (s : List Char) : Nat :=
  ((takeSign (trimmed s)).2.takeWhile fun c => (Text.decimalValue? c).isSome).length

/-- An exponent after its letter; where there is nothing it is zero. -/
def lenientExponent? : List Char → Option Int
  | [] => some 0
  | e :: s =>
    let (negative, ds) := takeSign s
    match ds.mapM Text.decimalValue? with
    | none => none
    | some [] => none
    | some ds =>
      if e.toLower = 'e' then
        let n : Int := nat 10 ds
        some (if negative then -n else n)
      else none

def lenientDigits? (negative : Bool) (s : List Char) : Option UInt64 :=
  let isDecimal (c : Char) : Bool := (Text.decimalValue? c).isSome
  let whole := s.takeWhile isDecimal
  let rest := s.dropWhile isDecimal
  let (fraction, rest) :=
    match rest with
    | '.' :: rest => (rest.takeWhile isDecimal, rest.dropWhile isDecimal)
    | rest => ([], rest)
  let digits := (whole ++ fraction).filterMap Text.decimalValue?
  if digits = [] then none
  else (lenientExponent? rest).map fun e =>
    nearestBits negative (nat 10 digits) (e - fraction.length)

def lenientFloat? (s : List Char) : Option UInt64 :=
  let (negative, s) := takeSign (trimmed s)
  let word := String.ofList (s.map Char.toLower)
  if word = "inf" ∨ word = "infinity" then some (infinityBits negative)
  else if word = "nan" then some nanBits
  else lenientDigits? negative s

example : lenientInt? 16 " +0X_1f ".toList = some 31 ∧ lenientInt? 16 "-1_0".toList = some (-16) ∧
    lenientInt? 16 "٣".toList = some 3 ∧ lenientInt? 8 "0o17".toList = some 15 := by decide +kernel

example : ["", "0x", "_1", "1__0", "1_", "- 1", "\x1c1", "Ａ"].map
    (fun s => lenientInt? 16 s.toList) = List.replicate 8 none := by decide +kernel

example : ["", ".", "1e", "e5", "1.5.", "0x1", "1 2"].map (fun s => lenientFloat? s.toList) =
    List.replicate 7 none := by decide +kernel

end TraitTrace.Decimal
