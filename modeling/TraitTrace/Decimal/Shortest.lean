import TraitTrace.Decimal.Binary

/-! Decimal text of double-precision numbers: the fewest significant digits that read back as the
same number, and among those the digits nearest to it. A double is taken apart into `m * 2 ^ q`; the
reals that round to it form an interval, closed when `m` is even. For one digit, then two, up to
seventeen, the two neighbours of the value on that decimal grid are tested in exact arithmetic. -/

namespace TraitTrace.Decimal

def leading (v : Binary) : Int :=
  let scaled := v.mantissa * powPos 2 v.exponent * Nat.pow 10 340 / powPos 2 (-v.exponent)
  ((Nat.toDigits 10 scaled).length : Int) - 341

def onGrid? (v : Binary) (k : Int) : Option Nat :=
  let scale := powPos 2 (v.exponent - 2) * powPos 10 (-k)
  let unit := powPos 2 (2 - v.exponent) * powPos 10 k
  let value := 4 * v.mantissa * scale
  let low := (4 * v.mantissa - if v.narrow then 1 else 2) * scale
  let high := (4 * v.mantissa + 2) * scale
  let within (d : Nat) : Bool :=
    if v.mantissa % 2 = 0 then low ≤ d * unit && d * unit ≤ high
    else low < d * unit && d * unit < high
  let d := value / unit
  let below := value - d * unit
  let above := (d + 1) * unit - value
  match within d, within (d + 1) with
  | true, false => some d
  | false, true => some (d + 1)
  | true, true =>
    if below < above then some d
    else if above < below then some (d + 1)
    else if d % 2 = 0 then some d else some (d + 1)
  | false, false => none

/-- Shortest digits of a positive double, tried with `n`, `n + 1`, … digits for `tries` times,
with the power of ten of the last digit. -/
def digitsFrom (v : Binary) (lead : Int) : Nat → Nat → Nat × Int
  | _, 0 => (v.mantissa, 0)
  | n, tries + 1 =>
    let k := lead + 1 - n
    match onGrid? v k with
    | some d => (d, k)
    | none => digitsFrom v lead (n + 1) tries

def shortest (v : Binary) : Nat × Int := digitsFrom v (leading v) 1 17

def dropZeros (digits : List Char) : List Char :=
  (digits.reverse.dropWhile (· == '0')).reverse

/-- The text of digits with the decimal point after the first `point` of them: positional from
`0.0001` up to sixteen digits before the point, else with an exponent of two digits or more. -/
def layout (digits : List Char) (point : Int) : String :=
  if -4 < point ∧ point ≤ 16 then
    if point ≤ 0 then
      String.ofList ("0.".toList ++ List.replicate (-point).toNat '0' ++ digits)
    else
      let n := point.toNat
      let whole := digits.take n ++ List.replicate (n - digits.length) '0'
      let part := digits.drop n
      String.ofList (whole ++ '.' :: if part.isEmpty then ['0'] else part)
  else
    let e := point - 1
    let head := digits.take 1
    let tail := digits.drop 1
    let mark := if e < 0 then "e-" else "e+"
    let size := toString e.natAbs
    String.ofList (head ++ (if tail.isEmpty then [] else '.' :: tail)) ++ mark ++
      (if size.length < 2 then "0" ++ size else size)

structure Names where
  infinity : String
  nan : String

def text (names : Names) (bits : UInt64) : String :=
  let sign := if isNegative bits then "-" else ""
  match magnitude bits with
  | .nan => names.nan
  | .infinite => sign ++ names.infinity
  | .finite v =>
    if v.mantissa = 0 then sign ++ "0.0"
    else
      let (d, k) := shortest v
      let all := Nat.toDigits 10 d
      sign ++ layout (dropZeros all) (all.length + k)

end TraitTrace.Decimal
