/-! Doubles taken apart. The bits of a double stand for infinity, for no number, or for a sign and a
mantissa times a power of two. -/

namespace TraitTrace.Decimal

/-- The double `mantissa * 2 ^ exponent`; `narrow` says that the gap below it is half the gap
above. -/
structure Binary where
  mantissa : Nat
  exponent : Int
  narrow : Bool

inductive Magnitude where
  | infinite
  | nan
  | finite (value : Binary)

def magnitude (bits : UInt64) : Magnitude :=
  let fraction := (bits &&& 0xFFFFFFFFFFFFF).toNat
  let biased := ((bits >>> 52) &&& 0x7FF).toNat
  if biased = 0x7FF then
    if fraction = 0 then .infinite else .nan
  else if biased = 0 then .finite ⟨fraction, -1074, false⟩
  else .finite ⟨fraction + Nat.pow 2 52, (biased : Int) - 1075, fraction = 0 ∧ 1 < biased⟩

def isNegative (bits : UInt64) : Bool := bits >>> 63 == 1

def powPos (base : Nat) (e : Int) : Nat := Nat.pow base e.toNat

def isFinite (bits : UInt64) : Bool :=
  match magnitude bits with
  | .finite _ => true
  | _ => false

def integral? (bits : UInt64) : Option Int :=
  match magnitude bits with
  | .finite v =>
    let unit := powPos 2 (-v.exponent)
    if v.mantissa % unit = 0 then
      let n : Int := (v.mantissa / unit * powPos 2 v.exponent : Nat)
      some (if isNegative bits then -n else n)
    else none
  | _ => none

def infinityBits (negative : Bool) : UInt64 :=
  if negative then 0xFFF0000000000000 else 0x7FF0000000000000

def nanBits : UInt64 := 0x7FF8000000000000

def negated (bits : UInt64) : UInt64 := bits ^^^ 0x8000000000000000

example : [0x4020000000000000, 0xC020000000000000, 0x3FE0000000000000, 0x7FF0000000000000].map
    integral? = [some 8, some (-8), none, none] := by decide +kernel

end TraitTrace.Decimal
