/-! The double nearest to a written decimal number. -/

namespace TraitTrace.Decimal

/-- The bits of the double nearest to `± mantissa * 10 ^ exponent`. Beyond 400 decimal places on
either side the result is infinity or zero, whatever the digits are. -/
def nearestBits (negative : Bool) (mantissa : Nat) (exponent : Int) : UInt64 :=
  let places : Int := (Nat.toDigits 10 mantissa).length + exponent
  let size : UInt64 :=
    if mantissa = 0 ∨ places < -400 then 0
    else if 400 < places then 0x7FF0000000000000
    else (Float.ofScientific mantissa (exponent < 0) exponent.natAbs).toBits
  if negative then size ||| 0x8000000000000000 else size

end TraitTrace.Decimal
