import TraitTrace.Decimal.Lenient
import TraitTrace.Fault
import TraitTrace.Text.Utf8

/-! Values of character literals: a bare character, a one-letter escape, two hexadecimal digits
after `x`, or a code point between braces. A value is a code point, which may be a surrogate. A
number that is none has no value; one that does not fit 32 bits is a fault. -/

namespace TraitTrace.TypeExpr

def codePoint (n : Int) : Except Fault (Option Nat) :=
  if n < -0x80000000 ∨ 0x80000000 ≤ n then .error .codePointRange
  else if 0 ≤ n ∧ n < 0x110000 then .ok (some n.toNat)
  else .ok none

def letterEscape? : Char → Option Char
  | 'n' => some '\n'
  | 't' => some '\t'
  | 'r' => some '\r'
  | '0' => some '\x00'
  | '\\' => some '\\'
  | '\'' => some '\''
  | '"' => some '"'
  | _ => none

def hexCodePoint (s : List Char) : Except Fault (Option Nat) :=
  match Decimal.lenientInt? 16 s with
  | some n => codePoint n
  | none => .ok none

def escapeValue : List Char → Except Fault (Option Nat)
  | [c] => .ok ((letterEscape? c).map Char.toNat)
  | 'u' :: '{' :: s =>
    if s.getLast? = some '}' then hexCodePoint (s.dropLast.filter (· != '_')) else .ok none
  | ['x', a, b] => hexCodePoint [a, b]
  | _ => .ok none

def literalPoint (s : List Char) : Except Fault (Option Nat) :=
  match s with
  | '\'' :: s =>
    if s.getLast? = some '\'' then
      match s.dropLast with
      | '\\' :: escape => escapeValue escape
      | [c] => .ok (some c.toNat)
      | _ => .ok none
    else .ok none
  | _ => .ok none

/-- The character of a literal. The literal of a surrogate has none. -/
def literalValue (s : List Char) : Except Fault (Option Char) :=
  (literalPoint s).map (Option.bind · Text.charOf?)

def decodeCharLiteral (text : String) : Except Fault (Option Char) := literalValue text.toList

end TraitTrace.TypeExpr
