import TraitTrace.Proofs.FieldName.Printed
import TraitTrace.Proofs.Outcome

/-! Texts that cannot be read as field names. Nearly every text can: a character that cannot be
decoded is hidden, and a length that is not written in digits is ignored. What stops the decoder is
a number: that of a character, where it does not fit 32 bits, and the declared length, where its
digits make no numeral or there is no list of that many places. -/

namespace TraitTrace

namespace TypeExpr

/-- A number that does not fit 32 bits. -/
def Wide (n : Int) : Prop := n < -0x80000000 ∨ 0x80000000 ≤ n

end TypeExpr

namespace FieldName

open TypeExpr

/-- The literal of a character by a number that does not fit 32 bits. -/
def WideLiteral (s : List Char) : Prop :=
  ∃ body n, s = inQuotes ('\\' :: 'u' :: '{' :: (body ++ ['}'])) ∧ '}' ∉ body ∧
    Decimal.lenientInt? 16 (body.filter (· != '_')) = some n ∧ Wide n

example : point "'\\u\x7b80000000\x7d'".toList = .error .codePointRange := by decide +kernel

/-- What the nodes of a list show, outermost first. -/
def shown (s : List Char) : List (List Char) :=
  match _h : generic s with
  | (head, first :: more) =>
    if head ∈ nodeTypes then
      match _hm : more with
      | [] => [first]
      | rest :: _ =>
        if rest = [] ∨ rest = endType ∨ ['.', '.', '.'].isPrefixOf rest then [first]
        else first :: shown rest
    else []
  | (_, []) => []
termination_by s.length
decreasing_by
  exact length_lt_of_mem_generic (by rw [_h]; simp)

/-- Digits of any form, those that have no place in a numeral among them. -/
def Digits (s : List Char) : Prop := s ≠ [] ∧ s.all Text.isDigit = true

/-- How many decimal digits a text starts with. -/
def decimals (s : List Char) : Nat := ((s.map Text.decimalValue?).takeWhile Option.isSome).length

/-- What makes digits no numeral: there are too many of them, or one has no place in a numeral. -/
inductive Unnumbered (s : List Char) : Fault → Prop
  | long : Decimal.maxDigits < decimals s → Unnumbered s (.longNumeral (decimals s))
  | foreign : decimals s ≤ Decimal.maxDigits → decimals s < s.length →
      Unnumbered s (.notInteger 10 (String.ofList s))

instance (s : List Char) : Decidable (Digits s) :=
  inferInstanceAs (Decidable (s ≠ [] ∧ s.all Text.isDigit = true))

/-- The number that a text stands for; what is not written in digits stands for none. -/
def numbered (s : List Char) : Nat :=
  if Digits s then Decimal.nat 10 (s.filterMap Text.decimalValue?) else 0

/-- The text that declares how many places a name has: the first argument of its type. -/
def lengthText? (s : List Char) : Option (List Char) :=
  if (generic s).1 = symbolType then (generic s).2.head? else none

/-- The printed list of nodes. -/
def nodesText (s : List Char) : List Char :=
  if (generic s).1 = symbolType then Text.strip ((generic s).2[1]?.getD []) else Text.strip s

/-- How many places a name declares. -/
def places (s : List Char) : Nat := ((lengthText? s).map numbered).getD 0

/-- What keeps slots from being padded to the places that are declared: there are more of these than
can be counted, or more than a list has. -/
inductive Unpadded (declared slots : Nat) : Fault → Prop
  | count : maxIndex < declared - slots → Unpadded declared slots .lengthRange
  | memory : declared - slots ≤ maxIndex → slots < declared → maxSlots < declared →
      Unpadded declared slots .memory

/-- What stops the decoding of a text: digits of its length that make no numeral, a character by a
number that does not fit 32 bits, or too many places. -/
inductive Flaw (s : List Char) : Fault → Prop
  | length {t : List Char} {fault : Fault} : lengthText? s = some t → Digits t →
      Unnumbered t fault → Flaw s fault
  | literal {t : List Char} : t ∈ shown (nodesText s) → WideLiteral (Text.strip t) →
      Flaw s .codePointRange
  | room {fault : Fault} : Unpadded (places s) (shown (nodesText s)).length fault → Flaw s fault

example : points "Chars<'\\u\x7bd800\x7d', Nil>" = .ok [some 0xD800] := by cbv

/-- Texts that no surrogate is decoded from. -/
def Textual (encoded : String) : Prop :=
  ∀ ps, points encoded = .ok ps → ∀ n, some n ∈ ps → (Text.charOf? n).isSome = true

example : decode "Symbol<²>" = .error (.notInteger 10 "²") := by cbv

end FieldName

end TraitTrace
