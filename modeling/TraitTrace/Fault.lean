import TraitTrace.Calendar.Printer
import TraitTrace.Json.Value
import TraitTrace.Text.Quoted

/-! Faults: what can stop an operation that reads foreign text or is called out of its range. Each
has a kind, under which it is logged, and a message. -/

namespace TraitTrace

inductive ScalarKind where
  | int
  | bool
  | float
  deriving DecidableEq, Repr

def ScalarKind.word : ScalarKind → String
  | int => "int"
  | bool => "bool"
  | float => "float"

inductive Fault where
  | codePointRange
  | noSuchCharacter
  | notInteger (base : Nat) (text : String)
  | notNumber (text : String)
  | emptyText
  | notTruthWord (text : String)
  | notMoment
  | momentless
  | calendar (flaw : Calendar.Flaw)
  | powerRange
  | longNumeral (digits : Nat)
  | deepNesting (what : Json.Container)
  | deepDocument
  | notIterable (kind : ScalarKind)
  | indexRange
  | unnamedConsumer
  | tabRange
  | lengthRange
  | memory
  deriving DecidableEq, Repr

namespace Fault

def kind : Fault → String
  | codePointRange => "OverflowError"
  | noSuchCharacter => "ValueError"
  | notInteger _ _ => "ValueError"
  | notNumber _ => "ValueError"
  | emptyText => "IndexError"
  | notTruthWord _ => "KeyError"
  | notMoment => "AttributeError"
  | momentless => "TypeError"
  | calendar _ => "ValueError"
  | powerRange => "OverflowError"
  | longNumeral _ => "ValueError"
  | deepNesting _ => "RecursionError"
  | deepDocument => "RecursionError"
  | notIterable _ => "TypeError"
  | indexRange => "IndexError"
  | unnamedConsumer => "AssertionError"
  | tabRange => "OverflowError"
  | lengthRange => "OverflowError"
  | memory => "MemoryError"

/-- The message of a fault. The text that is no integer is cut at two hundred characters. -/
def message : Fault → String
  | codePointRange => "Python int too large to convert to C int"
  | noSuchCharacter => "chr() arg not in range(0x110000)"
  | notInteger base text =>
    s!"invalid literal for int() with base {base}: " ++
      String.ofList ((Text.quoted text).toList.take 200)
  | notNumber text => "could not convert string to float: " ++ Text.quoted text
  | emptyText => "string index out of range"
  | notTruthWord text => Text.quoted text
  | notMoment => "'NoneType' object has no attribute 'groupdict'"
  | momentless => "expected string or bytes-like object, got 'list'"
  | calendar flaw => flaw.message
  | powerRange => "int too large to convert to float"
  | longNumeral digits =>
    s!"Exceeds the limit (4300 digits) for integer string conversion: value has {digits} digits; "
      ++ "use sys.set_int_max_str_digits() to increase the limit"
  | deepNesting what => what.depthMessage
  | deepDocument => "maximum recursion depth exceeded while calling a Python object"
  | notIterable kind => s!"'{kind.word}' object is not iterable"
  | indexRange => "list index out of range"
  | unnamedConsumer => ""
  | tabRange => "Python int too large to convert to C int"
  | lengthRange => "cannot fit 'int' into an index-sized integer"
  | memory => ""

end Fault

end TraitTrace
