import TraitTrace.Datum.Basic
import TraitTrace.Decimal.Lenient
import TraitTrace.Text.Base64
import TraitTrace.Yaml.Name
import TraitTrace.Yaml.Tag

/-! Values of scalars by their tags. A tag that is written down may stand before any text, so that
more is read than the forms of plain text, and what cannot be read is a fault. -/

namespace TraitTrace.Yaml

def integerIn (base : Nat) (s : List Char) : Except Flaw Int :=
  if base = 10 ∧ Decimal.maxDigits < Decimal.leadingDigits s then
    .error (.fault (.longNumeral (Decimal.leadingDigits s)))
  else
    match Decimal.lenientInt? base s with
    | some n => .ok n
    | none => .error (.fault (.notInteger base (String.ofList s)))

def unsignedInteger (s : List Char) : Except Flaw Int :=
  match s with
  | [] => .error (.fault .emptyText)
  | ['0'] => .ok 0
  | '0' :: 'b' :: ds => integerIn 2 ds
  | '0' :: 'x' :: ds => integerIn 16 ds
  | '0' :: _ => integerIn 8 s
  | _ =>
    if s.contains ':' then
      ((Tag.pieces [] s).mapM (integerIn 10)).map fun ns => ns.foldl (fun n d => n * 60 + d) 0
    else integerIn 10 s

def integerValue (text : String) : Except Flaw Int :=
  let (negative, s) := Decimal.takeSign (text.toList.filter (· != '_'))
  (unsignedInteger s).map fun n => if negative then -n else n

def doubleOf (s : List Char) : Except Flaw UInt64 :=
  match Decimal.lenientFloat? s with
  | some bits => .ok bits
  | none => .error (.fault (.notNumber (String.ofList s)))

def sexagesimalFrom (power : Nat) (sum : Float) : List UInt64 → Except Flaw UInt64
  | [] => .ok sum.toBits
  | place :: places =>
    let weight := Decimal.nearestBits false power 0
    if Decimal.isFinite weight then
      sexagesimalFrom (60 * power) (sum + Float.ofBits place * Float.ofBits weight) places
    else .error (.fault .powerRange)

def unsignedDouble (s : List Char) : Except Flaw UInt64 :=
  if s = ".inf".toList then .ok (Decimal.infinityBits false)
  else if s = ".nan".toList then .ok Decimal.nanBits
  else if s.contains ':' then do
    let places ← (Tag.pieces [] s).mapM doubleOf
    sexagesimalFrom 1 0 places.reverse
  else doubleOf s

def doubleValue (text : String) : Except Flaw UInt64 :=
  let s := (text.toList.filter (· != '_')).map Char.toLower
  if s = [] then .error (.fault .emptyText)
  else
    let (negative, s) := Decimal.takeSign s
    (unsignedDouble s).map fun bits => if negative then Decimal.negated bits else bits

def truthValue (text : String) : Except Flaw Bool :=
  let word := String.ofList (text.toList.map Char.toLower)
  if ["yes", "true", "on"].contains word then .ok true
  else if ["no", "false", "off"].contains word then .ok false
  else .error (.fault (.notTruthWord word))

def momentValue (text : String) : Except Flaw Calendar.Moment :=
  match writtenDate? (withoutBreak text.toList) with
  | none => .error (.fault .notMoment)
  | some d =>
    match d.moment with
    | .ok m => .ok m
    | .error f => .error (.fault (.calendar f))

def bytesValue (text : String) : Except Flaw (List UInt8) :=
  let s := text.toList
  if s.all fun c => c.toNat < 128 then orMalformed (Text.base64? s) else .error .malformed

def scalarValue (tag : Tag) (text : String) : Except Flaw Atom :=
  match tag with
  | .null => .ok .null
  | .bool => (truthValue text).map Atom.bool
  | .int => (integerValue text).map Atom.int
  | .float => (doubleValue text).map Atom.float
  | .binary => (bytesValue text).map Atom.bytes
  | .timestamp => (momentValue text).map Atom.moment
  | .str => .ok (.text text)
  | _ => .error .malformed

end TraitTrace.Yaml
