import TraitTrace.Calendar.Printer
import TraitTrace.Datum.Basic
import TraitTrace.Decimal.Shortest
import TraitTrace.Text.Quoted

/-! Data as they are shown in prose and in log lines. A text stands bare on its own and quoted
inside another value; null and truth values are capitalised words. A value that contains itself
shows as dots where it would start again. -/

namespace TraitTrace

def quotedByte (mark : Char) (b : UInt8) : List Char :=
  let c := Char.ofNat b.toNat
  if c.toNat < 0x7F then Text.quotedChar mark c else '\\' :: 'x' :: Text.hexPadded 2 c.toNat

def quotedBytes (l : List UInt8) : String :=
  let mark := if l.contains 39 && !l.contains 34 then '"' else '\''
  String.ofList ('b' :: mark :: (l.flatMap (quotedByte mark) ++ [mark]))

namespace Atom

def shownFloats : Decimal.Names := ⟨"inf", "nan"⟩

def inspect : Atom → String
  | null => "None"
  | bool true => "True"
  | bool false => "False"
  | int n => toString n
  | float bits => Decimal.text shownFloats bits
  | text s => Text.quoted s
  | bytes l => quotedBytes l
  | moment m => m.inspect

def shown : Atom → String
  | text s => s
  | moment m => m.text
  | a => a.inspect

end Atom

namespace Datum

def bracketed (opener : String) (parts : List String) (closer : String) : String :=
  opener ++ ", ".intercalate parts ++ closer

def tupleText : List String → String
  | [part] => "(" ++ part ++ ",)"
  | parts => bracketed "(" parts ")"

def setText (parts : List String) : String :=
  if parts.isEmpty then "set()" else bracketed "\x7b" parts "\x7d"

def cutText (isMap : Bool) : String := if isMap then "\x7b...\x7d" else "[...]"

mutual

def inspectIn (around : List Nat) : Datum → String
  | .atom a => a.inspect
  | .list label items =>
    if label.any around.contains then cutText false
    else bracketed "[" (inspectItems (label.toList ++ around) items) "]"
  | .tuple items => tupleText (inspectItems around items)
  | .set members => setText (members.map Atom.inspect)
  | .map label entries =>
    if label.any around.contains then cutText true
    else bracketed "\x7b" (inspectEntries (label.toList ++ around) entries) "\x7d"
  | .again isMap => cutText isMap

def inspectItems (around : List Nat) : List Datum → List String
  | [] => []
  | v :: vs => inspectIn around v :: inspectItems around vs

def inspectEntries (around : List Nat) : List (Key × Atom × Datum) → List String
  | [] => []
  | (_, a, v) :: es => (a.inspect ++ ": " ++ inspectIn around v) :: inspectEntries around es

end

def inspect (v : Datum) : String := inspectIn [] v

def shown : Datum → String
  | .atom a => a.shown
  | v => v.inspect

end Datum

end TraitTrace
