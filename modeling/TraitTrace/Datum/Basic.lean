import TraitTrace.Calendar.Basic
import TraitTrace.Decimal.Binary
import TraitTrace.Json.Value

/-! Data as settings files write them: more than JSON, since keys need not be text and there are
dates, bytes and sets. Keys that stand for the same number are the same key. A map keeps its entries
in the order in which their keys first came, each key as it was first written. -/

namespace TraitTrace

inductive Atom where
  | null
  | bool (b : Bool)
  | int (n : Int)
  | float (bits : UInt64)
  | text (s : String)
  | bytes (l : List UInt8)
  | moment (m : Calendar.Moment)
  deriving DecidableEq

inductive Key where
  | null
  | number (n : Int)
  | float (bits : UInt64)
  | text (s : String)
  | bytes (l : List UInt8)
  | moment (m : Calendar.Moment)
  | instant (microseconds : Int)
  deriving DecidableEq

/-- The key that an atom is. A truth value is the number zero or one, a double without a fraction is
an integer, and of moments with an offset the instant counts. -/
def Atom.key : Atom → Key
  | null => .null
  | bool b => .number (if b then 1 else 0)
  | int n => .number n
  | float bits => ((Decimal.integral? bits).map Key.number).getD (.float bits)
  | text s => .text s
  | bytes l => .bytes l
  | moment m => (m.instant?.map Key.instant).getD (.moment m)

/-- A value. One that contains itself is cut where it would start again, and has a number by which
to tell that it does. -/
inductive Datum where
  | atom (a : Atom)
  | list (label : Option Nat) (items : List Datum)
  | tuple (items : List Datum)
  | set (members : List Atom)
  | map (label : Option Nat) (entries : List (Key × Atom × Datum))
  | again (isMap : Bool)
  deriving Inhabited

namespace Datum

/-- Entries of a map: each key, as it was first written, and its value. -/
abbrev Entries := Table Key (Atom × Datum)

def null : Datum := .atom .null

def text (s : String) : Datum := .atom (.text s)

def text? : Datum → Option String
  | .atom (.text s) => some s
  | _ => none

def entries? : Datum → Option Entries
  | .map _ entries => some entries
  | _ => none

/-- Whether an atom counts as present: null, false, zero and what is empty do not. -/
def isTruthyAtom : Atom → Bool
  | .null => false
  | .bool b => b
  | .int n => n != 0
  | .float bits => !Json.isZeroBits bits
  | .text s => s != ""
  | .bytes l => !l.isEmpty
  | .moment _ => true

def isTruthy : Datum → Bool
  | .atom a => isTruthyAtom a
  | .list _ items => !items.isEmpty
  | .tuple items => !items.isEmpty
  | .set members => !members.isEmpty
  | .map _ entries => !entries.isEmpty
  | .again _ => true

namespace Entries

def value? (t : Entries) (key : Key) : Option Datum := (Table.get? t key).map Prod.snd

/-- Writes a value at a key. A key that is there already stays as it is written. -/
def put (t : Entries) (a : Atom) (value : Datum) : Entries :=
  Table.set t a.key (((Table.get? t a.key).map Prod.fst).getD a, value)

def hasTextKeys (t : Entries) : Bool :=
  t.all fun (k, _) =>
    match k with
    | .text _ => true
    | _ => false

@[simp] theorem value?_put_self (t : Entries) (a : Atom) (value : Datum) :
    (t.put a value).value? a.key = some value := by
  simp [put, value?]

theorem value?_put_of_ne (t : Entries) {a : Atom} {key : Key} (value : Datum) (h : a.key ≠ key) :
    (t.put a value).value? key = t.value? key := by
  simp [put, value?, Table.get?_set_of_ne _ _ h]

end Entries

mutual

/-- The entries of `upper` written over those of `base`; two maps at one key merge. Maps that
contain themselves are beyond it: where one was cut, it is taken for a value that is no map. -/
def mergeEntries (base : List (Key × Atom × Datum)) :
    List (Key × Atom × Datum) → List (Key × Atom × Datum)
  | [] => base
  | (k, a, value) :: upper =>
    mergeEntries (Entries.put base a (mergeValue (Entries.value? base k) value)) upper

def mergeValue (old : Option Datum) : Datum → Datum
  | .map label upper =>
    match old with
    | some (.map _ base) => .map none (mergeEntries base upper)
    | _ => .map label upper
  | value => value

end

mutual

def ofJson : Json → Datum
  | .null => .atom .null
  | .bool b => .atom (.bool b)
  | .int n => .atom (.int n)
  | .float bits => .atom (.float bits)
  | .str s => .atom (.text s)
  | .arr items => .list none (ofItems items)
  | .obj members => .map none (ofMembers members)

def ofItems : List Json → List Datum
  | [] => []
  | v :: vs => ofJson v :: ofItems vs

def ofMembers : List (String × Json) → List (Key × Atom × Datum)
  | [] => []
  | (name, v) :: ms => (.text name, .text name, ofJson v) :: ofMembers ms

end

end Datum

end TraitTrace
