import TraitTrace.Table

/-! JSON values. An object keeps its members in the order in which their names first came, integers
are unbounded, and a number written with a point or an exponent is a double, held by its bits. -/

namespace TraitTrace

inductive Json where
  | null
  | bool (b : Bool)
  | int (n : Int)
  | float (bits : UInt64)
  | str (s : String)
  | arr (items : List Json)
  | obj (members : List (String × Json))
  deriving Inhabited

namespace Json

inductive Container where
  | array
  | object
  deriving DecidableEq, Repr

def Container.word : Container → String
  | array => "array"
  | object => "object"

def Container.depthMessage (c : Container) : String :=
  s!"maximum recursion depth exceeded while decoding a JSON {c.word} from a unicode string"

abbrev Members := Table String Json

def isZeroBits (bits : UInt64) : Bool := bits <<< 1 == 0

/-- Whether a value counts as present: null, false, zero and the empty values do not. -/
def isTruthy : Json → Bool
  | .null => false
  | .bool b => b
  | .int n => n != 0
  | .float bits => !isZeroBits bits
  | .str s => s != ""
  | .arr items => !items.isEmpty
  | .obj members => !members.isEmpty

def str? : Json → Option String
  | .str s => some s
  | _ => none

def int? : Json → Option Int
  | .int n => some n
  | _ => none

def obj? : Json → Option Members
  | .obj members => some members
  | _ => none

def arr? : Json → Option (List Json)
  | .arr items => some items
  | _ => none

def ofOption : Option String → Json
  | none => .null
  | some s => .str s

mutual

/-- The members of `upper` written over those of `base`; two objects at one name merge. -/
def mergeMembers (base : List (String × Json)) : List (String × Json) → List (String × Json)
  | [] => base
  | (name, value) :: upper =>
    mergeMembers (Table.set base name (mergeValue (Table.get? base name) value)) upper

def mergeValue (old : Option Json) : Json → Json
  | .obj upper =>
    match old with
    | some (.obj base) => .obj (mergeMembers base upper)
    | _ => .obj upper
  | value => value

end

end Json

end TraitTrace
