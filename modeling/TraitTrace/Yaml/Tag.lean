import TraitTrace.Yaml.Timestamp

/-! Tags of nodes: what kind of value a node has. Plain text has the tag whose form it has: the
words for null and for truth values, numbers and dates each have a form, and all else is text. -/

namespace TraitTrace.Yaml

/-- The tag of a node. Nodes with an unknown one have no value. -/
inductive Tag where
  | null
  | bool
  | int
  | float
  | binary
  | timestamp
  | omap
  | pairs
  | set
  | str
  | seq
  | map
  | merge
  | value
  | unknown
  deriving DecidableEq, Repr

namespace Tag

def standard : String := "tag:yaml.org,2002:"

def words : List (String × Tag) :=
  [("null", null), ("bool", bool), ("int", int), ("float", float), ("binary", binary),
    ("timestamp", timestamp), ("omap", omap), ("pairs", pairs), ("set", set), ("str", str),
    ("seq", seq), ("map", map), ("merge", merge), ("value", value)]

def ofText (s : String) : Tag :=
  ((words.find? fun w => s == standard ++ w.1).map Prod.snd).getD unknown

def nullWords : List String := ["~", "null", "Null", "NULL"]

def truthWords : List String :=
  ["yes", "Yes", "YES", "no", "No", "NO", "true", "True", "TRUE", "false", "False", "FALSE",
    "on", "On", "ON", "off", "Off", "OFF"]

def infinityWords : List String := [".inf", ".Inf", ".INF"]

def nanWords : List String := [".nan", ".NaN", ".NAN"]

def isDigitOrLow (c : Char) : Bool := c.isDigit || c == '_'

def pieces : List Char → List Char → List (List Char)
  | piece, [] => [piece.reverse]
  | piece, c :: s => if c = ':' then piece.reverse :: pieces [] s else pieces (c :: piece) s

/-- Whether a piece is a place of a sexagesimal numeral after the first: a number below sixty of one
or two digits. -/
def isSixtieth : List Char → Bool
  | [a] => a.isDigit
  | [a, b] => '0' ≤ a && a ≤ '5' && b.isDigit
  | _ => false

/-- Whether a text is an integer: decimal, after `0` octal, after `0b` binary, after `0x`
hexadecimal, with colons sexagesimal. -/
def isIntText (s : List Char) : Bool :=
  match (Decimal.takeSign s).2 with
  | '0' :: 'b' :: ds => !ds.isEmpty && ds.all fun c => c == '0' || c == '1' || c == '_'
  | '0' :: 'x' :: ds => !ds.isEmpty && ds.all fun c => (asciiHex? c).isSome || c == '_'
  | '0' :: ds => ds.all fun c => ('0' ≤ c && c ≤ '7') || c == '_'
  | c :: ds =>
    c.isDigit &&
      match pieces [] ds with
      | first :: others => first.all isDigitOrLow && others.all isSixtieth
      | [] => false
  | [] => false

def isExponent : List Char → Bool
  | [] => true
  | e :: sign :: d :: ds =>
    (e == 'e' || e == 'E') && (sign == '+' || sign == '-') && (d :: ds).all Char.isDigit
  | _ => false

def isFloatText (s : List Char) : Bool :=
  let t := (Decimal.takeSign s).2
  let isBare := s.length = t.length
  let part := (t.dropWhile (· != '.')).drop 1
  let after := part.dropWhile isDigitOrLow
  match t.takeWhile (· != '.') with
  | [] =>
    infinityWords.contains (String.ofList t) ||
      (isBare && (nanWords.contains (String.ofList t) ||
        (part.head?.any Char.isDigit && isExponent after)))
  | c :: whole =>
    t.contains '.' && c.isDigit &&
      match pieces [] whole with
      | [first] => first.all isDigitOrLow && isExponent after
      | first :: others => first.all isDigitOrLow && others.all isSixtieth && after.isEmpty
      | [] => false

/-- The tag whose form a text has. A break at its end does not count. -/
def ofPlain (text : String) : Tag :=
  let s := withoutBreak text.toList
  let word := String.ofList s
  if text.isEmpty then .null
  else if truthWords.contains word then .bool
  else if isFloatText s then .float
  else if isIntText s then .int
  else if word = "<<" then .merge
  else if nullWords.contains word then .null
  else if isTimestamp s then .timestamp
  else if word = "=" then .value
  else if word = "!" ∨ word = "&" ∨ word = "*" then .unknown
  else .str

example : ["8", "010", "0x1F", "0b11", "1_0", "1:30", "-4", "+0", "0_"].map ofPlain =
    List.replicate 9 int := by decide +kernel

example : ["1.5", "1.", ".5", "1.e+3", "1:30.2", "-.inf", ".NAN", "08.", "0:08."].map ofPlain =
    List.replicate 9 float := by decide +kernel

example : ["08", "0x", "1e3", "1.5e3", "_1", "1:60", "+.nan", "-.5", "._", "a", "1 "].map ofPlain =
    List.replicate 11 str := by decide +kernel

end Tag

end TraitTrace.Yaml
