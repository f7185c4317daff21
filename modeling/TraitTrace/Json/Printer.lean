import TraitTrace.Decimal.Shortest
import TraitTrace.Json.Value

/-! Written JSON. A layout fixes the two separators and whether characters outside printable ASCII
are escaped. Members keep their order, numbers are written with their shortest digits, and the three
doubles without digits are written as words. -/

namespace TraitTrace.Json

structure Layout where
  item : String
  name : String
  ascii : Bool

def Layout.spaced : Layout := ⟨", ", ": ", true⟩

def Layout.compact : Layout := ⟨",", ":", true⟩

def hex4 (n : Nat) : List Char :=
  [n / 4096 % 16, n / 256 % 16, n / 16 % 16, n % 16].map Nat.digitChar

def unitEscape (n : Nat) : List Char := '\\' :: 'u' :: hex4 n

def escapeUnits (c : Char) : List Char :=
  let n := c.toNat
  if n < 0x10000 then unitEscape n
  else unitEscape (0xD800 + (n - 0x10000) / 0x400) ++ unitEscape (0xDC00 + (n - 0x10000) % 0x400)

def escapeChar (ascii : Bool) (c : Char) : List Char :=
  if c = '"' then ['\\', '"']
  else if c = '\\' then ['\\', '\\']
  else if c = '\n' then ['\\', 'n']
  else if c = '\r' then ['\\', 'r']
  else if c = '\t' then ['\\', 't']
  else if c = '\x0c' then ['\\', 'f']
  else if c = '\x08' then ['\\', 'b']
  else if c.toNat < 0x20 then escapeUnits c
  else if ascii && 0x7E < c.toNat then escapeUnits c
  else [c]

def quoteChars (ascii : Bool) (s : String) : List Char :=
  '"' :: (s.toList.flatMap (escapeChar ascii) ++ ['"'])

def quote (s : String) : String := String.ofList (quoteChars false s)

def floatNames : Decimal.Names := ⟨"Infinity", "NaN"⟩

mutual

def chars (l : Layout) : Json → List Char
  | .null => "null".toList
  | .bool true => "true".toList
  | .bool false => "false".toList
  | .int n => (toString n).toList
  | .float bits => (Decimal.text floatNames bits).toList
  | .str s => quoteChars l.ascii s
  | .arr items => '[' :: (itemChars l items ++ [']'])
  | .obj members => '{' :: (memberChars l members ++ ['}'])

def itemChars (l : Layout) : List Json → List Char
  | [] => []
  | [v] => chars l v
  | v :: vs => chars l v ++ l.item.toList ++ itemChars l vs

def memberChars (l : Layout) : List (String × Json) → List Char
  | [] => []
  | [(k, v)] => quoteChars l.ascii k ++ l.name.toList ++ chars l v
  | (k, v) :: ms =>
    quoteChars l.ascii k ++ l.name.toList ++ chars l v ++ l.item.toList ++ memberChars l ms

end

def render (l : Layout) (v : Json) : String := String.ofList (v.chars l)

end TraitTrace.Json
