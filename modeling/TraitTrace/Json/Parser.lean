import TraitTrace.Decimal.Binary
import TraitTrace.Decimal.Double
import TraitTrace.Decimal.Numeral
import TraitTrace.Json.Value
import TraitTrace.Text.Utf8

/-! Reading JSON. What is wrong with a text is a flaw at a place, and the place is the number of
characters before it. Besides standard JSON the words `NaN`, `Infinity` and `-Infinity` are numbers.
Of two members with one name the later value stands at the place of the earlier. Arrays and objects
may be nested only so deep. -/

namespace TraitTrace.Json

inductive Flaw where
  | expectingValue
  | expectingName
  | expectingColon
  | expectingComma
  | extraData
  | unterminatedText
  | invalidEscape
  | invalidUnit
  | controlCharacter
  deriving DecidableEq

def Flaw.message : Flaw → String
  | expectingValue => "Expecting value"
  | expectingName => "Expecting property name enclosed in double quotes"
  | expectingColon => "Expecting ':' delimiter"
  | expectingComma => "Expecting ',' delimiter"
  | extraData => "Extra data"
  | unterminatedText => "Unterminated string starting at"
  | invalidEscape => "Invalid \\escape"
  | invalidUnit => "Invalid \\uXXXX escape"
  | controlCharacter => "Invalid control character at"

/-- Why a text is not read: a flaw with the number of characters that are left at it, an integer
with too many digits, or an array or object nested too deep. -/
inductive Refusal where
  | flaw (what : Flaw) (left : Nat)
  | longNumeral (digits : Nat)
  | tooDeep (what : Container)
  deriving DecidableEq

def isJsonBlank (c : Char) : Bool := c == ' ' || c == '\t' || c == '\n' || c == '\r'

def skipBlanks (s : List Char) : List Char := s.dropWhile isJsonBlank

def unit? (s : List Char) : Option Nat :=
  if s.length = 4 ∧ s.all (fun c => c.toNat < 0x80) then
    (s.mapM Decimal.hexValue?).map (Decimal.nat 16)
  else none

/-- The code point an escape stands for and how many characters it takes after its backslash. The
escape of half a surrogate pair stands for that half. `opened` is what is left at the opening
quote. -/
def escape (opened : Nat) : List Char → Except Refusal (Nat × Nat)
  | [] => .error (.flaw .unterminatedText opened)
  | 'u' :: s =>
    if s.length ≤ 4 then .error (.flaw .invalidUnit (s.length + 1))
    else
      match unit? (s.take 4) with
      | none => .error (.flaw .invalidUnit (s.length + 1))
      | some n =>
        if 0xD800 ≤ n ∧ n < 0xDC00 ∧ 10 < s.length ∧ (s.drop 4).take 2 = ['\\', 'u'] then
          match unit? ((s.drop 6).take 4) with
          | none => .error (.flaw .invalidUnit (s.length - 5))
          | some m =>
            if 0xDC00 ≤ m ∧ m < 0xE000 then
              .ok (0x10000 + (n - 0xD800) * 0x400 + (m - 0xDC00), 11)
            else .ok (n, 5)
        else .ok (n, 5)
  | c :: s =>
    if c = '"' ∨ c = '\\' ∨ c = '/' then .ok (c.toNat, 1)
    else if c = 'b' then .ok (0x08, 1)
    else if c = 'f' then .ok (0x0C, 1)
    else if c = 'n' then .ok (0x0A, 1)
    else if c = 'r' then .ok (0x0D, 1)
    else if c = 't' then .ok (0x09, 1)
    else .error (.flaw .invalidEscape (s.length + 2))

/-- Reads the code points of a text literal after its opening quote, of which `read` holds those so
far in reverse and `skip` characters belong to an escape already read. -/
def pointsFrom (opened : Nat) :
    List Nat → Nat → List Char → Except Refusal (List Nat × List Char)
  | _, _, [] => .error (.flaw .unterminatedText opened)
  | read, skip + 1, _ :: s => pointsFrom opened read skip s
  | read, 0, c :: s =>
    if c = '"' then .ok (read.reverse, s)
    else if c = '\\' then
      match escape opened s with
      | .ok (p, n) => pointsFrom opened (p :: read) n s
      | .error r => .error r
    else if c.toNat < 0x20 then .error (.flaw .controlCharacter (s.length + 1))
    else pointsFrom opened (c.toNat :: read) 0 s

/-- Reads a text literal after its opening quote. Half a surrogate pair is replaced. -/
def text (s : List Char) : Except Refusal (String × List Char) :=
  (pointsFrom (s.length + 1) [] 0 s).map fun (ps, rest) =>
    (String.ofList (ps.map Text.charOf), rest)

def digits (s : List Char) : List Char × List Char :=
  (s.takeWhile Char.isDigit, s.dropWhile Char.isDigit)

/-- Digits of a whole part: a lone zero, or digits that do not start with one. -/
def whole? : List Char → Option (List Char × List Char)
  | '0' :: s => some (['0'], s)
  | s =>
    match digits s with
    | ([], _) => none
    | p => some p

def fraction : List Char → List Char × List Char
  | '.' :: s =>
    match digits s with
    | ([], _) => ([], '.' :: s)
    | p => p
  | s => ([], s)

def exponent? : List Char → Option (Int × List Char)
  | e :: s =>
    if e = 'e' ∨ e = 'E' then
      let (negative, s) := Decimal.takeSign s
      match digits s with
      | ([], _) => none
      | (ds, rest) =>
        let n : Int := Decimal.nat 10 (ds.filterMap Decimal.asciiDigit?)
        some (if negative then -n else n, rest)
    else none
  | [] => none

/-- Reads a number whose sign has been read. `start` is what is left at its sign or first digit. -/
def number (start : Nat) (negative : Bool) (s : List Char) : Except Refusal (Json × List Char) :=
  match whole? s with
  | none => .error (.flaw .expectingValue start)
  | some (ds, s) =>
    let (fs, s) := fraction s
    match fs, exponent? s with
    | [], none =>
      if Decimal.maxDigits < ds.length then .error (.longNumeral ds.length)
      else
        let n : Int := Decimal.nat 10 (ds.filterMap Decimal.asciiDigit?)
        .ok (.int (if negative then -n else n), s)
    | fs, e =>
      let (e, s) := e.getD (0, s)
      let m := Decimal.nat 10 ((ds ++ fs).filterMap Decimal.asciiDigit?)
      .ok (.float (Decimal.nearestBits negative m (e - fs.length)), s)

mutual

def value : Nat → Nat → List Char → Except Refusal (Json × List Char)
  | 0, _, s => .error (.flaw .expectingValue s.length)
  | fuel + 1, room, s =>
    match s with
    | '"' :: s => (text s).map fun (t, rest) => (.str t, rest)
    | '{' :: s =>
      match room, skipBlanks s with
      | 0, _ => .error (.tooDeep .object)
      | _ + 1, '}' :: rest => .ok (.obj [], rest)
      | room + 1, s => members fuel room [] s
    | '[' :: s =>
      match room, skipBlanks s with
      | 0, _ => .error (.tooDeep .array)
      | _ + 1, ']' :: rest => .ok (.arr [], rest)
      | room + 1, s => items fuel room [] s
    | 'n' :: 'u' :: 'l' :: 'l' :: rest => .ok (.null, rest)
    | 't' :: 'r' :: 'u' :: 'e' :: rest => .ok (.bool true, rest)
    | 'f' :: 'a' :: 'l' :: 's' :: 'e' :: rest => .ok (.bool false, rest)
    | 'N' :: 'a' :: 'N' :: rest => .ok (.float Decimal.nanBits, rest)
    | 'I' :: 'n' :: 'f' :: 'i' :: 'n' :: 'i' :: 't' :: 'y' :: rest =>
      .ok (.float (Decimal.infinityBits false), rest)
    | '-' :: 'I' :: 'n' :: 'f' :: 'i' :: 'n' :: 'i' :: 't' :: 'y' :: rest =>
      .ok (.float (Decimal.infinityBits true), rest)
    | '-' :: s => number (s.length + 1) true s
    | s => number s.length false s

def members : Nat → Nat → Members → List Char → Except Refusal (Json × List Char)
  | 0, _, _, s => .error (.flaw .expectingValue s.length)
  | fuel + 1, room, read, s =>
    match s with
    | '"' :: s => do
      let (name, s) ← text s
      match skipBlanks s with
      | ':' :: s =>
        let (v, s) ← value fuel room (skipBlanks s)
        match skipBlanks s with
        | '}' :: rest => .ok (.obj (read.set name v), rest)
        | ',' :: rest => members fuel room (read.set name v) (skipBlanks rest)
        | s => .error (.flaw .expectingComma s.length)
      | s => .error (.flaw .expectingColon s.length)
    | s => .error (.flaw .expectingName s.length)

def items : Nat → Nat → List Json → List Char → Except Refusal (Json × List Char)
  | 0, _, _, s => .error (.flaw .expectingValue s.length)
  | fuel + 1, room, read, s => do
    let (v, s) ← value fuel room s
    match skipBlanks s with
    | ']' :: rest => .ok (.arr (v :: read).reverse, rest)
    | ',' :: rest => items fuel room (v :: read) (skipBlanks rest)
    | s => .error (.flaw .expectingComma s.length)

end

def read (room : Nat) (s : List Char) : Except Refusal Json := do
  let (v, rest) ← value (2 * s.length + 2) room (skipBlanks s)
  match skipBlanks rest with
  | [] => .ok v
  | rest => .error (.flaw .extraData rest.length)

/-- Why a text is no JSON value: a flaw and the number of characters before it, an integer with too
many digits, or an array or object nested too deep. -/
inductive ParseError where
  | flaw (what : Flaw) (position : Nat) (line : Nat) (column : Nat)
  | longNumeral (digits : Nat)
  | tooDeep (what : Container)
  deriving DecidableEq

def lineColumn (s : List Char) (position : Nat) : Nat × Nat :=
  let before := s.take position
  (before.count '\n' + 1, (before.reverse.takeWhile (· != '\n')).length + 1)

def parseWithin (room : Nat) (s : String) : Except ParseError Json :=
  let cs := s.toList
  match read room cs with
  | .ok v => .ok v
  | .error (.longNumeral n) => .error (.longNumeral n)
  | .error (.tooDeep what) => .error (.tooDeep what)
  | .error (.flaw what left) =>
    let position := cs.length - left
    let (line, column) := lineColumn cs position
    .error (.flaw what position line column)

/-- The room that the stack leaves for nesting where a stream is read. -/
def maxNesting : Nat := 985

def parse (s : String) : Except ParseError Json := parseWithin maxNesting s

def flawText (what : Flaw) (position line column : Nat) : String :=
  s!"{what.message}: line {line} column {column} (char {position})"

end TraitTrace.Json
