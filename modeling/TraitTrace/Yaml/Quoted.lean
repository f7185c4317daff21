import TraitTrace.Decimal.Numeral
import TraitTrace.Text.Utf8
import TraitTrace.Yaml.Cursor
import TraitTrace.Yaml.Flaw

/-! Quoted text. In single quotes a quote is written twice. In double quotes there are escapes, and
an escaped break joins two lines. Other breaks fold. -/

namespace TraitTrace.Yaml

def escapes : List (Char × Char) :=
  [('0', '\x00'), ('a', '\x07'), ('b', '\x08'), ('t', '\t'), ('\t', '\t'), ('n', '\n'),
    ('v', '\x0b'), ('f', '\x0c'), ('r', '\r'), ('e', '\x1b'), (' ', ' '), ('"', '"'), ('\\', '\\'),
    ('/', '/'), ('N', '\u0085'), ('_', '\u00a0'), ('L', '\u2028'), ('P', '\u2029')]

def codeEscapes : List (Char × Nat) := [('x', 2), ('u', 4), ('U', 8)]

def asciiHex? (c : Char) : Option Nat := if c.toNat < 128 then Decimal.hexValue? c else none

def escapedCode (digits : Nat) (s : List Char) : Except Flaw Nat :=
  match (s.take digits).mapM asciiHex? with
  | none => .error .malformed
  | some ds =>
    let code := Decimal.nat 16 ds
    if ds.length < digits then .error .malformed
    else if 0x80000000 ≤ code then .error (.fault .codePointRange)
    else if 0x110000 ≤ code then .error (.fault .noSuchCharacter)
    else .ok code

/-- The characters of codes. Two halves of a pair make one character; a lone half is none. -/
def ofCodes : List Nat → List Char
  | [] => []
  | [n] => [Text.charOf n]
  | n :: m :: codes =>
    if 0xD800 ≤ n ∧ n < 0xDC00 ∧ 0xDC00 ≤ m ∧ m < 0xE000 then
      Char.ofNat (0x10000 + (n - 0xD800) * 0x400 + (m - 0xDC00)) :: ofCodes codes
    else Text.charOf n :: ofCodes (m :: codes)

def pushCodes (chars : List Char) (codes : List Nat) : List Nat :=
  (chars.map Char.toNat).reverse ++ codes

/-- Quoted text from a place on: its codes, of which those so far are reversed, and the place after
the closing quote. -/
def quotedFrom (double : Bool) : Nat → List Nat → Cursor → Except Flaw (List Nat × Cursor)
  | 0, _, _ => .error .malformed
  | fuel + 1, codes, here =>
    let lines (before : Char → Gap → List Char) (first : Char) (next : Cursor) :=
      let gap := next.gap isSpaceOrTab
      if gap.atMark then .error .malformed
      else quotedFrom double fuel (pushCodes (before first gap) codes) gap.after
    match here.rest with
    | [] => .error .malformed
    | c :: rest =>
      if c == (if double then '"' else '\'') then
        if !double && rest.head? == some '\'' then
          quotedFrom double fuel (c.toNat :: codes) (here.along 2)
        else .ok (codes, here.next)
      else if double && c == '\\' then
        match rest with
        | [] => .error .malformed
        | e :: digits =>
          match escapes.lookup e, codeEscapes.lookup e, here.next.break? with
          | some replaced, _, _ => quotedFrom double fuel (replaced.toNat :: codes) (here.along 2)
          | none, some n, _ =>
            match escapedCode n digits with
            | .ok code => quotedFrom double fuel (code :: codes) (here.along (n + 2))
            | .error f => .error f
          | none, none, some (first, next) => lines (fun _ gap => gap.breaks) first next
          | none, none, none => .error .malformed
      else if endsToken here.rest then
        let (blanks, after) := here.run isSpaceOrTab
        match after.break? with
        | some (first, next) => lines (fun first gap => gap.folded first) first next
        | none => quotedFrom double fuel (pushCodes blanks codes) after
      else quotedFrom double fuel (c.toNat :: codes) here.next

def quoted (double : Bool) (here : Cursor) : Except Flaw (String × Cursor) :=
  (quotedFrom double (here.rest.length + 1) [] here.next).map fun (codes, after) =>
    (String.ofList (ofCodes codes.reverse), after)

end TraitTrace.Yaml
