import TraitTrace.Highlight.Style
import TraitTrace.Report.Tree
import TraitTrace.Text.Alphanumeric
import TraitTrace.Text.Blank

/-! Highlights: the stretches of a report that are printed in a style. There are eight kinds, found
one after the other; stretches of one kind do not overlap. -/

namespace TraitTrace

/-- A stretch of a text, by the positions of its first character and of the one after its last. -/
structure Highlight where
  start : Nat
  stop : Nat
  style : Style
  deriving DecidableEq, Repr

namespace Highlight

/-- Looks for a stretch at a place, given the character before it and the text from it on. The
length, if there is one. -/
abbrev Finder := Option Char → List Char → Option Nat

def startsLine : Option Char → Bool
  | none => true
  | some c => c == '\n'

def endsLine : List Char → Bool
  | [] => true
  | c :: _ => c == '\n'

def bracketed? (s : List Char) : Option Nat :=
  match s with
  | '[' :: rest =>
    let word := rest.takeWhile Text.isWord
    if word.isEmpty || (rest.drop word.length).head? != some ']' then none
    else some (word.length + 2)
  | _ => none

def level (word : String) : Finder := fun before s =>
  if startsLine before && word.toList.isPrefixOf s then
    let rest := s.drop word.length
    let code := (bracketed? rest).getD 0
    if (rest.drop code).head? = some ':' then some (word.length + code + 1) else none
  else none

def indented (phrase : String) : Finder := fun before s =>
  if startsLine before then
    let blanks := (s.takeWhile Text.isBlank).length
    if phrase.toList.isPrefixOf (s.drop blanks) then some (blanks + phrase.length) else none
  else none

/-- A mark of a tree line: the Unicode one anywhere, or the ASCII one after a blank at a line's
end. -/
def mark (unicode ascii : Char) : Finder := fun before s =>
  match s with
  | [] => none
  | c :: rest =>
    if c = unicode ∨ (c = ascii ∧ before = some ' ' ∧ endsLine rest) then some 1 else none

def phrase (words : String) : Finder := fun _ s =>
  if words.toList.isPrefixOf s then some words.length else none

def ticked : Finder := fun _ s =>
  match s with
  | '\x60' :: rest =>
    let inner := rest.takeWhile fun c => c != '\x60' && c != '\n'
    if inner.isEmpty || (rest.drop inner.length).head? != some '\x60' then none
    else some (inner.length + 2)
  | _ => none

def kinds : List (Finder × Style) :=
  [(level "error", ⟨true, false, some .red⟩),
    (level "warning", ⟨true, false, some .yellow⟩),
    (indented "= help:", ⟨true, false, some .cyan⟩),
    (indented "note:", ⟨true, false, none⟩),
    (mark '✗' 'x', ⟨true, false, some .red⟩),
    (mark '✓' 'v', ⟨false, false, some .green⟩),
    (phrase "(*)", ⟨false, true, none⟩),
    (ticked, ⟨false, false, some .cyan⟩)]

/-- The stretches of one kind, from a place on. `skip` characters belong to the last one found. -/
def findFrom (find : Finder) (style : Style) :
    Nat → Nat → Option Char → List Char → List Highlight
  | _, _, _, [] => []
  | skip + 1, index, _, c :: rest => findFrom find style skip (index + 1) (some c) rest
  | 0, index, before, c :: rest =>
    match find before (c :: rest) with
    | some (n + 1) =>
      ⟨index, index + n + 1, style⟩ :: findFrom find style n (index + 1) (some c) rest
    | _ => findFrom find style 0 (index + 1) (some c) rest

def ofText (s : List Char) : List Highlight :=
  kinds.flatMap fun (find, style) => findFrom find style 0 0 none s

/-- Whether a character is printed at all: the bell and the controls that move the cursor are
not. -/
def isPrinted (c : Char) : Bool :=
  let n := c.toNat
  !(n == 7 || n == 8 || n == 11 || n == 12 || n == 13)

def printed (s : String) : List Char := s.toList.filter isPrinted

end Highlight

end TraitTrace
