import TraitTrace.Json.Printer
import TraitTrace.Text.Alphanumeric
import TraitTrace.TypeExpr.Generic
import TraitTrace.TypeExpr.LiteralValue

/-! Field names. A context's fields are keyed by type-level texts such as
`Symbol<2, Chars<'i', Chars<'d', Nil>>>`. The compiler may print `_` for a character or cut the list
short with `...`; such positions are hidden slots. What is decoded are code points. A name holds them
as texts, and as there is no text of a surrogate, its slot is hidden as well. -/

namespace TraitTrace

/-- A field name: the text at each position, or nothing where the compiler hid it. -/
structure FieldName where
  slots : List (Option String)
  deriving DecidableEq, Repr

namespace FieldName

open TypeExpr

def hiddenGlyph : Char := '\uFFFD'

def symbolType : List Char := "Symbol".toList

def nodeTypes : List (List Char) := ["Chars".toList, "Char".toList, "ι".toList]

def endType : List Char := "Nil".toList

def visibleCount (name : FieldName) : Nat := name.slots.countP Option.isSome

def hiddenCount (name : FieldName) : Nat := name.slots.countP Option.isNone

/-- Whether something is hidden; of a name without positions, all is. -/
def hasHidden (name : FieldName) : Bool := 0 < name.hiddenCount || name.slots.isEmpty

def text (name : FieldName) : String :=
  if name.slots.isEmpty then hiddenGlyph.toString
  else String.join (name.slots.map (·.getD hiddenGlyph.toString))

/-- Whether a text can be shown bare: letters, numeric characters, `-`, `_` and the glyph. -/
def isIdentifierSafe (text : String) : Bool :=
  !text.isEmpty && text.toList.all fun c =>
    Text.isAlphanumeric c || c == '-' || c == '_' || c == hiddenGlyph

/-- The name between backticks, as a text literal unless it can be shown bare. -/
def quoted (name : FieldName) : String :=
  if isIdentifierSafe name.text then s!"`{name.text}`" else s!"`{Json.quote name.text}`"

/-- What a node's first argument shows: the code point of a literal, otherwise nothing. -/
def point (s : List Char) : Except Fault (Option Nat) :=
  let s := Text.strip s
  if literalLength? s = some s.length then literalPoint s else .ok none

def nodePoints (s : List Char) : Except Fault (List (Option Nat)) :=
  match _h : generic s with
  | (head, first :: more) =>
    if head ∈ nodeTypes then
      match point first with
      | .error fault => .error fault
      | .ok first =>
        match _hm : more with
        | [] => .ok [first]
        | rest :: _ =>
          if rest = [] ∨ rest = endType ∨ ['.', '.', '.'].isPrefixOf rest then .ok [first]
          else (nodePoints rest).map (first :: ·)
    else .ok []
  | (_, []) => .ok []
termination_by s.length
decreasing_by
  exact length_lt_of_mem_generic (by rw [_h]; simp)

/-- The text of a slot. -/
def slotText (p : Option Nat) : Option String := (p.bind Text.charOf?).map Char.toString

def slot (s : List Char) : Except Fault (Option String) := (point s).map slotText

def nodeSlots (s : List Char) : Except Fault (List (Option String)) :=
  (nodePoints s).map (List.map slotText)

def parseCharList (text : String) : Except Fault (List (Option String)) :=
  nodeSlots (Text.strip text.toList)

def declared (s : List Char) : Except Fault (Option Nat) :=
  if s ≠ [] ∧ s.all Text.isDigit then
    let ds := s.map Text.decimalValue?
    let run := (ds.takeWhile Option.isSome).length
    if Decimal.maxDigits < run then .error (.longNumeral run)
    else if run = s.length then .ok (some (Decimal.nat 10 (ds.filterMap id)))
    else .error (.notInteger 10 (String.ofList s))
  else .ok none

/-- The most that a number of places can be. -/
def maxIndex : Nat := 0x7FFFFFFFFFFFFFFF

/-- The most places that a list has. A list of more has no room in any memory; what a machine refuses
below that is left out. -/
def maxSlots : Nat := 0xFFFFFFFFFFFFFFF

def padded (length : Option Nat) (points : List (Option Nat)) :
    Except Fault (List (Option Nat)) :=
  let declared := length.getD 0
  let missing := declared - points.length
  if maxIndex < missing then .error .lengthRange
  else if 0 < missing ∧ maxSlots < declared then .error .memory
  else .ok (points ++ List.replicate missing none)

/-- Decodes a printed type-level text, or a bare node list. Positions beyond the printed ones up to
the declared length are hidden. -/
def points (encoded : String) : Except Fault (List (Option Nat)) := do
  let s := encoded.toList
  let (head, args) := generic s
  if head = symbolType then
    let length ← match args with
      | [] => pure none
      | n :: _ => declared n
    padded length (← nodePoints (Text.strip (args[1]?.getD [])))
  else nodePoints (Text.strip s)

def decode (encoded : String) : Except Fault FieldName :=
  (points encoded).map fun ps => ⟨ps.map slotText⟩

/-- The tag of a field access trait as printed: its first argument. -/
def tag? (traitText : String) : Option String := (parseGeneric traitText).args.head?

end FieldName

end TraitTrace
