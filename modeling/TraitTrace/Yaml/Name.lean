import TraitTrace.Decimal.Numeral
import TraitTrace.Text.Utf8
import TraitTrace.Yaml.Quoted

/-! Names in a YAML text: those of anchors, the tags of nodes, and the directives before a document.
A tag is a handle, for which a directive may say what it stands for, and a suffix. -/

namespace TraitTrace.Yaml

def isNameChar (c : Char) : Bool := c.isAlphanum || c == '-' || c == '_'

def anchorEnds : List Char := "?:,]\x7d%@\x60".toList

def anchorName? (here : Cursor) : Option (String × Cursor) :=
  let (name, after) := here.next.run isNameChar
  if name.isEmpty || !(endsToken after.rest || after.char?.any anchorEnds.contains) then none
  else some (String.ofList name, after)

/-- Characters of the suffix of a tag. A percent sign starts an escaped byte. -/
def isTagChar (c : Char) : Bool :=
  isNameChar c || ";/?:@&=+$,.!~*'()[]%".toList.contains c

def escapedBytes? : Nat → List UInt8 → Cursor → Option (List UInt8 × Cursor)
  | 0, _, _ => none
  | fuel + 1, bytes, here =>
    match here.rest with
    | '%' :: rest =>
      match (rest.take 2).mapM asciiHex? with
      | some [a, b] => escapedBytes? fuel (UInt8.ofNat (16 * a + b) :: bytes) (here.along 3)
      | _ => none
    | _ => some (bytes.reverse, here)

def tagSuffixFrom : Nat → List Char → Cursor → Option (List Char × Cursor)
  | 0, _, _ => none
  | fuel + 1, text, here =>
    let (chars, stop) := here.run fun c => isTagChar c && c != '%'
    let text := text ++ chars
    if stop.char? = some '%' then do
      let (bytes, after) ← escapedBytes? (stop.rest.length + 1) [] stop
      tagSuffixFrom fuel (text ++ (← Text.utf8? bytes).toList) after
    else some (text, stop)

def tagSuffix? (here : Cursor) : Option (String × Cursor) := do
  let (text, after) ← tagSuffixFrom (here.rest.length + 1) [] here
  if after.index = here.index then none else return (String.ofList text, after)

/-- The handle here: a name between exclamation marks, or one mark before a space. -/
def tagHandle? (here : Cursor) : Option (String × Cursor) :=
  if here.char? = some '!' then
    if here.next.char? = some ' ' then some ("!", here.next)
    else
      let (name, stop) := here.next.run isNameChar
      if stop.char? = some '!' then some (String.ofList ('!' :: name ++ ['!']), stop.next)
      else none
  else none

/-- A tag as it is written: a handle and a suffix, or the whole of it. -/
structure WrittenTag where
  handle : Option String
  suffix : String
  deriving DecidableEq, Repr

/-- The tag that starts here, and the place after it. A lone mark is a tag of its own. -/
def writtenTag? (here : Cursor) : Option (WrittenTag × Cursor) := do
  let (tag, after) ←
    if here.next.char? = some '<' then
      (tagSuffix? (here.along 2)).bind fun (suffix, stop) =>
        if stop.char? = some '>' then some (⟨none, suffix⟩, stop.next) else none
    else if endsToken here.next.rest then some (⟨none, "!"⟩, here.next)
    else
      let word := (here.next.run fun c => !(c == ' ' || isBreak c)).1
      if word.contains '!' then
        (tagHandle? here).bind fun (handle, stop) =>
          (tagSuffix? stop).map fun (suffix, after) => (⟨some handle, suffix⟩, after)
      else (tagSuffix? here.next).map fun (suffix, after) => (⟨some "!", suffix⟩, after)
  if endsWord after.rest then return (tag, after) else none

/-- What stands before a document: the version it is written for, what a handle stands for, or
anything else, which does not count. -/
inductive Directive where
  | version (major : Nat)
  | handle (name start : String)
  | other
  deriving DecidableEq, Repr

def versionPart (here : Cursor) : Except Flaw (Nat × Cursor) :=
  let (digits, after) := here.run Char.isDigit
  if digits.isEmpty then .error .malformed
  else if Decimal.maxDigits < digits.length then .error (.fault (.longNumeral digits.length))
  else .ok (Decimal.nat 10 (digits.filterMap Decimal.asciiDigit?), after)

def version (here : Cursor) : Except Flaw (Nat × Cursor) := do
  let (major, stop) ← versionPart here
  if stop.char? = some '.' then
    let (_, after) ← versionPart stop.next
    if endsWord after.rest then return (major, after) else .error .malformed
  else .error .malformed

def handleStart? (here : Cursor) : Option (Directive × Cursor) := do
  let (name, stop) ← tagHandle? here
  if stop.char? = some ' ' then
    let (start, after) ← tagSuffix? (stop.past (· == ' '))
    if endsWord after.rest then return (.handle name start, after) else none
  else none

def orMalformed {α : Type} : Option α → Except Flaw α
  | some a => .ok a
  | none => .error .malformed

def directive (here : Cursor) : Except Flaw (Directive × Cursor) := do
  let (name, stop) := here.next.run isNameChar
  if name.isEmpty || !endsWord stop.rest then .error .malformed
  else
    let value := stop.past (· == ' ')
    let (directive, after) ←
      if name = "YAML".toList then (version value).map fun (major, after) => (.version major, after)
      else if name = "TAG".toList then orMalformed (handleStart? value)
      else .ok (.other, stop.past fun c => !isBreak c)
    let next ← orMalformed after.lineAfter?
    return (directive, next)

end TraitTrace.Yaml
