import TraitTrace.Yaml.Cursor

/-! Block text: the lines below a mark, deeper than the block around them. Literal text keeps its
breaks; in folded text a lone break between two lines that start with text becomes a space. The last
break is kept once, and all of the breaks at the end or none by an indicator. -/

namespace TraitTrace.Yaml

inductive Chomping where
  | clip
  | strip
  | keep
  deriving DecidableEq, Repr

/-- What may stand after the mark of block text: what becomes of the breaks at the end, and how much
deeper the lines stand. -/
structure BlockHeader where
  chomping : Chomping := .clip
  increment : Option Nat := none

namespace BlockHeader

def chomping? : Option Char → Option Chomping
  | some '+' => some .keep
  | some '-' => some .strip
  | _ => none

def increment? (c : Option Char) : Option Nat :=
  (c.filter Char.isDigit).map fun c => c.toNat - 48

/-- The header here, in either order, and the place after it. There is no increment of zero. -/
def read? (here : Cursor) : Option (BlockHeader × Cursor) :=
  let header : BlockHeader × Cursor :=
    match chomping? here.char?, increment? here.char? with
    | some chomping, _ =>
      match increment? here.next.char? with
      | some n => (⟨chomping, some n⟩, here.along 2)
      | none => (⟨chomping, none⟩, here.next)
    | none, some n =>
      match chomping? here.next.char? with
      | some chomping => (⟨chomping, some n⟩, here.along 2)
      | none => (⟨.clip, some n⟩, here.next)
    | none, none => ({}, here)
  if header.1.increment = some 0 || !endsWord header.2.rest then none else some header

end BlockHeader

def indentTo (column : Nat) (here : Cursor) : Cursor :=
  here.along ((here.rest.take (column - here.column)).takeWhile (· == ' ')).length

/-- The empty lines above the first line of text: their breaks, the deepest column reached, and the
place of the text. -/
def emptyLinesFrom : Nat → List Char → Nat → Cursor → List Char × Nat × Cursor
  | 0, breaks, deepest, here => (breaks.reverse, deepest, here)
  | fuel + 1, breaks, deepest, here =>
    match here.break? with
    | some (c, next) => emptyLinesFrom fuel (c :: breaks) deepest next
    | none =>
      if here.char? = some ' ' then
        emptyLinesFrom fuel breaks (max deepest here.next.column) here.next
      else (breaks.reverse, deepest, here)

def blockGapFrom (column : Nat) : Nat → List Char → Cursor → List Char × Cursor
  | 0, breaks, here => (breaks.reverse, here)
  | fuel + 1, breaks, here =>
    let here := indentTo column here
    match here.break? with
    | some (c, next) => blockGapFrom column fuel (c :: breaks) next
    | none => (breaks.reverse, here)

def blockGap (column : Nat) (here : Cursor) : List Char × Cursor :=
  blockGapFrom column (here.rest.length + 1) [] here

/-- What has been read of block text: its lines, reversed, the break after the last one, the breaks
of empty lines after it, and the place. -/
structure BlockRead where
  text : List Char := []
  lineBreak : List Char := []
  breaks : List Char
  after : Cursor

def isBlockLine (column : Nat) (here : Cursor) : Bool := here.column == column && !here.rest.isEmpty

def startsText (here : Cursor) : Bool := !here.char?.any isSpaceOrTab

def blockLines (folded : Bool) (column : Nat) : Nat → BlockRead → BlockRead
  | 0, r => r
  | fuel + 1, r =>
    if isBlockLine column r.after then
      let (line, stop) := r.after.run fun c => !isBreak c
      let (lineBreak, next) :=
        match stop.break? with
        | some (c, next) => ([c], next)
        | none => ([], stop)
      let (breaks, after) := blockGap column next
      let joint :=
        if !isBlockLine column after then []
        else if folded && lineBreak == ['\n'] && startsText r.after && startsText after then
          if breaks.isEmpty then [' '] else []
        else lineBreak
      blockLines folded column fuel
        ⟨joint.reverse ++ (line.reverse ++ (r.breaks.reverse ++ r.text)), lineBreak, breaks, after⟩
    else r

def blockText? (folded : Bool) (depth : Nat) (here : Cursor) : Option (String × Cursor) := do
  let (header, after) ← BlockHeader.read? here.next
  let start ← after.lineAfter?
  let least := max depth 1
  let fuel := here.rest.length + 1
  let (column, breaks, first) :=
    match header.increment with
    | some n =>
      let column := least + n - 1
      (column, blockGap column start)
    | none =>
      let (breaks, deepest, first) := emptyLinesFrom fuel [] 0 start
      (max least deepest, breaks, first)
  let r := blockLines folded column fuel ⟨[], [], breaks, first⟩
  let tail :=
    match header.chomping with
    | .clip => r.lineBreak
    | .strip => []
    | .keep => r.lineBreak ++ r.breaks
  return (String.ofList (r.text.reverse ++ tail), r.after)

end TraitTrace.Yaml
