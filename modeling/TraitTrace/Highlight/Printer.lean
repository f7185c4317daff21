import TraitTrace.Highlight.Basic
import TraitTrace.Text.Columns

/-! Printing of highlighted text. A line is printed in pieces of characters under the same
highlights; a tab ends its piece and takes the columns up to the next multiple of eight. -/

namespace TraitTrace.Highlight

def printedTab : Nat := 8

def covers (hs : List Highlight) (i : Nat) : List Nat :=
  (hs.zipIdx.filter fun (h, _) => h.start ≤ i && i < h.stop).map Prod.snd

def styleOf (hs : List Highlight) (cover : List Nat) : Style :=
  cover.foldl (fun s i => ((hs[i]?.map Highlight.style).getD .plain).onto s) .plain

structure Cell where
  char : Char
  cover : List Nat

structure Piece where
  cover : List Nat
  text : List Char

/-- The blanks of a tab that comes after some characters of a line, which start at a column, and the
column after it. -/
def tabBlanks (column : Nat) (before : List Char) : List Char × Nat :=
  let reached := column + Text.columns (before ++ [' '])
  let more := (printedTab - reached % printedTab) % printedTab
  (List.replicate (more + 1) ' ', reached + more)

/-- The pieces of a line, after an open one. `before` are the characters since the last tab, in
reverse, and `column` is the column at which they start. -/
def piecesFrom (column : Nat) (before : List Char) (opened : Piece) : List Cell → List Piece
  | [] => if opened.text.isEmpty then [] else [opened]
  | c :: cells =>
    let (blanks, after) := tabBlanks column before.reverse
    let isTab := c.char == '\t'
    let chars := if isTab then blanks else [c.char]
    let joins := c.cover = opened.cover
    let piece : Piece :=
      if joins then { opened with text := opened.text ++ chars } else ⟨c.cover, chars⟩
    let rest :=
      if isTab then piece :: piecesFrom after [] ⟨[], []⟩ cells
      else piecesFrom column (c.char :: before) piece cells
    if joins || opened.text.isEmpty then rest else opened :: rest

def pieces (line : List Cell) : List Piece := piecesFrom 0 [] ⟨[], []⟩ line

def cellLines : List Cell → List Cell → List (List Cell)
  | line, [] => [line.reverse]
  | line, c :: cells =>
    if c.char = '\n' then line.reverse :: cellLines [] cells else cellLines (c :: line) cells

def render (palette : Palette) (s : String) : String :=
  let chars := printed s
  let hs := ofText chars
  let cells := chars.zipIdx.map fun (c, i) => (⟨c, covers hs i⟩ : Cell)
  let line (cs : List Cell) : String :=
    String.join ((pieces cs).map fun p =>
      ((styleOf hs p.cover).under palette).wrap (String.ofList p.text))
  String.join ((cellLines [] cells).map fun l => line l ++ "\n")

end TraitTrace.Highlight
