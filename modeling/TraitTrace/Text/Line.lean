import TraitTrace.Text.Blank

/-! Lines of a text. Two cuts are defined: at every Unicode line break, which is how a message is
cut into lines, and at line feeds after the other newline spellings are made line feeds, which is
how a stream is cut. -/

namespace TraitTrace.Text

def isLineBreak (c : Char) : Bool :=
  inRanges [(0x0A, 0x0D), (0x1C, 0x1E), (0x85, 0x85), (0x2028, 0x2029)] c.toNat

/-- The lines of a text whose current line so far is `line`, in reverse. A break at the very end
starts no further line, and a carriage return takes a following line feed with it. -/
def linesFrom : List Char → List Char → List (List Char)
  | [], [] => []
  | line, [] => [line.reverse]
  | line, '\r' :: '\n' :: rest => line.reverse :: linesFrom [] rest
  | line, c :: rest =>
    if isLineBreak c then line.reverse :: linesFrom [] rest else linesFrom (c :: line) rest

def lines (s : List Char) : List (List Char) := linesFrom [] s

/-- The first line of a text once its ends are stripped; empty when there is none. -/
def headLine (s : String) : String :=
  String.ofList ((lines (strip s.toList)).headD [])

def firstLine (s : String) : String := stripped (headLine s)

def unifyNewlines : List Char → List Char
  | [] => []
  | '\r' :: '\n' :: rest => '\n' :: unifyNewlines rest
  | '\r' :: rest => '\n' :: unifyNewlines rest
  | c :: rest => c :: unifyNewlines rest

/-- The pieces of a text that line feeds end; the last one may be unended. -/
def streamLinesFrom : List Char → List Char → List (List Char)
  | [], [] => []
  | line, [] => [line.reverse]
  | line, '\n' :: rest => line.reverse :: streamLinesFrom [] rest
  | line, c :: rest => streamLinesFrom (c :: line) rest

def streamLines (s : String) : List String :=
  (streamLinesFrom [] (unifyNewlines s.toList)).map String.ofList

example : (lines "a\r\nb\n\nc\u2028".toList).map String.ofList = ["a", "b", "", "c"] := by
  decide +kernel

example : firstLine " \n head \x0b tail" = "head" := by decide +kernel

example : streamLines "a\r\rb\r\nc" = ["a", "", "b", "c"] := by decide +kernel

end TraitTrace.Text
