/-! Tabs expanded to columns. -/

namespace TraitTrace.Text

/-- Expands the tabs of a text that starts at some column. A tab runs to the next multiple of the
width; with a width of zero or less it vanishes. Line feeds and carriage returns start over. -/
def expandFrom (width : Int) : Nat → List Char → List Char
  | _, [] => []
  | column, c :: s =>
    if c = '\t' then
      if 0 < width then
        let n := width.toNat - column % width.toNat
        List.replicate n ' ' ++ expandFrom width (column + n) s
      else expandFrom width column s
    else if c = '\n' ∨ c = '\r' then c :: expandFrom width 0 s
    else c :: expandFrom width (column + 1) s

def expandTabs (width : Int) (s : List Char) : List Char := expandFrom width 0 s

end TraitTrace.Text
