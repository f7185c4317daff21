/-! Styles of printed text, and the terminal codes that switch them on. -/

namespace TraitTrace

inductive Hue where
  | red
  | yellow
  | cyan
  | green
  deriving DecidableEq, Repr

def Hue.word : Hue → String
  | red => "red"
  | yellow => "yellow"
  | cyan => "cyan"
  | green => "green"

def Hue.code : Hue → String
  | red => "31"
  | green => "32"
  | yellow => "33"
  | cyan => "36"

structure Style where
  bold : Bool := false
  dim : Bool := false
  hue : Option Hue := none
  deriving DecidableEq, Repr

inductive Palette where
  | bare
  | monochrome
  | full
  deriving DecidableEq, Repr

namespace Style

def plain : Style := {}

def words (s : Style) : List String :=
  (if s.bold then ["bold"] else []) ++ (if s.dim then ["dim"] else []) ++
    (s.hue.map Hue.word).toList

def text (s : Style) : String := " ".intercalate s.words

def codes (s : Style) : List String :=
  (if s.bold then ["1"] else []) ++ (if s.dim then ["2"] else []) ++ (s.hue.map Hue.code).toList

def onto (upper lower : Style) : Style :=
  ⟨lower.bold || upper.bold, lower.dim || upper.dim, upper.hue.orElse fun _ => lower.hue⟩

def under (palette : Palette) (s : Style) : Style :=
  match palette with
  | .bare => plain
  | .monochrome => { s with hue := none }
  | .full => s

/-- Text between the codes of a style; with no codes it stands alone. -/
def wrap (s : Style) (text : String) : String :=
  if s.codes.isEmpty then text else "\x1b[" ++ ";".intercalate s.codes ++ "m" ++ text ++ "\x1b[0m"

example : Style.text ⟨true, false, some .red⟩ = "bold red" ∧
    Style.wrap ⟨true, false, some .red⟩ "a" = "\x1b[1;31ma\x1b[0m" := by decide +kernel

end Style

end TraitTrace
