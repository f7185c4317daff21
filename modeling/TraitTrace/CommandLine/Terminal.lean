import TraitTrace.Highlight.Style
import TraitTrace.Settings.Basic

/-! Terminals: what of the style of a text the output shows. The environment can make any output a
terminal, and can say that a terminal knows no codes or no colours. -/

namespace TraitTrace.CommandLine

structure Terminal where
  isInteractive : Bool
  isDumb : Bool
  isMonochrome : Bool

namespace Terminal

def variableNames : List String := ["TTY_COMPATIBLE", "FORCE_COLOR", "TERM", "NO_COLOR"]

/-- Whether an output counts as a terminal: as the environment says, or else as it is. -/
def countsAs (environment : List (String × String)) (isAttached : Bool) : Bool :=
  match environment.lookup "TTY_COMPATIBLE", environment.lookup "FORCE_COLOR" with
  | some "0", _ => false
  | some "1", _ => true
  | _, some force => force != ""
  | _, none => isAttached

def dumbNames : List String := ["dumb", "unknown"]

def ofEnvironment (environment : List (String × String)) (isAttached : Bool) : Terminal where
  isInteractive := countsAs environment isAttached
  isDumb := ((environment.lookup "TERM").map fun name =>
    dumbNames.contains (String.ofList (name.toList.map Char.toLower))).getD false
  isMonochrome := ((environment.lookup "NO_COLOR").map fun v => v != "").getD false

/-- What the output shows in a mode. Only where it is left to the output does it matter whether that
is a terminal. -/
def palette (t : Terminal) (mode : ColorMode) : Palette :=
  let isShown :=
    match mode with
    | .never => false
    | .always => true
    | .automatic => t.isInteractive
  if !isShown || t.isDumb then .bare else if t.isMonochrome then .monochrome else .full

end Terminal

end TraitTrace.CommandLine
