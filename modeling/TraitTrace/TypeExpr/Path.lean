import TraitTrace.TypeExpr.Scan

/-! Module paths in printed types: `cgp::prelude::HasField<a::B>` names `HasField<B>`. A path is
dropped where it is followed by the name it leads to or by an opening angle bracket; character
literals are left as they are. -/

namespace TraitTrace.TypeExpr

def isNameStart (c : Char) : Bool := c.isAlpha || c == '_'

def isNameChar (c : Char) : Bool := c.isAlphanum || c == '_'

/-- The length of the path segment at the front: an identifier and the `::` after it. -/
def segment? : List Char → Option Nat
  | [] => none
  | c :: s =>
    if isNameStart c then
      match s.dropWhile isNameChar with
      | ':' :: ':' :: _ => some ((s.takeWhile isNameChar).length + 3)
      | _ => none
    else none

theorem segment?_pos {s : List Char} {n : Nat} (h : segment? s = some n) :
    0 < n ∧ 0 < s.length := by
  unfold segment? at h
  repeat' split at h
  all_goals simp_all
  all_goals omega

def segments (s : List Char) : List Nat :=
  match _h : segment? s with
  | none => []
  | some n => n :: segments (s.drop n)
termination_by s.length
decreasing_by
  have := segment?_pos _h
  simp only [List.length_drop]
  omega

def leadsTo (s : List Char) : Bool :=
  match s with
  | c :: _ => isNameStart c || c == '<'
  | [] => false

/-- The length of the path at the front. Of a run of segments that leads nowhere, the last segment
is itself what the others lead to. -/
def pathLength (s : List Char) : Nat :=
  let ns := segments s
  let length (ns : List Nat) : Nat := ns.foldl (· + ·) 0
  if leadsTo (s.drop (length ns)) then length ns else length ns.dropLast

def joinsName : Option Char → Bool
  | some c => isNameChar c || c == '\''
  | none => false

/-- Drops the paths of a text without literals; `previous` stands before it, and `skip` characters
belong to a path already dropped. -/
def dropPathsFrom : Option Char → Nat → List Char → List Char
  | _, _, [] => []
  | _, skip + 1, c :: s => dropPathsFrom (some c) skip s
  | previous, 0, c :: s =>
    if joinsName previous then c :: dropPathsFrom (some c) 0 s
    else
      match pathLength (c :: s) with
      | 0 => c :: dropPathsFrom (some c) 0 s
      | n + 1 => dropPathsFrom (some c) n s

/-- Drops the paths between literals; `run` holds the characters since the last one, in reverse. -/
def dropPaths : List Char → List Piece → List Char
  | run, [] => dropPathsFrom none 0 run.reverse
  | run, .literal cs :: ps => dropPathsFrom none 0 run.reverse ++ cs ++ dropPaths [] ps
  | run, .plain c :: ps => dropPaths (c :: run) ps

def stripPaths (text : String) : String := String.ofList (dropPaths [] (pieces text.toList))

end TraitTrace.TypeExpr
