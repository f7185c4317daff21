/-! Character literals inside printed types. A quote opens a literal only when the closing quote
stands where the form of the literal puts it; otherwise it opens a lifetime. -/

namespace TraitTrace.TypeExpr

def bracedLength? (s : List Char) : Option Nat :=
  match s.dropWhile (· != '}') with
  | _ :: '\'' :: _ => some ((s.takeWhile (· != '}')).length + 5)
  | _ => none

def literalLength? : List Char → Option Nat
  | '\'' :: '\\' :: s =>
    match s with
    | 'u' :: s => bracedLength? s
    | 'x' :: _ :: _ :: '\'' :: _ => some 6
    | 'x' :: _ => none
    | _ :: '\'' :: _ => some 4
    | _ => none
  | '\'' :: _ :: '\'' :: _ => some 3
  | _ => none

theorem literalLength?_pos {s : List Char} {n : Nat} (h : literalLength? s = some n) : 0 < n := by
  unfold literalLength? bracedLength? at h
  repeat' split at h
  all_goals simp_all <;> omega

def charLiteralEnd (text : String) (start : Nat) : Option Nat :=
  (literalLength? (text.toList.drop start)).map (start + ·)

example : ["'a'", "'\\n'", "'\\x41'", "'\\u\x7b1F600\x7d'", "'''"].map (charLiteralEnd · 0) =
    [some 3, some 4, some 6, some 11, some 3] := by decide +kernel

example : charLiteralEnd "&'a str" 1 = none ∧ charLiteralEnd "'\\u\x7b41" 0 = none := by
  decide +kernel

end TraitTrace.TypeExpr
