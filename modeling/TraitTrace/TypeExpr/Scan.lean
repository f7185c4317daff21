import TraitTrace.TypeExpr.Literal

/-! Scanning printed types. A text is cut into pieces, each a character literal or a single
character, so that brackets and separators inside literals count for nothing. The depth of a place
is the number of brackets open there; all three kinds of bracket count alike and a closing bracket
too many leaves the depth at zero. The main lemma says that the pieces of a text join to the
text. -/

namespace TraitTrace.TypeExpr

inductive Piece where
  | literal (chars : List Char)
  | plain (c : Char)
  deriving DecidableEq, Repr

def Piece.chars : Piece → List Char
  | literal cs => cs
  | plain c => [c]

def joined (ps : List Piece) : List Char := ps.flatMap Piece.chars

/-- Cuts a text into pieces; `skip` characters belong to a literal already cut off. -/
def piecesFrom : Nat → List Char → List Piece
  | _, [] => []
  | skip + 1, _ :: s => piecesFrom skip s
  | 0, c :: s =>
    match literalLength? (c :: s) with
    | some n => .literal ((c :: s).take n) :: piecesFrom (n - 1) s
    | none => .plain c :: piecesFrom 0 s

def pieces (s : List Char) : List Piece := piecesFrom 0 s

theorem joined_piecesFrom (skip : Nat) (s : List Char) :
    joined (piecesFrom skip s) = s.drop skip := by
  induction s generalizing skip with
  | nil => cases skip <;> simp [piecesFrom, joined]
  | cons c s ih =>
    cases skip with
    | succ k => simpa [piecesFrom] using ih k
    | zero =>
      rw [piecesFrom]
      split
      · rename_i n hn
        obtain ⟨k, rfl⟩ : ∃ k, n = k + 1 := ⟨n - 1, by have := literalLength?_pos hn; omega⟩
        have h := ih k
        simp only [joined, List.flatMap_cons] at h ⊢
        simp [Piece.chars, h]
      · have h := ih 0
        simp only [joined, List.flatMap_cons] at h ⊢
        simp [Piece.chars, h]

@[simp] theorem joined_pieces (s : List Char) : joined (pieces s) = s := by
  rw [pieces, joined_piecesFrom, List.drop_zero]

def isOpen (c : Char) : Bool := c == '<' || c == '(' || c == '['

def isClose (c : Char) : Bool := c == '>' || c == ')' || c == ']'

/-- The depth at which a character stands: a bracket stands outside of what it brackets. -/
def level (depth : Nat) (c : Char) : Nat := if isClose c then depth - 1 else depth

def after (depth : Nat) (c : Char) : Nat :=
  if isOpen c then depth + 1 else if isClose c then depth - 1 else depth

structure Mark where
  index : Nat
  char : Char
  depth : Nat
  deriving DecidableEq, Repr

def marksFrom : Nat → Nat → List Piece → List Mark
  | _, _, [] => []
  | i, d, .literal cs :: ps => marksFrom (i + cs.length) d ps
  | i, d, .plain c :: ps => ⟨i, c, level d c⟩ :: marksFrom (i + 1) (after d c) ps

def marks (s : List Char) : List Mark := marksFrom 0 0 (pieces s)

def topLevel (text : String) : List Mark := marks text.toList

/-- The place of the bracket that closes the one at `start`: the first closing bracket after it at
the same depth. -/
def matchingClose (text : String) (start : Nat) : Option Nat :=
  let ms := topLevel text
  match ms.find? (·.index == start) with
  | none => none
  | some m =>
    (ms.find? fun k => start < k.index && isClose k.char && k.depth == m.depth).map Mark.index

end TraitTrace.TypeExpr
