/-! Places in a YAML text. A cursor is the rest of the text with the number of characters before it
and the line and column at which it starts. Breaks are the line feed and the three breaks of wider
scripts; other newlines have become line feeds before. -/

namespace TraitTrace.Yaml

structure Cursor where
  rest : List Char
  index : Nat := 0
  line : Nat := 0
  column : Nat := 0

def isBreak (c : Char) : Bool :=
  c == '\n' || c == '\u0085' || c == '\u2028' || c == '\u2029'

/-- Whether a line ends here: at a break, or at the end of the text. -/
def endsLine : List Char → Bool
  | [] => true
  | c :: _ => isBreak c

/-- Whether a word ends here: at a space, or at the end of the line. -/
def endsWord (s : List Char) : Bool := s.head? == some ' ' || endsLine s

/-- Whether a token ends here: at a space or tab, or at the end of the line. -/
def endsToken (s : List Char) : Bool := s.head? == some '\t' || endsWord s

def isSpaceOrTab (c : Char) : Bool := c == ' ' || c == '\t'

namespace Cursor

def char? (here : Cursor) : Option Char := here.rest.head?

def next (here : Cursor) : Cursor :=
  match here.rest with
  | [] => here
  | c :: rest =>
    if isBreak c then ⟨rest, here.index + 1, here.line + 1, 0⟩
    else ⟨rest, here.index + 1, here.line, if c = '\uFEFF' then here.column else here.column + 1⟩

def along (here : Cursor) : Nat → Cursor
  | 0 => here
  | n + 1 => here.next.along n

theorem rest_along (here : Cursor) (n : Nat) : (here.along n).rest = here.rest.drop n := by
  induction n generalizing here with
  | zero => rfl
  | succ n ih =>
    rw [along, ih]
    cases h : here.rest with
    | nil => simp [next, h]
    | cons c rest => by_cases hc : isBreak c <;> simp [next, h, hc]

def run (p : Char → Bool) (here : Cursor) : List Char × Cursor :=
  let chars := here.rest.takeWhile p
  (chars, here.along chars.length)

theorem rest_run (p : Char → Bool) (here : Cursor) :
    (here.run p).2.rest = here.rest.dropWhile p := by
  have h : here.rest.drop (here.rest.takeWhile p).length = here.rest.dropWhile p := by
    induction here.rest with
    | nil => rfl
    | cons c rest ih => by_cases hc : p c <;> simp [List.takeWhile, List.dropWhile, hc, ih]
  simp [run, rest_along, h]

theorem length_run_le (p : Char → Bool) (here : Cursor) :
    (here.run p).2.rest.length ≤ here.rest.length := by
  rw [rest_run]
  exact (List.dropWhile_suffix p).length_le

def past (p : Char → Bool) (here : Cursor) : Cursor := (here.run p).2

def pastComment (here : Cursor) : Cursor :=
  let here := here.past (· == ' ')
  if here.char? = some '#' then here.past fun c => !isBreak c else here

theorem length_pastComment_le (here : Cursor) :
    here.pastComment.rest.length ≤ here.rest.length := by
  by_cases h : (here.past (· == ' ')).char? = some '#'
  · simp only [pastComment, h, if_true]
    exact Nat.le_trans (length_run_le _ _) (length_run_le _ _)
  · simp only [pastComment, h, if_false]
    exact length_run_le _ _

def break? (here : Cursor) : Option (Char × Cursor) :=
  match here.rest with
  | [] => none
  | c :: _ =>
    if isBreak c then some (if c = '\u0085' then '\n' else c, here.next) else none

theorem length_lt_of_break? {here next : Cursor} {c : Char} (h : here.break? = some (c, next)) :
    next.rest.length < here.rest.length := by
  unfold break? at h
  split at h
  · simp at h
  · rename_i d rest hd
    split at h
    · rename_i hb
      obtain ⟨-, rfl⟩ := by simpa using h
      simp [Cursor.next, hd, hb]
    · simp at h

def lineAfter? (here : Cursor) : Option Cursor :=
  let stop := here.pastComment
  match stop.break? with
  | some (_, after) => some after
  | none => if stop.rest.isEmpty then some stop else none

def isMark (mark : Char) (here : Cursor) : Bool :=
  here.column == 0 &&
    match here.rest with
    | a :: b :: c :: rest => a == mark && b == mark && c == mark && endsToken rest
    | _ => false

def isAtMark (here : Cursor) : Bool := here.isMark '-' || here.isMark '.'

end Cursor

/-- What stands between two lines of text: the breaks after the first one, where the text goes on,
and whether a document mark stops it there. -/
structure Gap where
  breaks : List Char
  after : Cursor
  atMark : Bool

/-- What a gap after a break stands for: a lone line feed becomes a space, of more the first is
dropped, and a wide break stays. -/
def Gap.folded (g : Gap) (first : Char) : List Char :=
  if first ≠ '\n' then first :: g.breaks
  else if g.breaks.isEmpty then [' ']
  else g.breaks

namespace Cursor

/-- The gap from the start of a line on, where lines may start with blanks, after the breaks so far,
which are reversed. -/
def gapFrom (blank : Char → Bool) (breaks : List Char) (here : Cursor) : Gap :=
  if here.isAtMark then ⟨breaks.reverse, here, true⟩
  else
    match _h : (here.past blank).break? with
    | some (c, next) => gapFrom blank (c :: breaks) next
    | none => ⟨breaks.reverse, here.past blank, false⟩
termination_by here.rest.length
decreasing_by exact Nat.lt_of_lt_of_le (length_lt_of_break? _h) (length_run_le _ _)

def gap (blank : Char → Bool) (here : Cursor) : Gap := gapFrom blank [] here

theorem length_gapFrom_le (blank : Char → Bool) (breaks : List Char) (here : Cursor) :
    (gapFrom blank breaks here).after.rest.length ≤ here.rest.length := by
  fun_induction gapFrom blank breaks here with
  | case1 => simp
  | case2 breaks here _ c next h ih =>
    exact Nat.le_trans ih (Nat.le_trans (Nat.le_of_lt (length_lt_of_break? h)) (length_run_le _ _))
  | case3 => exact length_run_le _ _

end Cursor

end TraitTrace.Yaml
