import TraitTrace.Yaml.Cursor

/-! Plain text: text without quotes. It goes on over lines, and the breaks between them fold. Inside
flow brackets more characters end it. -/

namespace TraitTrace.Yaml

def marks : List Char := "-?:,[]\x7b\x7d#&*!|>'\"%@\x60".toList

def flowMarks : List Char := ",?[]\x7b\x7d".toList

def colonMarks : List Char := ",[]\x7b\x7d".toList

/-- Whether plain text starts here. A dash, and outside flow a question mark or colon, may start it
when text follows at once. -/
def startsPlain (inFlow : Bool) : List Char → Bool
  | [] => false
  | c :: rest =>
    if marks.contains c then
      !endsToken rest && (c == '-' || (!inFlow && (c == '?' || c == ':')))
    else !endsToken (c :: rest)

def closesKey (inFlow : Bool) (rest : List Char) : Bool :=
  endsToken rest || (inFlow && rest.head?.any colonMarks.contains)

def plainRun (inFlow : Bool) : List Char → List Char
  | [] => []
  | c :: rest =>
    if endsToken (c :: rest) || (c == ':' && closesKey inFlow rest) ||
        (inFlow && flowMarks.contains c) then []
    else c :: plainRun inFlow rest

/-- Plain text, the place after it and the blanks that follow, and whether a line ends between. -/
structure Plain where
  text : String
  after : Cursor
  endsLine : Bool

/-- What stands between a run of plain text and the next: the text it makes, the place after it, and
whether a line ends in it. Where nothing or a document mark follows there is no text. -/
structure Joint where
  text : List Char
  after : Cursor
  endsLine : Bool

def joint (here : Cursor) : Joint :=
  let (blanks, after) := here.run (· == ' ')
  match after.break? with
  | some (first, next) =>
    let gap := next.gap (· == ' ')
    ⟨if gap.atMark then [] else gap.folded first, gap.after, true⟩
  | none => ⟨blanks, after, false⟩

theorem length_joint_le (here : Cursor) :
    (joint here).after.rest.length ≤ here.rest.length := by
  unfold joint
  dsimp only
  split
  · rename_i h
    exact Nat.le_trans (Cursor.length_gapFrom_le _ _ _)
      (Nat.le_trans (Nat.le_of_lt (Cursor.length_lt_of_break? h)) (Cursor.length_run_le _ _))
  · exact Cursor.length_run_le _ _

/-- Plain text with the runs that go on after blanks and breaks. Outside flow a further run must not
stand before the first column of the block that the text is in. The text so far is reversed. -/
def plainFrom (inFlow : Bool) (depth : Nat) (text : List Char) (here : Cursor) : Plain :=
  let between := joint here
  let after := between.after
  match _h : plainRun inFlow after.rest with
  | [] => ⟨String.ofList text.reverse, after, between.endsLine⟩
  | c :: run =>
    if between.text.isEmpty || c == '#' || (!inFlow && after.column < depth) then
      ⟨String.ofList text.reverse, after, between.endsLine⟩
    else
      plainFrom inFlow depth ((c :: run).reverse ++ (between.text.reverse ++ text))
        (after.along (run.length + 1))
termination_by here.rest.length
decreasing_by
  have hj : (joint here).after.rest.length ≤ here.rest.length := length_joint_le here
  have hn : (joint here).after.rest ≠ [] := by
    intro hn
    simp [between, after, hn, plainRun] at _h
  have := List.length_pos_iff.2 hn
  rw [Cursor.rest_along, List.length_drop]
  omega

def plain (inFlow : Bool) (depth : Nat) (here : Cursor) : Plain :=
  let run := plainRun inFlow here.rest
  plainFrom inFlow depth run.reverse (here.along run.length)

end TraitTrace.Yaml
