import TraitTrace.Yaml.Block
import TraitTrace.Yaml.Plain
import TraitTrace.Yaml.Token

/-! Tokens from text. Blocks open and close by the column at which tokens stand. That a token starts
a key shows only at the colon after it: until then it is a candidate, and when its colon comes the
mark of the key is put before it. A candidate and its colon stand on one line, at most 1024
characters apart. -/

namespace TraitTrace.Yaml

/-- A token that may turn out to start a key: the number of tokens before it, and where it stands.
One that starts a line of its block must be a key. -/
structure Candidate where
  number : Nat
  start : Cursor
  required : Bool

def longestKey : Nat := 1024

/-- How far a text has been cut into tokens. The tokens are reversed. Columns of open blocks and
candidates of flow brackets around this place stand innermost first; of these some may be stale. -/
structure Lexer where
  here : Cursor
  tokens : List Token := []
  count : Nat := 0
  blocks : List Nat := []
  candidate : Option Candidate := none
  around : List (Option Candidate) := []
  keyAllowed : Bool := true

namespace Lexer

def inFlow (l : Lexer) : Bool := !l.around.isEmpty

def depth (l : Lexer) : Nat := (l.blocks.head?.map (· + 1)).getD 0

def push (l : Lexer) (t : Token) : Lexer := { l with tokens := t :: l.tokens, count := l.count + 1 }

def take (l : Lexer) (t : Token) (after : Cursor) : Lexer := { l.push t with here := after }

def insert (l : Lexer) (number : Nat) (t : Token) : Lexer :=
  let later := l.count - number
  { l with tokens := l.tokens.take later ++ t :: l.tokens.drop later, count := l.count + 1 }

def isStale (l : Lexer) (c : Candidate) : Bool :=
  c.start.line != l.here.line || longestKey < l.here.index - c.start.index

/-- The candidate, unless it is stale. A required one must not be. -/
def fresh? (l : Lexer) : Except Flaw (Option Candidate) :=
  match l.candidate with
  | none => .ok none
  | some c =>
    if !l.isStale c then .ok (some c) else if c.required then .error .malformed else .ok none

def isOverdue (l : Lexer) : Bool :=
  (l.candidate :: l.around).any fun c => c.any fun c => c.required && l.isStale c

def dropCandidate (l : Lexer) : Except Flaw Lexer :=
  if l.candidate.any Candidate.required then .error .malformed
  else .ok { l with candidate := none }

def addCandidate (l : Lexer) : Except Flaw Lexer :=
  if l.keyAllowed then
    let required := !l.inFlow && l.blocks.head? == some l.here.column
    l.dropCandidate.map fun l => { l with candidate := some ⟨l.count, l.here, required⟩ }
  else .ok l

/-- Opens a block at a column deeper than those that are open; `put` writes its token. -/
def openBlock (l : Lexer) (column : Nat) (put : Lexer → Lexer) : Lexer :=
  if l.depth ≤ column then put { l with blocks := column :: l.blocks } else l

def closeBlocks (l : Lexer) (column : Nat) : List Nat → Lexer
  | [] => { l with blocks := [] }
  | b :: columns =>
    if column < b then (l.push .closeBlock).closeBlocks column columns
    else { l with blocks := b :: columns }

def closeEnded (l : Lexer) : Lexer :=
  if l.inFlow then l else l.closeBlocks l.here.column l.blocks

def closeAll (l : Lexer) : Lexer :=
  if l.inFlow then l
  else { l with
    tokens := List.replicate l.blocks.length .closeBlock ++ l.tokens
    count := l.count + l.blocks.length
    blocks := [] }

def skipFrom (endsLine : Bool) (here : Cursor) : Cursor × Bool :=
  match _h : here.pastComment.break? with
  | some (_, next) => skipFrom true next
  | none => (here.pastComment, endsLine)
termination_by here.rest.length
decreasing_by
  exact Nat.lt_of_lt_of_le (Cursor.length_lt_of_break? _h) (Cursor.length_pastComment_le _)

/-- Past spaces, comments and breaks, and past a byte order mark at the start of the text. Outside
flow a key may start after a break. -/
def skip (l : Lexer) : Lexer :=
  let here := if l.here.index = 0 ∧ l.here.char? = some '\uFEFF' then l.here.next else l.here
  let (here, endsLine) := skipFrom false here
  { l with here, keyAllowed := l.keyAllowed || (endsLine && !l.inFlow) }

def takeOutside (l : Lexer) (t : Token) (after : Cursor) : Except Flaw Lexer :=
  l.closeAll.dropCandidate.map fun l => { l.take t after with keyAllowed := false }

def takeOpening (l : Lexer) (t : Token) : Except Flaw Lexer :=
  l.addCandidate.map fun l =>
    { l.take t l.here.next with
      around := l.candidate :: l.around, candidate := none, keyAllowed := true }

def takeClosing (l : Lexer) (t : Token) : Except Flaw Lexer :=
  match l.around with
  | [] => .error .malformed
  | outer :: around =>
    l.dropCandidate.map fun l =>
      { l.take t l.here.next with around, candidate := outer, keyAllowed := false }

def takeComma (l : Lexer) : Except Flaw Lexer :=
  l.dropCandidate.map fun l => { l.take .comma l.here.next with keyAllowed := true }

def takeDash (l : Lexer) : Except Flaw Lexer :=
  if !l.inFlow && !l.keyAllowed then .error .malformed
  else
    let l := if l.inFlow then l else l.openBlock l.here.column (·.push .openSequence)
    l.dropCandidate.map fun l => { l.take .dash l.here.next with keyAllowed := true }

def takeKey (l : Lexer) : Except Flaw Lexer :=
  if !l.inFlow && !l.keyAllowed then .error .malformed
  else
    let l := if l.inFlow then l else l.openBlock l.here.column (·.push .openMapping)
    l.dropCandidate.map fun l => { l.take .key l.here.next with keyAllowed := !l.inFlow }

def takeColon (l : Lexer) : Except Flaw Lexer := do
  match ← l.fresh? with
  | some c =>
    let l := { l.insert c.number .key with candidate := none, keyAllowed := false }
    let l :=
      if l.inFlow then l else l.openBlock c.start.column (·.insert c.number .openMapping)
    return l.take .value l.here.next
  | none =>
    if !l.inFlow && !l.keyAllowed then .error .malformed
    else
      let l := if l.inFlow then l else l.openBlock l.here.column (·.push .openMapping)
      return { l.take .value l.here.next with candidate := none, keyAllowed := !l.inFlow }

def takeWord (l : Lexer) (read : Except Flaw (Token × Cursor)) : Except Flaw Lexer := do
  let l ← l.addCandidate
  let (t, after) ← read
  return { l.take t after with keyAllowed := false }

/-- Plain text. A key may start after it where its line has ended. -/
def takePlain (l : Lexer) : Except Flaw Lexer :=
  l.addCandidate.map fun l =>
    let p := plain l.inFlow l.depth l.here
    { l.take (.scalar p.text true) p.after with keyAllowed := p.endsLine }

def takeQuoted (l : Lexer) (double : Bool) : Except Flaw Lexer :=
  l.takeWord ((quoted double l.here).map fun (text, after) => (.scalar text false, after))

def takeBlock (l : Lexer) (folded : Bool) : Except Flaw Lexer := do
  let l ← l.dropCandidate
  let (text, after) ← orMalformed (blockText? folded l.depth l.here)
  return { l.take (.scalar text false) after with keyAllowed := true }

def takeToken (l : Lexer) (c : Char) (rest : List Char) : Except Flaw Lexer :=
  let named (t : String → Token) : Except Flaw Lexer :=
    l.takeWord ((orMalformed (anchorName? l.here)).map fun (name, after) => (t name, after))
  if c = '%' ∧ l.here.column = 0 then
    (directive l.here).bind fun (d, after) => l.takeOutside (.directive d) after
  else if l.here.isMark '-' then l.takeOutside .documentStart (l.here.along 3)
  else if l.here.isMark '.' then l.takeOutside .documentEnd (l.here.along 3)
  else if c = '[' then l.takeOpening .openList
  else if c = '\x7b' then l.takeOpening .openMap
  else if c = ']' then l.takeClosing .closeList
  else if c = '\x7d' then l.takeClosing .closeMap
  else if c = ',' then l.takeComma
  else if c = '-' ∧ endsToken rest then l.takeDash
  else if c = '?' ∧ (l.inFlow ∨ endsToken rest) then l.takeKey
  else if c = ':' ∧ (l.inFlow ∨ endsToken rest) then l.takeColon
  else if c = '*' then named .alias
  else if c = '&' then named .anchor
  else if c = '!' then
    l.takeWord ((orMalformed (writtenTag? l.here)).map fun (t, after) => (.tag t, after))
  else if (c = '|' ∨ c = '>') ∧ !l.inFlow then l.takeBlock (c = '>')
  else if c = '\'' ∨ c = '"' then l.takeQuoted (c = '"')
  else if startsPlain l.inFlow (c :: rest) then l.takePlain
  else .error .malformed

def step (l : Lexer) : Except Flaw Lexer :=
  let l := l.skip.closeEnded
  match l.here.rest with
  | [] => l.closeAll.dropCandidate
  | c :: rest => l.takeToken c rest

def settled (l : Lexer) : List Token :=
  let live := (l.candidate :: l.around).filterMap fun c => c.filter fun c => !l.isStale c
  let number := live.foldl (fun n c => min n c.number) l.count
  l.tokens.reverse.take number

/-- What a flaw in the next token comes to: where a fault stops the tokens, those before it that are
settled count. -/
def stopped (l : Lexer) : Flaw → Except Flaw Tokens
  | .malformed => .error .malformed
  | .fault f => if l.skip.isOverdue then .error .malformed else .ok ⟨l.settled, some f⟩

def finish : Nat → Lexer → Except Flaw Tokens
  | 0, _ => .error .malformed
  | fuel + 1, l =>
    match l.step with
    | .error f => l.stopped f
    | .ok next =>
      if l.skip.here.rest.isEmpty then .ok ⟨next.tokens.reverse, none⟩ else finish fuel next

end Lexer

def Tokens.ofText (s : List Char) : Except Flaw Tokens :=
  Lexer.finish (s.length + 2) { here := ⟨s, 0, 0, 0⟩ }

end TraitTrace.Yaml
