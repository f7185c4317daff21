/-! Phrases: fixed words with names between backticks. A phrase is read at the front of a text or at
the first place where it fits; reading yields the names. -/

namespace TraitTrace.Text

/-- A part of a phrase: fixed characters, or a non-empty run of characters up to a backtick. -/
inductive Part where
  | words (s : String)
  | name
  deriving DecidableEq, Repr

def afterChars? : List Char → List Char → Option (List Char)
  | [], s => some s
  | _ :: _, [] => none
  | w :: ws, c :: s => if w = c then afterChars? ws s else none

def readParts : List Part → List Char → Option (List String)
  | [], _ => some []
  | .words w :: ps, s => (afterChars? w.toList s).bind (readParts ps)
  | .name :: ps, s =>
    let name := s.takeWhile (· != '`')
    if name = [] then none
    else (readParts ps (s.dropWhile (· != '`'))).map (String.ofList name :: ·)

def firstPlace {α : Type} (f : List Char → Option α) : List Char → Option α
  | [] => f []
  | c :: s =>
    match f (c :: s) with
    | some a => some a
    | none => firstPlace f s

def phraseAt (ps : List Part) (text : String) : Option (List String) := readParts ps text.toList

def phraseIn (ps : List Part) (text : String) : Option (List String) :=
  firstPlace (readParts ps) text.toList

def beforeLast (mark : List Char) : List Char → Option (List Char)
  | [] => if mark = [] then some [] else none
  | c :: s =>
    match beforeLast mark s with
    | some b => some (c :: b)
    | none => if mark.isPrefixOf (c :: s) then some [] else none

/-- What stands before the first place of some characters; all of a text without them. -/
def beforeFirst (mark : List Char) : List Char → List Char
  | [] => []
  | c :: s => if mark.isPrefixOf (c :: s) then [] else c :: beforeFirst mark s

end TraitTrace.Text
