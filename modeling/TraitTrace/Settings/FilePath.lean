import TraitTrace.Text.Blank

/-! File paths as they are written in settings: empty and dot parts are dropped, a path of exactly
two leading slashes keeps both, and a tilde at the front names a home directory. -/

namespace TraitTrace.Settings

/-- A path taken apart: the slashes it starts with, and its parts. -/
structure FilePath where
  root : String
  parts : List String
  deriving DecidableEq, Repr

namespace FilePath

def pieces : List Char → List Char → List String
  | piece, [] => [String.ofList piece.reverse]
  | piece, c :: s =>
    if c = '/' then String.ofList piece.reverse :: pieces [] s else pieces (c :: piece) s

def ofText (s : String) : FilePath :=
  let cs := s.toList
  let slashes := (cs.takeWhile (· == '/')).length
  let root := if slashes = 0 then "" else if slashes = 2 then "//" else "/"
  ⟨root, (pieces [] cs).filter fun p => p != "" && p != "."⟩

def text (p : FilePath) : String :=
  if p.root.isEmpty && p.parts.isEmpty then "." else p.root ++ "/".intercalate p.parts

def isAbsolute (p : FilePath) : Bool := !p.root.isEmpty

/-- The home directories that paths can name: that of the user, and those of other users by name. -/
structure Homes where
  own : String
  others : List (String × String)

def Homes.inEnvironment (h : Homes) (environment : List (String × String)) : Homes :=
  { h with own := (environment.lookup "HOME").getD h.own }

/-- Why a path that starts with a tilde has no home: there is none of the name, or the name cannot
be looked up, for it holds the character NUL. -/
inductive HomeFlaw where
  | unknown
  | unsearchable
  deriving DecidableEq, Repr

def Homes.find (h : Homes) (part : String) : Except HomeFlaw String :=
  match part.toList.drop 1 with
  | [] => .ok h.own
  | user =>
    if user.contains '\x00' then .error .unsearchable
    else
      match h.others.find? fun o => o.1.toList == user with
      | some (_, home) => .ok home
      | none => .error .unknown

/-- The path of a home directory. Slashes at its end do not count, and without anything else it is
the root; one under a tilde is not known. -/
def ofHome (home : String) : Except HomeFlaw FilePath :=
  match Text.trimRight (· == '/') home.toList with
  | [] => .ok ⟨"/", []⟩
  | '~' :: _ => .error .unknown
  | s => .ok (ofText (String.ofList s))

def expandHome (h : Homes) (p : FilePath) : Except HomeFlaw FilePath :=
  match p.root, p.parts with
  | "", first :: rest =>
    if first.toList.head? = some '~' then do
      let home ← ofHome (← h.find first)
      return { home with parts := home.parts ++ rest }
    else .ok p
  | _, _ => .ok p

example : ((["/a//b/./c/", "///a", "//a", "", "a/../b"]).map fun s => (ofText s).text) =
    ["/a/b/c", "/a", "//a", ".", "a/../b"] := by decide +kernel

end FilePath

end TraitTrace.Settings
