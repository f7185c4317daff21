import TraitTrace.Text.Blank
import TraitTrace.TypeExpr.Scan

/-! Heads, arguments and bounds of printed types. `Head<A, B<C>>` has the head `Head` and the
arguments `A` and `B<C>`; `A: B` is the bound of `A` by `B`. A list that the compiler cut short
keeps what was printed. The last lemma says that an argument is shorter than the type it stands
in. -/

namespace TraitTrace.TypeExpr

open Text

def prepend (cs : List Char) : List (List Char) → List (List Char)
  | [] => [cs]
  | p :: ps => (cs ++ p) :: ps

def cut (isSep : Char → Bool) : Nat → List Piece → List (List Char)
  | _, [] => [[]]
  | d, .literal cs :: ps => prepend cs (cut isSep d ps)
  | d, .plain c :: ps =>
    if isSep c && level d c == 0 then [] :: cut isSep (after d c) ps
    else prepend [c] (cut isSep (after d c) ps)

def parts (isSep : Char → Bool) (s : List Char) : List (List Char) :=
  ((cut isSep 0 (pieces s)).map strip).filter (· ≠ [])

def untilOpen : Nat → List Piece → Option (List Char × List Piece)
  | _, [] => none
  | d, .literal cs :: ps => (untilOpen d ps).map fun (h, r) => (cs ++ h, r)
  | d, .plain c :: ps =>
    if c = '<' ∧ d = 0 then some ([], ps)
    else (untilOpen (after d c) ps).map fun (h, r) => (c :: h, r)

def untilClose : Nat → List Piece → Option (List Char)
  | _, [] => none
  | d, .literal cs :: ps => (untilClose d ps).map (cs ++ ·)
  | d, .plain c :: ps =>
    if isClose c ∧ level d c = 0 then some []
    else (untilClose (after d c) ps).map (c :: ·)

/-- What stands inside an argument list, given the pieces after its opening bracket. A list without
its closing bracket loses the closing angle brackets at its end. -/
def inside (ps : List Piece) : List Char :=
  (untilClose 1 ps).getD (trimRight (· == '>') (joined ps))

def generic (s : List Char) : List Char × List (List Char) :=
  let s := strip s
  match untilOpen 0 (pieces s) with
  | none => (s, [])
  | some (head, ps) => (strip head, parts (· == ',') (inside ps))

structure Generic where
  head : String
  args : List String
  deriving DecidableEq, Repr

def splitTopLevel (isSep : Char → Bool) (text : String) : List String :=
  (parts isSep text.toList).map String.ofList

def parseGeneric (text : String) : Generic :=
  let (head, args) := generic text.toList
  ⟨String.ofList head, args.map String.ofList⟩

def genericHead (text : String) : String := (parseGeneric text).head

def isLoneColon (s : List Char) (i : Nat) : Bool :=
  s[i + 1]? != some ':' && (i == 0 || s[i - 1]? != some ':')

def bound? (s : List Char) : Option (List Char × List Char) :=
  (marks s).findSome? fun m =>
    if m.char = ':' ∧ m.depth = 0 ∧ isLoneColon s m.index then
      let left := strip (s.take m.index)
      let right := strip (s.drop (m.index + 1))
      if left ≠ [] ∧ right ≠ [] then some (left, right) else none
    else none

def splitBound (text : String) : Option (String × String) :=
  (bound? text.toList).map fun (left, right) => (String.ofList left, String.ofList right)

def sameType (left right : String) : Bool := squeeze left.toList == squeeze right.toList

def hasTypeArgument (outer inner : String) : Bool :=
  (parseGeneric outer).args.any fun arg => sameType arg inner

theorem length_le_of_mem_prepend {cs p : List Char} {ps : List (List Char)} {n : Nat}
    (hn : ∀ q ∈ ps, q.length ≤ n) (h : p ∈ prepend cs ps) : p.length ≤ cs.length + n := by
  cases ps with
  | nil => simp only [prepend, List.mem_singleton] at h; subst h; omega
  | cons q qs =>
    rcases List.mem_cons.1 h with rfl | h
    · have := hn q List.mem_cons_self
      simp only [List.length_append]; omega
    · have := hn p (List.mem_cons_of_mem _ h); omega

theorem length_le_of_mem_cut {isSep : Char → Bool} {d : Nat} {ps : List Piece} {p : List Char}
    (h : p ∈ cut isSep d ps) : p.length ≤ (joined ps).length := by
  induction ps generalizing d p with
  | nil => simp only [cut, List.mem_singleton] at h; subst h; simp
  | cons q ps ih =>
    have hq : (joined (q :: ps)).length = q.chars.length + (joined ps).length := by
      simp [joined]
    rw [hq]
    cases q with
    | literal cs => exact length_le_of_mem_prepend (fun r hr => ih hr) h
    | plain c =>
      rw [cut] at h
      split at h
      · rcases List.mem_cons.1 h with rfl | h
        · simp
        · have := ih h; omega
      · exact length_le_of_mem_prepend (fun r hr => ih hr) h

theorem length_le_of_mem_parts {isSep : Char → Bool} {s p : List Char}
    (h : p ∈ parts isSep s) : p.length ≤ s.length := by
  simp only [parts, List.mem_filter, List.mem_map] at h
  obtain ⟨⟨q, hq, rfl⟩, -⟩ := h
  have h1 := length_le_of_mem_cut hq
  have h2 := length_strip_le q
  simp only [joined_pieces] at h1
  omega

theorem joined_of_untilOpen {d : Nat} {ps rest : List Piece} {head : List Char}
    (h : untilOpen d ps = some (head, rest)) : joined ps = head ++ '<' :: joined rest := by
  induction ps generalizing d head with
  | nil => simp [untilOpen] at h
  | cons p ps ih =>
    cases p with
    | literal cs =>
      simp only [untilOpen, Option.map_eq_some_iff, Prod.exists, Prod.mk.injEq] at h
      obtain ⟨a, b, hab, rfl, rfl⟩ := h
      have := ih hab
      simp only [joined, List.flatMap_cons] at this ⊢
      simp [Piece.chars, this]
    | plain c =>
      rw [untilOpen] at h
      split at h
      · rename_i hc
        simp only [Option.some.injEq, Prod.mk.injEq] at h
        obtain ⟨rfl, rfl⟩ := h
        simp [joined, Piece.chars, hc.1]
      · simp only [Option.map_eq_some_iff, Prod.exists, Prod.mk.injEq] at h
        obtain ⟨a, b, hab, rfl, rfl⟩ := h
        have := ih hab
        simp only [joined, List.flatMap_cons] at this ⊢
        simp [Piece.chars, this]

theorem untilClose_initial {d : Nat} {ps : List Piece} {cs : List Char}
    (h : untilClose d ps = some cs) : cs <+: joined ps := by
  induction ps generalizing d cs with
  | nil => simp [untilClose] at h
  | cons p ps ih =>
    cases p with
    | literal ls =>
      simp only [untilClose, Option.map_eq_some_iff] at h
      obtain ⟨a, ha, rfl⟩ := h
      simpa [joined, Piece.chars] using ih ha
    | plain c =>
      rw [untilClose] at h
      split at h
      · simp only [Option.some.injEq] at h
        subst h; exact List.nil_prefix
      · simp only [Option.map_eq_some_iff] at h
        obtain ⟨a, ha, rfl⟩ := h
        simpa [joined, Piece.chars] using ih ha

theorem length_inside_le (ps : List Piece) : (inside ps).length ≤ (joined ps).length := by
  unfold inside
  cases h : untilClose 1 ps with
  | none => simpa using length_trimRight_le _ _
  | some cs => simpa using (untilClose_initial h).length_le

theorem length_lt_of_mem_generic {s a : List Char} (h : a ∈ (generic s).2) :
    a.length < s.length := by
  unfold generic at h
  simp only at h
  split at h
  · simp at h
  · rename_i head ps ho
    have h1 := length_le_of_mem_parts h
    have h2 := length_inside_le ps
    have h3 := congrArg List.length (joined_of_untilOpen ho)
    have h4 := length_strip_le s
    simp only [joined_pieces, List.length_append, List.length_cons] at h3
    omega

end TraitTrace.TypeExpr
