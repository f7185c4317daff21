import TraitTrace.Text.Ranges

/-! Blank characters of Unicode and the removal of blanks at the ends of a text. Removal never makes
a text longer, and leaves one alone that has nothing of the kind at its ends. -/

namespace TraitTrace.Text

def blankRanges : List (Nat × Nat) :=
  [(0x09, 0x0D), (0x1C, 0x20), (0x85, 0x85), (0xA0, 0xA0), (0x1680, 0x1680), (0x2000, 0x200A),
   (0x2028, 0x2029), (0x202F, 0x202F), (0x205F, 0x205F), (0x3000, 0x3000)]

def isBlank (c : Char) : Bool := inRanges blankRanges c.toNat

def trimLeft (p : Char → Bool) (s : List Char) : List Char := s.dropWhile p

def trimRight (p : Char → Bool) (s : List Char) : List Char := (s.reverse.dropWhile p).reverse

def strip (s : List Char) : List Char := trimRight isBlank (trimLeft isBlank s)

def squeeze (s : List Char) : List Char := s.filter fun c => !isBlank c

theorem length_trimLeft_le (p : Char → Bool) (s : List Char) :
    (trimLeft p s).length ≤ s.length :=
  (List.dropWhile_suffix p).length_le

theorem length_trimRight_le (p : Char → Bool) (s : List Char) :
    (trimRight p s).length ≤ s.length := by
  have h := (List.dropWhile_suffix p (l := s.reverse)).length_le
  simpa [trimRight] using h

theorem length_strip_le (s : List Char) : (strip s).length ≤ s.length :=
  Nat.le_trans (length_trimRight_le _ _) (length_trimLeft_le _ _)

theorem trimLeft_eq_self {p : Char → Bool} {s : List Char}
    (h : ∀ c, s.head? = some c → p c = false) : trimLeft p s = s := by
  cases s with
  | nil => rfl
  | cons c s => simp [trimLeft, h c rfl]

theorem trimRight_eq_self {p : Char → Bool} {s : List Char}
    (h : ∀ c, s.getLast? = some c → p c = false) : trimRight p s = s := by
  have h' : trimLeft p s.reverse = s.reverse :=
    trimLeft_eq_self fun c hc => h c (by simpa using hc)
  rw [trimLeft] at h'
  rw [trimRight, h', List.reverse_reverse]

theorem trimRight_append_replicate (c : Char) (s : List Char) (n : Nat) :
    trimRight (· == c) (s ++ List.replicate n c) = trimRight (· == c) s := by
  induction n with
  | zero => simp
  | succ n ih => rw [List.replicate_succ', ← List.append_assoc, ← ih]; simp [trimRight]

theorem strip_cons_of_isBlank {c : Char} (h : isBlank c = true) (s : List Char) :
    strip (c :: s) = strip s := by
  simp [strip, trimLeft, h]

theorem strip_eq_self {s : List Char} (first : ∀ c, s.head? = some c → isBlank c = false)
    (last : ∀ c, s.getLast? = some c → isBlank c = false) : strip s = s := by
  rw [strip, trimLeft_eq_self first, trimRight_eq_self last]

def stripped (s : String) : String := String.ofList (strip s.toList)

def isBlankText (s : String) : Bool := s.toList.all isBlank

end TraitTrace.Text
