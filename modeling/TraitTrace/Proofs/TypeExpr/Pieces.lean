import TraitTrace.TypeExpr.Generic

/-! Printed types piece by piece. A whole text ends where a piece of it ends, whatever is printed
after it. Pieces climb from one depth to another when no bracket among them closes what they did
not open: a list that they stand in is still open after them, so neither its end nor a place to cut
it is found among them. -/

namespace TraitTrace.TypeExpr

theorem piecesFrom_eq (skip : Nat) (s : List Char) : piecesFrom skip s = pieces (s.drop skip) := by
  induction s generalizing skip with
  | nil => cases skip <;> rfl
  | cons c s ih =>
    cases skip with
    | zero => rfl
    | succ n => exact ih n

@[simp] theorem pieces_nil : pieces [] = [] := rfl

theorem pieces_cons {c : Char} (h : c ≠ '\'') (s : List Char) :
    pieces (c :: s) = .plain c :: pieces s := by
  have hl : literalLength? (c :: s) = none := by simp [literalLength?, h]
  rw [pieces, piecesFrom, hl]
  rfl

/-- A text whose pieces are the same whatever follows it. -/
def Whole (s : List Char) : Prop := ∀ t, pieces (s ++ t) = pieces s ++ pieces t

theorem Whole.append {s t : List Char} (hs : Whole s) (ht : Whole t) : Whole (s ++ t) := by
  intro u
  rw [List.append_assoc, hs, ht, hs, List.append_assoc]

theorem Whole.cons {c : Char} {s : List Char} (h : c ≠ '\'') (hs : Whole s) : Whole (c :: s) := by
  intro t
  rw [List.cons_append, pieces_cons h, hs, pieces_cons h, List.cons_append]

theorem pieces_of_noQuote {s : List Char} (h : '\'' ∉ s) : pieces s = s.map .plain := by
  induction s with
  | nil => rfl
  | cons c s ih =>
    rw [List.mem_cons, not_or] at h
    rw [pieces_cons (Ne.symm h.1), ih h.2, List.map_cons]

theorem whole_of_noQuote {s : List Char} (h : '\'' ∉ s) : Whole s := by
  induction s with
  | nil => exact fun _ => rfl
  | cons c s ih =>
    rw [List.mem_cons, not_or] at h
    exact (ih h.2).cons (Ne.symm h.1)

/-- A text that is taken for a character literal whatever follows it. -/
def Literal (s : List Char) : Prop := s ≠ [] ∧ ∀ t, literalLength? (s ++ t) = some s.length

theorem Literal.literalLength?_eq {s : List Char} (h : Literal s) :
    literalLength? s = some s.length := by
  have hs := h.2 []
  rwa [List.append_nil] at hs

theorem Literal.pieces_append {s : List Char} (h : Literal s) (t : List Char) :
    pieces (s ++ t) = .literal s :: pieces t := by
  obtain ⟨hne, hl⟩ := h
  cases s with
  | nil => exact absurd rfl hne
  | cons c s =>
    have hc := hl t
    rw [List.cons_append] at hc ⊢
    rw [pieces, piecesFrom, hc]
    simp [piecesFrom_eq]

theorem Literal.pieces {s : List Char} (h : Literal s) : pieces s = [.literal s] := by
  have hs := h.pieces_append []
  rwa [List.append_nil, pieces_nil] at hs

theorem Literal.whole {s : List Char} (h : Literal s) : Whole s := by
  intro t
  rw [h.pieces_append, h.pieces]
  rfl

/-- The depth after a piece, unless it closes what is not open. -/
def rise (d : Nat) : Piece → Option Nat
  | .literal _ => some d
  | .plain c =>
    if isOpen c then some (d + 1)
    else if isClose c then (if d = 0 then none else some (d - 1))
    else some d

/-- The depth that pieces lead to, if none of them closes what is not open. -/
def climb (d : Nat) (ps : List Piece) : Option Nat := ps.foldlM rise d

@[simp] theorem climb_nil (d : Nat) : climb d [] = some d := rfl

@[simp] theorem climb_cons (d : Nat) (p : Piece) (ps : List Piece) :
    climb d (p :: ps) = (rise d p).bind (climb · ps) := List.foldlM_cons

@[simp] theorem climb_append (d : Nat) (ps qs : List Piece) :
    climb d (ps ++ qs) = (climb d ps).bind (climb · qs) := List.foldlM_append

theorem isClose_eq_false_of_isOpen {c : Char} (h : isOpen c = true) : isClose c = false := by
  simp only [isOpen, Bool.or_eq_true, beq_iff_eq] at h
  rcases h with (rfl | rfl) | rfl <;> rfl

/-- A character opens, closes what is open, or leaves the depth as it is. -/
theorem rise_plain {d e : Nat} {c : Char} (h : rise d (.plain c) = some e) :
    (isOpen c = true ∧ isClose c = false ∧ e = d + 1) ∨
    (isOpen c = false ∧ isClose c = true ∧ d = e + 1) ∨
    (isOpen c = false ∧ isClose c = false ∧ e = d) := by
  rw [rise] at h
  split at h
  · rename_i ho
    exact .inl ⟨ho, isClose_eq_false_of_isOpen ho, by simpa using h.symm⟩
  · rename_i ho
    rw [Bool.not_eq_true] at ho
    split at h
    · rename_i hc
      split at h
      · cases h
      · rw [Option.some.injEq] at h
        exact .inr (.inl ⟨ho, hc, by omega⟩)
    · rename_i hc
      exact .inr (.inr ⟨ho, by simpa using hc, by simpa using h.symm⟩)

theorem rise_succ {d e : Nat} {p : Piece} (h : rise d p = some e) :
    rise (d + 1) p = some (e + 1) := by
  cases p with
  | literal cs => simpa [rise] using h
  | plain c =>
    rcases rise_plain h with ⟨ho, -, rfl⟩ | ⟨ho, hc, rfl⟩ | ⟨ho, hc, rfl⟩
    · simp [rise, ho]
    · simp [rise, ho, hc]
    · simp [rise, ho, hc]

theorem climb_succ {d e : Nat} {ps : List Piece} (h : climb d ps = some e) :
    climb (d + 1) ps = some (e + 1) := by
  induction ps generalizing d with
  | nil => simpa using h
  | cons p ps ih =>
    rw [climb_cons, Option.bind_eq_some_iff] at h
    obtain ⟨m, hm, h⟩ := h
    rw [climb_cons, rise_succ hm]
    exact ih h

/-- Inside an open list, a character that does not close it leads to the depth it rises to. -/
theorem after_of_rise {d e : Nat} {c : Char} (h : rise d (.plain c) = some e) :
    after (d + 1) c = e + 1 := by
  rcases rise_plain h with ⟨ho, -, rfl⟩ | ⟨ho, hc, rfl⟩ | ⟨ho, hc, rfl⟩
  · simp [after, ho]
  · simp [after, ho, hc]
  · simp [after, ho, hc]

theorem level_of_rise {d e : Nat} {c : Char} (h : rise d (.plain c) = some e) :
    level (d + 1) c ≠ 0 := by
  rcases rise_plain h with ⟨-, hc, -⟩ | ⟨-, hc, rfl⟩ | ⟨-, hc, -⟩
  · simp [level, hc]
  · simp [level, hc]
  · simp [level, hc]

theorem untilClose_append {d e : Nat} {ps : List Piece} (h : climb d ps = some e)
    (qs : List Piece) :
    untilClose (d + 1) (ps ++ qs) = (untilClose (e + 1) qs).map (joined ps ++ ·) := by
  induction ps generalizing d with
  | nil =>
    obtain rfl : d = e := by simpa using h
    simp [joined]
  | cons p ps ih =>
    rw [climb_cons, Option.bind_eq_some_iff] at h
    obtain ⟨m, hm, h⟩ := h
    cases p with
    | literal cs =>
      obtain rfl : d = m := by simpa [rise] using hm
      rw [List.cons_append, untilClose, ih h, Option.map_map]
      congr 1
      funext t
      simp [joined, Piece.chars]
    | plain c =>
      rw [List.cons_append, untilClose, if_neg (fun hc => level_of_rise hm hc.2),
        after_of_rise hm, ih h, Option.map_map]
      congr 1

theorem prepend_prepend (s t : List Char) (l : List (List Char)) :
    prepend s (prepend t l) = prepend (s ++ t) l := by
  cases l <;> simp [prepend]

theorem cut_ne_nil (isSep : Char → Bool) (d : Nat) (ps : List Piece) : cut isSep d ps ≠ [] := by
  have hp : ∀ (s : List Char) l, prepend s l ≠ [] := by
    intro s l
    cases l <;> simp [prepend]
  cases ps with
  | nil => simp [cut]
  | cons p ps =>
    cases p with
    | literal cs => exact hp _ _
    | plain c =>
      rw [cut]
      split
      · simp
      · exact hp _ _

theorem prepend_nil_cut (isSep : Char → Bool) (d : Nat) (ps : List Piece) :
    prepend [] (cut isSep d ps) = cut isSep d ps := by
  cases h : cut isSep d ps with
  | nil => exact absurd h (cut_ne_nil isSep d ps)
  | cons q qs => rfl

/-- Pieces inside an open list are not cut. -/
theorem cut_append_of_climb (isSep : Char → Bool) {d e : Nat} {ps : List Piece}
    (h : climb d ps = some e) (qs : List Piece) :
    cut isSep (d + 1) (ps ++ qs) = prepend (joined ps) (cut isSep (e + 1) qs) := by
  induction ps generalizing d with
  | nil =>
    obtain rfl : d = e := by simpa using h
    exact (prepend_nil_cut _ _ _).symm
  | cons p ps ih =>
    rw [climb_cons, Option.bind_eq_some_iff] at h
    obtain ⟨m, hm, h⟩ := h
    cases p with
    | literal cs =>
      obtain rfl : d = m := by simpa [rise] using hm
      rw [List.cons_append, cut, ih h, prepend_prepend]
      rfl
    | plain c =>
      rw [List.cons_append, cut, if_neg (by simp [level_of_rise hm]), after_of_rise hm, ih h,
        prepend_prepend]
      rfl

/-- Pieces without brackets. -/
def Flat (ps : List Piece) : Prop := ∀ c, .plain c ∈ ps → isOpen c = false ∧ isClose c = false

theorem Flat.of_cons {p : Piece} {ps : List Piece} (h : Flat (p :: ps)) : Flat ps :=
  fun c hc => h c (List.mem_cons_of_mem _ hc)

theorem Flat.climb {ps : List Piece} (h : Flat ps) (d : Nat) : climb d ps = some d := by
  induction ps with
  | nil => rfl
  | cons p ps ih =>
    have hp : rise d p = some d := by
      cases p with
      | literal cs => rfl
      | plain c => simp [rise, h c List.mem_cons_self]
    rw [climb_cons, hp, Option.bind_some, ih h.of_cons]

theorem Flat.untilOpen {ps : List Piece} (h : Flat ps) (qs : List Piece) :
    untilOpen 0 (ps ++ .plain '<' :: qs) = some (joined ps, qs) := by
  induction ps with
  | nil => rfl
  | cons p ps ih =>
    cases p with
    | literal cs => rw [List.cons_append, TypeExpr.untilOpen, ih h.of_cons]; rfl
    | plain c =>
      obtain ⟨ho, hc⟩ := h c List.mem_cons_self
      have hne : ¬(c = '<' ∧ (0 : Nat) = 0) := by
        rintro ⟨rfl, -⟩
        simp [isOpen] at ho
      rw [List.cons_append, TypeExpr.untilOpen, if_neg hne]
      simp only [after, ho, hc, Bool.false_eq_true, if_false]
      rw [ih h.of_cons]
      rfl

theorem Flat.untilOpen_eq_none {ps : List Piece} (h : Flat ps) (d : Nat) :
    TypeExpr.untilOpen d ps = none := by
  induction ps generalizing d with
  | nil => rfl
  | cons p ps ih =>
    cases p with
    | literal cs => rw [TypeExpr.untilOpen, ih h.of_cons]; rfl
    | plain c =>
      obtain ⟨ho, -⟩ := h c List.mem_cons_self
      have hne : ¬(c = '<' ∧ d = 0) := by
        rintro ⟨rfl, -⟩
        simp [isOpen] at ho
      rw [TypeExpr.untilOpen, if_neg hne, ih h.of_cons]
      rfl

/-- Pieces among which there is nothing to cut at. -/
def Uncut (isSep : Char → Bool) (ps : List Piece) : Prop := ∀ c, .plain c ∈ ps → isSep c = false

theorem Uncut.of_cons {isSep : Char → Bool} {p : Piece} {ps : List Piece}
    (h : Uncut isSep (p :: ps)) : Uncut isSep ps :=
  fun c hc => h c (List.mem_cons_of_mem _ hc)

theorem Uncut.cut {isSep : Char → Bool} {ps : List Piece} (h : Uncut isSep ps) (d : Nat) :
    cut isSep d ps = [joined ps] := by
  induction ps generalizing d with
  | nil => rfl
  | cons p ps ih =>
    cases p with
    | literal cs => rw [TypeExpr.cut, ih h.of_cons]; rfl
    | plain c =>
      rw [TypeExpr.cut, if_neg (by simp [h c List.mem_cons_self]), ih h.of_cons]
      rfl

theorem Uncut.cut_append {isSep : Char → Bool} {ps : List Piece} (h : Uncut isSep ps)
    (hf : Flat ps) (d : Nat) (qs : List Piece) :
    TypeExpr.cut isSep d (ps ++ qs) = prepend (joined ps) (TypeExpr.cut isSep d qs) := by
  induction ps with
  | nil => exact (prepend_nil_cut _ _ _).symm
  | cons p ps ih =>
    cases p with
    | literal cs =>
      rw [List.cons_append, TypeExpr.cut, ih h.of_cons hf.of_cons, prepend_prepend]
      rfl
    | plain c =>
      obtain ⟨ho, hc⟩ := hf c List.mem_cons_self
      rw [List.cons_append, TypeExpr.cut, if_neg (by simp [h c List.mem_cons_self])]
      simp only [after, ho, hc, Bool.false_eq_true, if_false]
      rw [ih h.of_cons hf.of_cons, prepend_prepend]
      rfl

end TraitTrace.TypeExpr
