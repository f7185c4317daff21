import TraitTrace.Proofs.TypeExpr.Pieces

/-! Printed types with two arguments. The brackets at the end of such a type may be missing: the
argument list then goes to the end of the text, and closing brackets that are there but close
nothing are dropped. -/

namespace TraitTrace.TypeExpr

open Text

/-- Neither a quote nor a bracket, a comma or a blank. -/
def isWordChar (c : Char) : Bool :=
  c != '\'' && c != ',' && !isOpen c && !isClose c && !isBlank c

theorem isWordChar_iff {c : Char} : isWordChar c = true ↔
    c ≠ '\'' ∧ c ≠ ',' ∧ isOpen c = false ∧ isClose c = false ∧ isBlank c = false := by
  simp [isWordChar, and_assoc]

/-- A name, a number or the like. -/
structure Word (s : List Char) : Prop where
  ne_nil : s ≠ []
  all_chars : s.all isWordChar = true

/-- A text that stands as one argument before a comma. -/
structure Argument (s : List Char) : Prop where
  whole : Whole s
  ne_nil : s ≠ []
  strip_eq : strip s = s
  climb_eq : climb 0 (pieces s) = some 0
  cut_append : ∀ qs, cut (· == ',') 0 (pieces s ++ qs) = prepend s (cut (· == ',') 0 qs)

/-- A text that stands as one argument at the end. -/
structure LastArgument (s : List Char) : Prop where
  ne_nil : s ≠ []
  strip_eq : strip s = s
  cut_eq : cut (· == ',') 0 (pieces s) = [s]

namespace Word

variable {s : List Char}

theorem char_spec (h : Word s) {c : Char} (hc : c ∈ s) :
    c ≠ '\'' ∧ c ≠ ',' ∧ isOpen c = false ∧ isClose c = false ∧ isBlank c = false :=
  isWordChar_iff.1 (List.all_eq_true.1 h.all_chars c hc)

theorem isBlank_eq (h : Word s) {c : Char} (hc : c ∈ s) : isBlank c = false :=
  (h.char_spec hc).2.2.2.2

theorem noQuote (h : Word s) : '\'' ∉ s := fun hc => (h.char_spec hc).1 rfl

theorem mem_of_plain (h : Word s) {c : Char} (hc : .plain c ∈ pieces s) : c ∈ s := by
  rw [pieces_of_noQuote h.noQuote] at hc
  simpa using hc

theorem strip_eq (h : Word s) : strip s = s :=
  strip_eq_self (fun _ hc => h.isBlank_eq (List.mem_of_head? hc))
    (fun _ hc => h.isBlank_eq (List.mem_of_getLast? hc))

theorem flat (h : Word s) : Flat (pieces s) := by
  intro c hc
  obtain ⟨-, -, hopen, hclose, -⟩ := h.char_spec (h.mem_of_plain hc)
  exact ⟨hopen, hclose⟩

theorem uncut (h : Word s) : Uncut (· == ',') (pieces s) := by
  intro c hc
  exact beq_false_of_ne (h.char_spec (h.mem_of_plain hc)).2.1

theorem whole (h : Word s) : Whole s := whole_of_noQuote h.noQuote

theorem argument (h : Word s) : Argument s where
  whole := h.whole
  ne_nil := h.ne_nil
  strip_eq := h.strip_eq
  climb_eq := h.flat.climb 0
  cut_append qs := by rw [h.uncut.cut_append h.flat, joined_pieces]

theorem lastArgument (h : Word s) : LastArgument s where
  ne_nil := h.ne_nil
  strip_eq := h.strip_eq
  cut_eq := by rw [h.uncut.cut, joined_pieces]

theorem generic (h : Word s) : generic s = (s, []) := by
  rw [TypeExpr.generic, h.strip_eq, h.flat.untilOpen_eq_none]

end Word

theorem Literal.argument {s : List Char} (h : Literal s) (hs : strip s = s) : Argument s where
  whole := h.whole
  ne_nil := h.1
  strip_eq := hs
  climb_eq := by rw [h.pieces]; rfl
  cut_append qs := by
    rw [h.pieces, List.singleton_append, cut]

theorem pieces_closers (n : Nat) :
    pieces (List.replicate n '>') = List.replicate n (.plain '>') := by
  rw [pieces_of_noQuote (by simp), List.map_replicate]

/-- Of the brackets after an open list, one closes it if there are more than lists open in it. -/
theorem untilClose_closers (d n : Nat) :
    untilClose (d + 1) (List.replicate n (.plain '>')) =
      if d < n then some (List.replicate d '>') else none := by
  induction n generalizing d with
  | zero => rfl
  | succ n ih =>
    rw [List.replicate_succ, untilClose]
    cases d with
    | zero => simp [isClose, level]
    | succ d =>
      have ha : after (d + 1 + 1) '>' = d + 1 := rfl
      rw [if_neg (by simp [isClose, level]), ha, ih]
      split <;> simp_all [List.replicate_succ]

/-- The last character of a text is there, is no blank and closes no list. -/
def EndsOpen (s : List Char) : Prop := ∃ c, s.getLast? = some c ∧ c ≠ '>' ∧ isBlank c = false

theorem EndsOpen.append {t : List Char} (h : EndsOpen t) (s : List Char) : EndsOpen (s ++ t) := by
  obtain ⟨c, hl, hc⟩ := h
  exact ⟨c, by rw [List.getLast?_append, hl, Option.some_or], hc⟩

theorem EndsOpen.cons {t : List Char} (h : EndsOpen t) (c : Char) : EndsOpen (c :: t) :=
  h.append [c]

theorem Word.endsOpen {s : List Char} (h : Word s) : EndsOpen s := by
  refine ⟨s.getLast h.ne_nil, List.getLast?_eq_some_getLast h.ne_nil, ?_, ?_⟩
  · intro hc
    have hclose := (h.char_spec (List.getLast_mem h.ne_nil)).2.2.2.1
    rw [hc] at hclose
    cases hclose
  · exact h.isBlank_eq (List.getLast_mem h.ne_nil)

section Closers

variable {head s : List Char} {d : Nat}

theorem inside_closers (hw : Whole s) (hc : climb 0 (pieces s) = some d) (he : EndsOpen s)
    (closers : Nat) :
    inside (pieces (s ++ List.replicate closers '>')) =
      s ++ List.replicate (if d < closers then d else 0) '>' := by
  rw [inside, joined_pieces, hw, pieces_closers, ← Nat.zero_add 1, untilClose_append hc,
    untilClose_closers]
  split
  · simp
  · obtain ⟨c, hl, hne, -⟩ := he
    have hs : trimRight (· == '>') s = s := trimRight_eq_self fun b hb => by
      rw [hl, Option.some.injEq] at hb
      simpa [← hb] using hne
    simp [trimRight_append_replicate, hs]

theorem strip_closers (hh : Word head) (he : EndsOpen s) (closers : Nat) :
    strip (head ++ '<' :: (s ++ List.replicate closers '>')) =
      head ++ '<' :: (s ++ List.replicate closers '>') := by
  obtain ⟨b, bs, rfl⟩ := List.exists_cons_of_ne_nil hh.ne_nil
  obtain ⟨c, hl, -, hb⟩ := he
  refine strip_eq_self ?_ ?_
  · intro x hx
    obtain rfl : b = x := by simpa using hx
    exact hh.isBlank_eq List.mem_cons_self
  · intro x hx
    rw [List.getLast?_append, List.getLast?_cons, List.getLast?_append, hl] at hx
    cases closers with
    | zero =>
      obtain rfl : c = x := by simpa using hx
      exact hb
    | succ n =>
      obtain rfl : '>' = x := by simpa [List.getLast?_replicate] using hx
      rfl

/-- What a head and an open list give, however many brackets close it. -/
theorem generic_closers (hh : Word head) (hw : Whole s) (hc : climb 0 (pieces s) = some d)
    (he : EndsOpen s) (closers : Nat) :
    generic (head ++ '<' :: (s ++ List.replicate closers '>')) =
      (head, parts (· == ',') (s ++ List.replicate (if d < closers then d else 0) '>')) := by
  have ho := hh.flat.untilOpen (pieces (s ++ List.replicate closers '>'))
  rw [joined_pieces, ← pieces_cons (by decide), ← hh.whole] at ho
  rw [generic, strip_closers hh he, ho]
  simp only [hh.strip_eq, inside_closers hw hc he]

theorem cut_closers (hh : Word head) (hw : Whole s) (hc : climb 0 (pieces s) = some d)
    (closers : Nat) :
    cut (· == ',') 0 (pieces (head ++ '<' :: (s ++ List.replicate closers '>'))) =
      [head ++ '<' :: (s ++ List.replicate closers '>')] := by
  have hu : Uncut (· == ',') (List.replicate closers (.plain '>')) := by
    intro c hm
    obtain ⟨-, hm⟩ := List.mem_replicate.1 hm
    cases hm
    rfl
  have ha : after 0 '<' = 0 + 1 := rfl
  rw [hh.whole, pieces_cons (by decide), hw, pieces_closers, hh.argument.cut_append, cut,
    if_neg (by decide), ha, cut_append_of_climb _ hc, hu.cut, ← pieces_closers, joined_pieces,
    joined_pieces]
  simp [prepend]

theorem lastArgument_closers (hh : Word head) (hw : Whole s) (hc : climb 0 (pieces s) = some d)
    (he : EndsOpen s) (closers : Nat) :
    LastArgument (head ++ '<' :: (s ++ List.replicate closers '>')) where
  ne_nil := by simp
  strip_eq := strip_closers hh he closers
  cut_eq := cut_closers hh hw hc closers

end Closers

section Pair

variable {s rest : List Char}

theorem parts_pair (hs : Argument s) (hr : LastArgument rest) :
    parts (· == ',') (s ++ ',' :: ' ' :: rest) = [s, rest] := by
  have hblank : strip (' ' :: rest) = rest := by
    rw [strip_cons_of_isBlank (by decide), hr.strip_eq]
  have ha : after (after 0 ',') ' ' = 0 := rfl
  rw [parts, hs.whole, pieces_cons (by decide), pieces_cons (by decide), hs.cut_append, cut,
    if_pos (by decide), cut, if_neg (by decide), ha, hr.cut_eq]
  simp [prepend, hs.strip_eq, hblank, hs.ne_nil, hr.ne_nil]

theorem whole_pair (hs : Argument s) (hr : Whole rest) : Whole (s ++ ',' :: ' ' :: rest) :=
  hs.whole.append ((hr.cons (by decide)).cons (by decide))

theorem climb_pair (hs : Argument s) (rest : List Char) :
    climb 0 (pieces (s ++ ',' :: ' ' :: rest)) = climb 0 (pieces rest) := by
  rw [hs.whole, pieces_cons (by decide), pieces_cons (by decide), climb_append, hs.climb_eq]
  rfl

end Pair

theorem climb_open {head s : List Char} {d : Nat} (hh : Word head)
    (hc : climb 0 (pieces s) = some d) : climb 0 (pieces (head ++ '<' :: s)) = some (d + 1) := by
  rw [hh.whole, pieces_cons (by decide), climb_append, hh.argument.climb_eq]
  exact climb_succ hc

end TraitTrace.TypeExpr
