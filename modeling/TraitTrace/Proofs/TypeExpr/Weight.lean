import TraitTrace.TypeExpr.Generic

/-! What an argument is to the type that it stands in: a piece of its text, and one with fewer
characters that are not blank, since the bracket that opens the list is not in it. Blanks do not
count because types are compared without them. Whatever goes from types to their arguments comes to
an end. -/

namespace TraitTrace

namespace Text

theorem prefix_trimRight (p : Char → Bool) (s : List Char) : trimRight p s <+: s := by
  have h := List.reverse_prefix.2 (List.dropWhile_suffix p (l := s.reverse))
  rwa [List.reverse_reverse] at h

theorem infix_strip (s : List Char) : strip s <:+: s :=
  (prefix_trimRight isBlank _).isInfix.trans (List.dropWhile_suffix isBlank).isInfix

/-- The number of characters that are not blank. -/
def weight (s : List Char) : Nat := (squeeze s).length

theorem weight_append (s t : List Char) : weight (s ++ t) = weight s + weight t := by
  rw [weight, squeeze, List.filter_append, List.length_append]
  rfl

theorem weight_cons {c : Char} (h : isBlank c = false) (s : List Char) :
    weight (c :: s) = weight s + 1 := by
  rw [weight, squeeze, List.filter_cons_of_pos (by simp [h]), List.length_cons]
  rfl

theorem weight_le_of_infix {s t : List Char} (h : s <:+: t) : weight s ≤ weight t :=
  (h.filter _).length_le

end Text

namespace TypeExpr

open Text

theorem joined_cons (p : Piece) (ps : List Piece) : joined (p :: ps) = p.chars ++ joined ps :=
  List.flatMap_cons

/-- The first part that pieces are cut into begins their text, and every other one stands in it. -/
theorem infix_cut (isSep : Char → Bool) (d : Nat) (ps : List Piece) :
    ∃ first more, cut isSep d ps = first :: more ∧ first <+: joined ps ∧
      ∀ part ∈ more, part <:+: joined ps := by
  induction ps generalizing d with
  | nil => exact ⟨[], [], rfl, List.nil_prefix, fun part h => absurd h List.not_mem_nil⟩
  | cons p ps ih =>
    -- A piece at which nothing is cut goes to the first part of what follows it.
    have hkept : ∀ d, ∃ first more, prepend p.chars (cut isSep d ps) = first :: more ∧
        first <+: joined (p :: ps) ∧ ∀ part ∈ more, part <:+: joined (p :: ps) := by
      intro d
      obtain ⟨first, more, hcut, hfirst, hmore⟩ := ih d
      refine ⟨p.chars ++ first, more, by rw [hcut, prepend], ?_, fun part hpart => ?_⟩
      · rw [joined_cons]
        exact (List.prefix_append_right_inj _).2 hfirst
      · rw [joined_cons]
        exact (hmore part hpart).trans (List.suffix_append _ _).isInfix
    cases p with
    | literal cs => exact hkept d
    | plain c =>
      rw [cut]
      split
      · obtain ⟨first, more, hcut, hfirst, hmore⟩ := ih (after d c)
        refine ⟨[], first :: more, by rw [hcut], List.nil_prefix, fun part hpart => ?_⟩
        have hpart' : part <:+: joined ps := by
          rcases List.mem_cons.1 hpart with rfl | hpart
          · exact hfirst.isInfix
          · exact hmore part hpart
        exact hpart'.trans (List.suffix_cons c _).isInfix
      · exact hkept (after d c)

theorem infix_of_mem_parts {isSep : Char → Bool} {s part : List Char} (h : part ∈ parts isSep s) :
    part <:+: s := by
  obtain ⟨first, more, hcut, hfirst, hmore⟩ := infix_cut isSep 0 (pieces s)
  rw [joined_pieces] at hfirst hmore
  rw [parts, hcut] at h
  obtain ⟨whole, hwhole, rfl⟩ := List.mem_map.1 (List.mem_filter.1 h).1
  refine (infix_strip whole).trans ?_
  rcases List.mem_cons.1 hwhole with rfl | hwhole
  · exact hfirst.isInfix
  · exact hmore whole hwhole

/-- An argument list stands in what follows its opening bracket, also where it is cut short. -/
theorem prefix_inside (ps : List Piece) : inside ps <+: joined ps := by
  unfold inside
  cases h : untilClose 1 ps with
  | none => exact prefix_trimRight _ _
  | some cs => exact untilClose_initial h

theorem exists_of_mem_generic {s arg : List Char} (h : arg ∈ (generic s).2) :
    ∃ head rest, head ++ '<' :: rest <:+: s ∧ arg <:+: rest := by
  unfold generic at h
  dsimp only at h
  split at h
  · exact absurd h List.not_mem_nil
  · rename_i head ps hopen
    have hs : strip s = head ++ '<' :: joined ps := by
      rw [← joined_of_untilOpen hopen, joined_pieces]
    refine ⟨head, joined ps, ?_, ?_⟩
    · rw [← hs]
      exact infix_strip s
    · exact (infix_of_mem_parts h).trans (prefix_inside ps).isInfix

/-- An argument is a piece of the type's text. -/
theorem infix_of_mem_generic {s arg : List Char} (h : arg ∈ (generic s).2) : arg <:+: s := by
  obtain ⟨head, rest, hs, harg⟩ := exists_of_mem_generic h
  have hrest : rest <:+: head ++ '<' :: rest :=
    ((List.suffix_cons '<' rest).trans (List.suffix_append head _)).isInfix
  exact harg.trans (hrest.trans hs)

/-- An argument has fewer characters that are not blank than the type. -/
theorem weight_lt_of_mem_generic {s arg : List Char} (h : arg ∈ (generic s).2) :
    weight arg < weight s := by
  obtain ⟨head, rest, hs, harg⟩ := exists_of_mem_generic h
  have hopen : weight ('<' :: rest) = weight rest + 1 := weight_cons (by decide) rest
  calc weight arg ≤ weight rest := weight_le_of_infix harg
    _ < weight head + weight ('<' :: rest) := by omega
    _ = weight (head ++ '<' :: rest) := (weight_append head _).symm
    _ ≤ weight s := weight_le_of_infix hs

theorem mem_args_iff {text arg : String} :
    arg ∈ (parseGeneric text).args ↔ arg.toList ∈ (generic text.toList).2 := by
  rw [parseGeneric, List.mem_map]
  constructor
  · rintro ⟨cs, hcs, rfl⟩
    rwa [String.toList_ofList]
  · intro h
    exact ⟨_, h, String.ofList_toList⟩

/-- A type that has another one among its arguments has more characters that are not blank. -/
theorem weight_lt_of_hasTypeArgument {outer inner : String}
    (h : hasTypeArgument outer inner = true) : weight inner.toList < weight outer.toList := by
  obtain ⟨arg, harg, hsame⟩ := List.any_eq_true.1 h
  have hsqueeze : squeeze arg.toList = squeeze inner.toList := by
    simpa [sameType] using hsame
  rw [weight, ← hsqueeze]
  exact weight_lt_of_mem_generic (mem_args_iff.1 harg)

end TypeExpr

end TraitTrace
