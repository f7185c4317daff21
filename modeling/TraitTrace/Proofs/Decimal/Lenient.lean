import Mathlib.Data.List.TakeWhile
import TraitTrace.Decimal.Lenient
import TraitTrace.Proofs.Decimal.Digits

/-! Integers read the lenient way. Whatever stands in the text of one is a blank, a sign, part of the
mark of its base, an underscore or a digit, and the number is below the power of the base of the
number of its characters. -/

namespace TraitTrace.Decimal

theorem digitIn?_underscore (base : Nat) : digitIn? base '_' = none := by
  have hvalue : hexValue? '_' = none := by decide +kernel
  rw [digitIn?, hvalue]
  rfl

/-- The values of a run are those of its characters, without the underscores between them. -/
theorem map_digitRun? {value? : Char → Option Nat} {s : List Char} {ds : List Nat}
    (hvalue : value? '_' = none) (h : digitRun? value? s = some ds) :
    (s.filter (· != '_')).map value? = ds.map some := by
  have hdigit : ∀ {c : Char} {d : Nat}, value? c = some d → c ≠ '_' := by
    rintro c d hd rfl
    cases hvalue.symm.trans hd
  have hcons : ∀ {c : Char} {rest : List Char} {ds : List Nat},
      (∀ {ds}, digitRun? value? rest = some ds →
        (rest.filter (· != '_')).map value? = ds.map some) →
      (do let d ← value? c; let ds ← digitRun? value? rest; return d :: ds) = some ds →
      ((c :: rest).filter (· != '_')).map value? = ds.map some := by
    intro c rest ds ih h
    obtain ⟨d, hd, h⟩ := Option.bind_eq_some_iff.1 h
    obtain ⟨more, hmore, h⟩ := Option.bind_eq_some_iff.1 h
    obtain rfl := Option.some.inj h
    simp [hdigit hd, hd, ih hmore]
  fun_induction digitRun? value? s generalizing ds with
  | case1 => cases h
  | case2 c =>
    obtain ⟨d, hd, rfl⟩ := Option.map_eq_some_iff.1 h
    simp [hdigit hd, hd]
  | case3 c rest ih =>
    have hskip : (c :: '_' :: rest).filter (· != '_') = (c :: rest).filter (· != '_') := by
      simp [List.filter_cons]
    rw [hskip]
    exact hcons ih h
  | case4 c rest _ _ ih => exact hcons ih h

/-- A blank, a sign, a zero or the letter of the base's mark, an underscore, or a digit. -/
def IsNumeralChar (base : Nat) (c : Char) : Prop :=
  isNumeralBlank c = true ∨ c ∈ ['-', '+', '0', '_'] ∨ baseMark? base = some c.toLower ∨
    (digitIn? base c).isSome = true

section Members

variable {s : List Char} {c : Char}

theorem mem_trimmed (h : c ∈ s) : isNumeralBlank c = true ∨ c ∈ trimmed s := by
  have hside : ∀ {s : List Char}, c ∈ s → isNumeralBlank c = true ∨
      c ∈ s.dropWhile isNumeralBlank := by
    intro s h
    rw [← List.takeWhile_append_dropWhile (p := isNumeralBlank) (l := s), List.mem_append] at h
    exact h.imp_left List.mem_takeWhile_imp
  rcases hside h with hblank | hleft
  · exact .inl hblank
  · exact (hside (List.mem_reverse.2 hleft)).imp_right List.mem_reverse.2

theorem mem_takeSign (h : c ∈ s) : c ∈ ['-', '+'] ∨ c ∈ (takeSign s).2 := by
  unfold takeSign
  split
  · exact (List.mem_cons.1 h).imp_left fun hc => by simp [hc]
  · exact (List.mem_cons.1 h).imp_left fun hc => by simp [hc]
  · exact .inr h

theorem mem_dropMark {base : Nat} (h : c ∈ s) :
    c ∈ ['0', '_'] ∨ baseMark? base = some c.toLower ∨ c ∈ dropMark base s := by
  unfold dropMark
  split
  · rename_i m rest
    split
    · rename_i hm
      rcases List.mem_cons.1 h with rfl | h
      · exact .inl List.mem_cons_self
      rcases List.mem_cons.1 h with rfl | h
      · exact .inr (.inl hm)
      split
      · rcases List.mem_cons.1 h with rfl | h
        · exact .inl (by decide)
        · exact .inr (.inr h)
      · exact .inr (.inr h)
    · exact .inr (.inr h)
  · exact .inr (.inr h)

theorem isNumeralChar_of_mem {base : Nat} {n : Int} (h : lenientInt? base s = some n)
    (hc : c ∈ s) : IsNumeralChar base c := by
  obtain ⟨ds, hds, -⟩ := Option.map_eq_some_iff.1 h
  have hvalues := map_digitRun? (digitIn?_underscore base) hds
  rcases mem_trimmed hc with hblank | hc
  · exact .inl hblank
  rcases mem_takeSign hc with hsign | hc
  · exact .inr (.inl (List.mem_append_left ['0', '_'] hsign))
  rcases @mem_dropMark _ _ base hc with hmark | hmark | hc
  · exact .inr (.inl (List.mem_append_right ['-', '+'] hmark))
  · exact .inr (.inr (.inl hmark))
  · by_cases hunderscore : c = '_'
    · exact .inr (.inl (by simp [hunderscore]))
    · have hdigit : c ∈ (dropMark base (takeSign (trimmed s)).2).filter (· != '_') :=
        List.mem_filter.2 ⟨hc, by simpa using hunderscore⟩
      obtain ⟨d, -, hd⟩ := List.mem_map.1 (hvalues ▸ List.mem_map_of_mem hdigit)
      exact .inr (.inr (.inr (by rw [← hd]; rfl)))

end Members

/-- No brace stands in a hexadecimal number. -/
theorem brace_not_mem {s : List Char} {n : Int} (h : lenientInt? 16 s = some n) : '}' ∉ s := by
  have hno : ¬IsNumeralChar 16 '}' := by
    unfold IsNumeralChar
    decide +kernel
  exact fun hc => hno (isNumeralChar_of_mem h hc)

end TraitTrace.Decimal
