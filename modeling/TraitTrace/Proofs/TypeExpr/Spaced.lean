import Mathlib.Data.List.Chain
import TraitTrace.Proofs.TypeExpr.Literals
import TraitTrace.Proofs.TypeExpr.Stripped

/-! Blanks in printed types. No letter stands before a blank in the print of a type, so that the
words of a sentence are not found in it. -/

namespace TraitTrace

namespace Decimal

theorem isBlank_digitChar : ∀ v < 16,
    Text.isBlank v.digitChar = false ∧ Text.isBlank v.digitChar.toUpper = false := by
  decide +kernel

theorem HexDigit.isBlank_eq {c : Char} {v : Nat} (h : HexDigit c v) : Text.isBlank c = false := by
  obtain ⟨hv, rfl | rfl⟩ := h
  · exact (isBlank_digitChar v hv).1
  · exact (isBlank_digitChar v hv).2

end Decimal

namespace TypeExpr

open Text Decimal

/-- A literal that stands for a character. -/
def IsWritten (s : List Char) : Prop := ∃ c w, Writes c w ∧ s = inQuotes w

theorem IsWritten.literal {s : List Char} (h : IsWritten s) : Literal s := by
  obtain ⟨c, w, hw, rfl⟩ := h
  exact hw.literal

/-- Two characters that are not a letter and a blank. -/
def Unspaced (a b : Char) : Prop := isBlank b = true → a.isAlpha = false

instance (a b : Char) : Decidable (Unspaced a b) := inferInstanceAs (Decidable (_ → _))

abbrev Spaced (s : List Char) : Prop := s.IsChain Unspaced

section Spaced

variable {s t : List Char} {c : Char}

theorem spaced_of_noBlank (h : ∀ c ∈ s, isBlank c = false) : Spaced s := by
  induction s with
  | nil => exact .nil
  | cons c s ih =>
    refine List.isChain_cons.2
      ⟨fun d hd hblank => ?_, ih fun d hd => h d (List.mem_cons_of_mem _ hd)⟩
    rw [h d (List.mem_cons_of_mem _ (List.mem_of_head? hd))] at hblank
    cases hblank

/-- A mark that is neither a letter nor blank may stand anywhere. -/
theorem spaced_append_cons (halpha : c.isAlpha = false) (hblank : isBlank c = false)
    (hs : Spaced s) (ht : Spaced t) : Spaced (s ++ c :: t) := by
  refine List.isChain_append.2 ⟨hs, List.isChain_cons.2 ⟨fun _ _ _ => halpha, ht⟩, ?_⟩
  intro a _ b hb hb'
  cases hb
  rw [hblank] at hb'
  cases hb'

theorem isAlpha_of_isBlank (h : isBlank c = true) : c.isAlpha = false := by
  obtain ⟨hname, -, -⟩ := isDelimiter_iff.1 (isDelimiter_of_isBlank h)
  rw [isNameChar, Char.isAlphanum, Bool.or_eq_false_iff, Bool.or_eq_false_iff] at hname
  exact hname.1.1

theorem spaced_gap (g : Gap) (hs : Spaced s) : Spaced (g.chars ++ s) := by
  have hblank := g.all_blank
  generalize g.chars = chars at hblank ⊢
  induction chars with
  | nil => exact hs
  | cons c chars ih =>
    exact List.isChain_cons.2 ⟨fun _ _ _ => isAlpha_of_isBlank (hblank c List.mem_cons_self),
      ih fun d hd => hblank d (List.mem_cons_of_mem _ hd)⟩

theorem Word.spaced (h : Word s) : Spaced s := spaced_of_noBlank fun _ hc => h.isBlank_eq hc

/-- Only a character that stands for itself may be blank. -/
theorem IsWritten.spaced (h : IsWritten s) : Spaced s := by
  obtain ⟨c, w, hw, rfl⟩ := h
  have hquoted : ∀ {w : List Char}, Spaced w → Spaced (inQuotes w) := fun hw =>
    spaced_append_cons (s := []) (by decide) (by decide) .nil
      (spaced_append_cons (by decide) (by decide) hw .nil)
  refine hquoted ?_
  cases hw with
  | raw _ _ => exact .singleton c
  | @short e he =>
    refine spaced_of_noBlank fun d hd => ?_
    have hshort : shortEscapes.all (fun p => !isBlank p.1) = true := by decide
    rcases List.mem_cons.1 hd with rfl | hd
    · decide
    · rw [List.mem_singleton.1 hd]
      simpa using List.all_eq_true.1 hshort _ he
  | byte ha hb _ =>
    refine spaced_of_noBlank fun d hd => ?_
    simp only [List.mem_cons, List.not_mem_nil, or_false] at hd
    rcases hd with rfl | rfl | rfl | rfl
    · decide
    · decide
    · exact ha.isBlank_eq
    · exact hb.isBlank_eq
  | @code ds vs _ hds _ =>
    have hdigits := forall_of_hexDigits (fun _ _ hd => hd.isBlank_eq) hds
    refine spaced_of_noBlank fun d hd => ?_
    simp only [List.mem_cons, List.mem_append, List.not_mem_nil, or_false] at hd
    rcases hd with rfl | rfl | rfl | hd | rfl
    · decide
    · decide
    · decide
    · exact hdigits d hd
    · decide

end Spaced

section Types

variable {p : Head → Prop}

mutual

theorem Tree.spaced_print : ∀ t : Tree, t.Forall p IsWritten → Spaced t.print
  | .leaf head, _ => head.word.spaced
  | .applied head args, h =>
    spaced_append_cons (by decide) (by decide) head.word.spaced
      (spaced_append_cons (by decide) (by decide) (args.spaced_print h.2) .nil)
  | .lifetime name, _ =>
    spaced_append_cons (s := []) (by decide) (by decide) .nil name.word.spaced
  | .literal _ _, h => h.spaced
  | .group bracket items, h =>
    spaced_append_cons (s := []) (by cases bracket <;> decide) (by cases bracket <;> decide) .nil
      (spaced_append_cons (by cases bracket <;> decide) (by cases bracket <;> decide)
        (items.spaced_print h) .nil)

theorem Trees.spaced_print : ∀ ts : Trees, ts.Forall p IsWritten → Spaced ts.print
  | .nil, _ => .nil
  | .last t, h => t.spaced_print h
  | .more t gap rest, h =>
    spaced_append_cons (by decide) (by decide) (t.spaced_print h.1)
      (spaced_gap gap (rest.spaced_print h.2))

end

/-- Words with a letter before a blank do not stand in a type. -/
theorem Tree.not_infix_print {t : Tree} (h : t.Forall p IsWritten) {words : List Char}
    (hwords : ¬Spaced words) : ¬words <:+: t.print :=
  fun hi => hwords ( List.IsChain.infix (t.spaced_print h) hi)

end Types

end TypeExpr

end TraitTrace
