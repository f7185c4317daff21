import Mathlib.Algebra.Group.Nat.Defs
import Mathlib.Data.List.Induction
import TraitTrace.Decimal.Numeral

/-! Decimal digits of a number: which characters they are, what comes first, and that they have the
number for their value. -/

namespace TraitTrace.Decimal

theorem eq_digitChar_of_isDigit {c : Char} (h : c.isDigit = true) :
    ∃ v < 10, c = v.digitChar := by
  obtain ⟨hlow, hhigh⟩ : 48 ≤ c.toNat ∧ c.toNat ≤ 57 := by
    simpa [Char.isDigit_iff_toNat] using h
  have hv : c.toNat - 48 < 10 := by omega
  refine ⟨c.toNat - 48, hv, ?_⟩
  apply Char.toNat_inj.1
  rw [Nat.toNat_digitChar_of_lt_ten hv]
  omega

theorem isDigit_of_mem_toDigits {n : Nat} {c : Char} (h : c ∈ Nat.toDigits 10 n) :
    c.isDigit = true := Nat.isDigit_of_mem_toDigits (by decide) (by decide) h

theorem mem_toDigits {n : Nat} {c : Char} (h : c ∈ Nat.toDigits 10 n) :
    ∃ v < 10, c = v.digitChar :=
  eq_digitChar_of_isDigit (isDigit_of_mem_toDigits h)

theorem nat_toDigits (n : Nat) : nat 10 ((Nat.toDigits 10 n).map fun c => c.toNat - 48) = n :=
  calc nat 10 ((Nat.toDigits 10 n).map fun c => c.toNat - 48)
      = Nat.ofDigitChars 10 (Nat.toDigits 10 n) 0 := by
        rw [nat, List.foldl_map, Nat.ofDigitChars_eq_foldl]
        simp [Nat.mul_comm]
    _ = n := Nat.ofDigitChars_ten_toDigits

theorem filterMap_asciiDigit? {ds : List Char} (h : ∀ c ∈ ds, c.isDigit = true) :
    ds.filterMap asciiDigit? = ds.map fun c => c.toNat - 48 := by
  have hvalue : ∀ v < 10, asciiDigit? v.digitChar = some (v.digitChar.toNat - 48) := by decide
  induction ds with
  | nil => rfl
  | cons c ds ih =>
    obtain ⟨v, hv, hc⟩ := eq_digitChar_of_isDigit (h c List.mem_cons_self)
    rw [List.filterMap_cons, hc, hvalue v hv, List.map_cons,
      ih fun o ho => h o (List.mem_cons_of_mem c ho)]

/-- Digits stand for less than the power of the base of their number. -/
theorem nat_lt_pow {base : Nat} {ds : List Nat} (h : ∀ d ∈ ds, d < base) :
    nat base ds < base ^ ds.length := by
  induction ds using List.reverseRecOn with
  | nil => exact Nat.one_pos
  | append_singleton ds d ih =>
    have hinit := ih fun o ho => h o (List.mem_append_left _ ho)
    have hlast := h d (by simp)
    rw [nat_append_singleton, List.length_append, List.length_singleton, Nat.pow_succ]
    calc nat base ds * base + d < nat base ds * base + base := by omega
      _ = (nat base ds + 1) * base := (Nat.succ_mul _ _).symm
      _ ≤ base ^ ds.length * base := Nat.mul_le_mul_right _ hinit

/-- The digits of a number other than zero do not start with a zero. -/
theorem head?_toDigits {n : Nat} (hn : n ≠ 0) :
    ∃ c t, Nat.toDigits 10 n = c :: t ∧ c ≠ '0' := by
  induction n using Nat.strongRecOn with
  | ind n ih =>
    by_cases hlt : n < 10
    · have hdigit : ∀ v < 10, v ≠ 0 → v.digitChar ≠ '0' := by decide
      exact ⟨n.digitChar, [], Nat.toDigits_of_lt_base hlt, hdigit n hlt hn⟩
    · obtain ⟨c, t, ht, hc⟩ := ih (n / 10) (by omega) (by omega)
      refine ⟨c, t ++ [(n % 10).digitChar], ?_, hc⟩
      rw [Nat.toDigits_of_base_le (by decide) (by omega), ht]
      rfl

end TraitTrace.Decimal
