/-! Bytes and code points as text. A surrogate is a code point without a character, so that no text
has one. -/

namespace TraitTrace.Text

def utf8? (bytes : List UInt8) : Option String := String.fromUTF8? ⟨bytes.toArray⟩

/-- The character of a code point; a surrogate has none. -/
def charOf? (n : Nat) : Option Char := if n.isValidChar then some (Char.ofNat n) else none

/-- The character that stands for a code point in a text: its own, or the replacement character. -/
def charOf (n : Nat) : Char := (charOf? n).getD '\uFFFD'

@[simp]
theorem charOf?_toNat (c : Char) : charOf? c.toNat = some c := by
  rw [charOf?, if_pos (show c.toNat.isValidChar from c.valid), Char.ofNat_toNat]

@[simp]
theorem charOf_toNat (c : Char) : charOf c.toNat = c := by
  rw [charOf, charOf?_toNat, Option.getD_some]

theorem charOf?_eq_some_iff {n : Nat} {c : Char} : charOf? n = some c ↔ n = c.toNat := by
  constructor
  · intro h
    rw [charOf?] at h
    split at h
    · rename_i hn
      rw [← Option.some.inj h, Char.ofNat, dif_pos hn]
      rfl
    · cases h
  · rintro rfl
    exact charOf?_toNat c

theorem toNat_charOf {n : Nat} (h : (charOf? n).isSome = true) : (charOf n).toNat = n := by
  obtain ⟨c, hc⟩ := Option.isSome_iff_exists.1 h
  rw [charOf, hc, Option.getD_some, charOf?_eq_some_iff.1 hc]

end TraitTrace.Text
