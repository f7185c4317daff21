import TraitTrace.Proofs.Json.RoundTrip

/-! Printed JSON is put together from text literals and from characters of printable ASCII that are
no backslash. So it is printable ASCII throughout, is one line and has no terminal code in it. -/

namespace TraitTrace.Json

open Decimal

instance (c : Char) : Decidable (IsPrintable c) :=
  inferInstanceAs (Decidable (0x20 ≤ c.toNat ∧ c.toNat ≤ 0x7E))

/-- Whether a character is printable and begins no escape. -/
def isPlain (c : Char) : Bool := decide (IsPrintable c) && c != '\\'

/-- What holds of text literals and of plain characters, and of what is put together from texts of
which it holds. -/
structure Composes (P : List Char → Prop) : Prop where
  nil : P []
  append {s t : List Char} : P s → P t → P (s ++ t)
  plain {c : Char} : isPlain c = true → P [c]
  quoted (s : String) : P (quoteChars true s)

theorem isPlain_of_isDigit {c : Char} (h : c.isDigit = true) : isPlain c = true := by
  have hdigit : ∀ v < 10, isPlain v.digitChar = true := by decide +kernel
  obtain ⟨v, hv, rfl⟩ := eq_digitChar_of_isDigit h
  exact hdigit v hv

namespace Composes

variable {P : List Char → Prop}

theorem cons (h : Composes P) {c : Char} {s : List Char} (hc : isPlain c = true) (hs : P s) :
    P (c :: s) := h.append (h.plain hc) hs

theorem of_plain (h : Composes P) {s : List Char} (hs : s.all isPlain = true) : P s := by
  induction s with
  | nil => exact h.nil
  | cons c s ih =>
    obtain ⟨hc, hs⟩ := Bool.and_eq_true_iff.1 hs
    exact h.cons hc (ih hs)

theorem of_digits (h : Composes P) {ds : List Char} (hds : ∀ c ∈ ds, c.isDigit = true) : P ds :=
  h.of_plain (List.all_eq_true.2 fun c hc => isPlain_of_isDigit (hds c hc))

theorem sign (h : Composes P) (negative : Bool) : P (Json.sign negative) := by
  cases negative <;> exact h.of_plain (by decide)

theorem marked (h : Composes P) (n : Marked) : P n.text := by
  obtain ⟨whole, fraction, exponent, hwhole, hfraction, hexponent, -⟩ := n
  refine h.append ?_ (h.append ?_ ?_)
  · rcases hwhole with rfl | ⟨hdigits, -⟩
    · exact h.plain (c := '0') (by decide)
    · exact h.of_digits hdigits
  · cases fraction with
    | nil => exact h.nil
    | cons d ds => exact h.cons (by decide) (h.of_digits hfraction)
  · cases exponent with
    | none => exact h.nil
    | some e =>
      refine h.cons (by decide) (h.cons ?_ (h.of_digits (hexponent e rfl).2))
      cases e.1 <;> decide

theorem double (h : Composes P) (bits : UInt64) : P (Decimal.text floatNames bits).toList := by
  rcases toList_text floatNames bits with heq | heq | ⟨n, heq⟩
  · rw [heq]
    exact h.of_plain (by decide)
  · rw [heq]
    cases isNegative bits <;> exact h.of_plain (by decide)
  · rw [heq]
    exact h.append (h.sign (isNegative bits)) (h.marked n)

mutual

theorem chars (h : Composes P) : ∀ v : Json, P (v.chars .spaced)
  | .null | .bool true | .bool false => h.of_plain (by decide)
  | .int n => by
    rw [Json.chars, toList_int]
    exact h.append (h.sign _) (h.of_digits fun c hc => isDigit_of_mem_toDigits hc)
  | .float bits => h.double bits
  | .str s => h.quoted s
  | .arr vs => h.cons (by decide) (h.append (h.items vs) (h.plain (by decide)))
  | .obj ms => h.cons (by decide) (h.append (h.members ms) (h.plain (by decide)))

theorem items (h : Composes P) : ∀ vs : List Json, P (itemChars .spaced vs)
  | [] => h.nil
  | [v] => h.chars v
  | v :: w :: vs => by
    rw [itemChars_cons]
    exact h.append (h.chars v) (h.cons (by decide) (h.cons (by decide) (h.items (w :: vs))))

theorem members (h : Composes P) : ∀ ms : Members, P (memberChars .spaced ms)
  | [] => h.nil
  | [(k, v)] => by
    rw [memberChars_singleton]
    exact h.append (h.quoted k) (h.cons (by decide) (h.cons (by decide) (h.chars v)))
  | (k, v) :: (l, w) :: ms => by
    rw [memberChars_cons]
    have hrest := h.cons (c := ',') (by decide) (h.cons (c := ' ') (by decide)
      (h.members ((l, w) :: ms)))
    exact h.append (h.quoted k)
      (h.cons (by decide) (h.cons (by decide) (h.append (h.chars v) hrest)))

end

theorem render (h : Composes P) (v : Json) : P (v.render .spaced).toList := by
  rw [Json.render, String.toList_ofList]
  exact h.chars v

end Composes

/-- Texts of printable characters only. -/
def Printable (s : List Char) : Prop := ∀ c ∈ s, IsPrintable c

theorem composes_printable : Composes Printable where
  nil := nofun
  append := fun h h' => List.forall_mem_append.2 ⟨h, h'⟩
  plain := fun h => List.forall_mem_singleton.2 (of_decide_eq_true (Bool.and_eq_true_iff.1 h).1)
  quoted := fun _ _ => isPrintable_quoteChars

theorem printable_render (v : Json) : Printable (v.render .spaced).toList :=
  composes_printable.render v

end TraitTrace.Json
