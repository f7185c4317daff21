import TraitTrace.Json.Parser
import TraitTrace.Json.Printer
import TraitTrace.Proofs.Decimal.Shortest

/-! Numbers in JSON. What may follow a number does not go on with it, so that the text of an integer
of few enough digits is read as this integer, and the text of a double as some double. -/

namespace TraitTrace.Json

open Decimal

/-- What follows a number. -/
def EndsNumber (s : List Char) : Prop :=
  ∀ c, s.head? = some c → c.isDigit = false ∧ c ∉ ['.', 'e', 'E']

theorem endsNumber_nil : EndsNumber [] := nofun

theorem endsNumber_cons {c : Char} {s : List Char}
    (h : c.isDigit = false ∧ c ∉ ['.', 'e', 'E']) : EndsNumber (c :: s) := by
  intro o ho
  obtain rfl := Option.some.inj ho
  exact h

/-- A run of digits ends before what is no digit. -/
theorem digits_append {ds s : List Char} (hd : ∀ c ∈ ds, c.isDigit = true)
    (hs : ∀ c, s.head? = some c → c.isDigit = false) : digits (ds ++ s) = (ds, s) := by
  have htake : s.takeWhile Char.isDigit = [] := by
    cases s with
    | nil => rfl
    | cons c s => rw [List.takeWhile_cons, hs c rfl, if_neg Bool.false_ne_true]
  have hdrop : s.dropWhile Char.isDigit = s := by
    cases s with
    | nil => rfl
    | cons c s => rw [List.dropWhile_cons, hs c rfl, if_neg Bool.false_ne_true]
  rw [digits, List.takeWhile_append_of_pos hd, List.dropWhile_append_of_pos hd, htake, hdrop,
    List.append_nil]

theorem whole?_append {ds s : List Char} (hd : IsWhole ds)
    (hs : ∀ c, s.head? = some c → c.isDigit = false) : whole? (ds ++ s) = some (ds, s) := by
  obtain rfl | ⟨hdigits, c, t, rfl, hc⟩ := hd
  · rfl
  · have hrun := digits_append hdigits hs
    rw [List.cons_append] at hrun ⊢
    unfold whole?
    split
    · rename_i heq
      exact absurd (List.cons.inj heq).1 hc
    · rw [hrun]

theorem fraction_append {fs s : List Char} (hd : ∀ c ∈ fs, c.isDigit = true)
    (hs : ∀ c, s.head? = some c → c.isDigit = false ∧ c ≠ '.') :
    fraction (Marked.fractionText fs ++ s) = (fs, s) := by
  cases fs with
  | nil =>
    unfold fraction
    split
    · rename_i heq
      exact absurd rfl (hs '.' (by rw [show s = _ from heq]; rfl)).2
    · rfl
  | cons c fs =>
    have hrun := digits_append hd fun o ho => (hs o ho).1
    rw [Marked.fractionText, List.cons_append]
    simp only [fraction, hrun]

/-- There is no exponent where a number ends. -/
theorem exponent?_eq_none {s : List Char} (hs : EndsNumber s) : exponent? s = none := by
  cases s with
  | nil => rfl
  | cons c s =>
    have hc := (hs c rfl).2
    simp only [List.mem_cons, List.not_mem_nil, or_false, not_or] at hc
    rw [exponent?, if_neg (by simp [hc])]

def exponentValue (negative : Bool) (es : List Char) : Int :=
  let n : Int := nat 10 (es.filterMap asciiDigit?)
  if negative then -n else n

theorem exponent?_append {negative : Bool} {es s : List Char} (hne : es ≠ [])
    (hd : ∀ c ∈ es, c.isDigit = true) (hs : EndsNumber s) :
    exponent? (Marked.exponentText (some (negative, es)) ++ s) =
      some (exponentValue negative es, s) := by
  have hrun := digits_append hd fun o ho => (hs o ho).1
  obtain ⟨c, more, rfl⟩ := List.exists_cons_of_ne_nil hne
  rw [List.cons_append] at hrun
  cases negative
  · simp [Marked.exponentText, exponent?, takeSign, hrun, exponentValue]
  · simp [Marked.exponentText, exponent?, takeSign, hrun, exponentValue]

/-- The double that a marked numeral is read as. -/
def markedBits (negative : Bool) (n : Marked) : UInt64 :=
  nearestBits negative (nat 10 ((n.whole ++ n.fraction).filterMap asciiDigit?))
    ((n.exponent.map fun e => exponentValue e.1 e.2).getD 0 - n.fraction.length)

theorem number_marked (start : Nat) (negative : Bool) (n : Marked) {s : List Char}
    (hs : EndsNumber s) :
    number start negative (n.text ++ s) = .ok (.float (markedBits negative n), s) := by
  obtain ⟨whole, fs, e, hwhole, hfs, hpower, hmarked⟩ := n
  have hexponent : exponent? (Marked.exponentText e ++ s) =
      e.map fun e => (exponentValue e.1 e.2, s) := by
    cases e with
    | none => exact exponent?_eq_none hs
    | some e => exact exponent?_append (hpower e rfl).1 (hpower e rfl).2 hs
  have hend : ∀ c, (Marked.exponentText e ++ s).head? = some c → c.isDigit = false ∧ c ≠ '.' := by
    intro c hc
    cases e with
    | none =>
      have hstop := hs c hc
      exact ⟨hstop.1, fun h => hstop.2 (by simp [h])⟩
    | some e =>
      obtain rfl := Option.some.inj hc
      decide
  have hfraction := fraction_append hfs hend
  have hhead : ∀ c, (Marked.fractionText fs ++ (Marked.exponentText e ++ s)).head? = some c →
      c.isDigit = false := by
    intro c hc
    cases fs with
    | nil => exact (hend c hc).1
    | cons f fs =>
      obtain rfl := Option.some.inj hc
      rfl
  have hw := whole?_append hwhole hhead
  rw [Marked.text, List.append_assoc, List.append_assoc]
  simp only [number, hw, hfraction, hexponent]
  cases e with
  | none =>
    obtain ⟨c, fs, rfl⟩ := List.exists_cons_of_ne_nil (hmarked.resolve_right fun h => h rfl)
    rfl
  | some e => cases fs <;> rfl

/-- Few enough digits are read as their integer. -/
theorem number_toDigits (start : Nat) (negative : Bool) {n : Nat} {s : List Char}
    (hn : (Nat.toDigits 10 n).length ≤ maxDigits) (hs : EndsNumber s) :
    number start negative (Nat.toDigits 10 n ++ s) =
      .ok (.int (if negative then -(n : Int) else n), s) := by
  have hend : ∀ c, s.head? = some c → c.isDigit = false ∧ c ≠ '.' := by
    intro c hc
    have hstop := hs c hc
    exact ⟨hstop.1, fun h => hstop.2 (by simp [h])⟩
  have hw := whole?_append (isWhole_toDigits n) fun c hc => (hend c hc).1
  have hfraction : fraction (Marked.fractionText [] ++ s) = ([], s) :=
    fraction_append (by simp) hend
  have hvalue := (filterMap_asciiDigit? fun c => isDigit_of_mem_toDigits (n := n) (c := c))
  rw [Marked.fractionText, List.nil_append] at hfraction
  simp only [number, hw, hfraction, exponent?_eq_none hs]
  rw [if_neg (by omega), hvalue, nat_toDigits]

end TraitTrace.Json
