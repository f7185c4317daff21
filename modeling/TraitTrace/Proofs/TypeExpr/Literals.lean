import Mathlib.Data.List.Forall2
import TraitTrace.Proofs.Decimal.Lenient
import TraitTrace.Proofs.Outcome
import TraitTrace.Proofs.TypeExpr.Arguments
import TraitTrace.TypeExpr.LiteralValue

/-! What may stand between the quotes of a character literal: the character itself, one of the short
escapes, or its number in hexadecimal, after `x` or in braces after `u`. The number may be spelled
in any way that an integer is read from. Each is taken for a literal whatever follows it and has the
code point for its value, and nothing else has a value. -/

namespace TraitTrace

namespace Decimal

/-- A hexadecimal digit, in either case, and its value. -/
def HexDigit (c : Char) (v : Nat) : Prop :=
  v < 16 ∧ (c = v.digitChar ∨ c = v.digitChar.toUpper)

/-- Characters that end or change a hexadecimal numeral. -/
def numeralMarks : List Char := ['\'', '}', '_', '-', '+']

/-- A character counts as a digit of a value and nowhere as anything else. -/
def Reads (c : Char) (v : Nat) : Prop :=
  (digitIn? 16 c = some v ∧ c.toLower ≠ 'x') ∧ c ∉ numeralMarks ∧ isNumeralBlank c = false

theorem reads_digitChar : ∀ v < 16, Reads v.digitChar v ∧ Reads v.digitChar.toUpper v := by
  simp only [Reads]
  decide +kernel

namespace HexDigit

variable {c : Char} {v : Nat}

theorem reads (h : HexDigit c v) : Reads c v := by
  obtain ⟨hv, rfl | rfl⟩ := h
  · exact (reads_digitChar v hv).1
  · exact (reads_digitChar v hv).2

theorem digitIn?_eq (h : HexDigit c v) : digitIn? 16 c = some v := h.reads.1.1

theorem toLower_ne (h : HexDigit c v) : c.toLower ≠ 'x' := h.reads.1.2

theorem not_mem_marks (h : HexDigit c v) : c ∉ numeralMarks := h.reads.2.1

theorem isNumeralBlank_eq (h : HexDigit c v) : isNumeralBlank c = false := h.reads.2.2

end HexDigit

variable {ds : List Char} {vs : List Nat}

theorem forall_of_hexDigits {p : Char → Prop} (hp : ∀ c v, HexDigit c v → p c)
    (h : List.Forall₂ HexDigit ds vs) : ∀ c ∈ ds, p c := by
  induction h with
  | nil => simp
  | cons hd _ ih => exact List.forall_mem_cons.2 ⟨hp _ _ hd, ih⟩

theorem digitRun?_hexDigits (h : List.Forall₂ HexDigit ds vs) (hne : ds ≠ []) :
    digitRun? (digitIn? 16) ds = some vs := by
  induction h with
  | nil => exact absurd rfl hne
  | @cons c v ds vs hd htail ih =>
    cases htail with
    | nil => simp [digitRun?, hd.digitIn?_eq]
    | @cons c' v' ds vs hd' htail =>
      have hc : c' ≠ '_' := by
        rintro rfl
        exact hd'.not_mem_marks (by decide)
      rw [digitRun?.eq_4 _ _ _ (by simp) (by simpa using hc), hd.digitIn?_eq, ih (by simp)]
      rfl

theorem takeSign_of_not_mem {c : Char} (h : c ∉ numeralMarks) (s : List Char) :
    takeSign (c :: s) = (false, c :: s) := by
  unfold takeSign
  split
  · simp_all [numeralMarks]
  · simp_all [numeralMarks]
  · rfl

theorem dropMark_hexDigits (h : List.Forall₂ HexDigit ds vs) : dropMark 16 ds = ds := by
  have hx := forall_of_hexDigits (fun _ _ hd => hd.toLower_ne) h
  unfold dropMark
  split
  · rename_i m rest
    have hm : baseMark? 16 ≠ some m.toLower := by
      rw [baseMark?, Ne, Option.some.injEq]
      exact (hx m (by simp)).symm
    rw [if_neg hm]
  · rfl

theorem lenientInt?_hexDigits (h : List.Forall₂ HexDigit ds vs) (hne : ds ≠ []) :
    lenientInt? 16 ds = some (nat 16 vs) := by
  have hblank := forall_of_hexDigits (fun _ _ hd => hd.isNumeralBlank_eq) h
  have hmarks := forall_of_hexDigits (fun _ _ hd => hd.not_mem_marks) h
  have ht : trimmed ds = ds := by
    rw [trimmed, Text.trimLeft_eq_self fun c hc => hblank c (List.mem_of_head? hc),
      Text.trimRight_eq_self fun c hc => hblank c (List.mem_of_getLast? hc)]
  have hs : takeSign ds = (false, ds) := by
    obtain ⟨c, s, rfl⟩ := List.exists_cons_of_ne_nil hne
    exact takeSign_of_not_mem (hmarks c List.mem_cons_self) s
  rw [lenientInt?, ht, hs]
  simp [dropMark_hexDigits h, digitRun?_hexDigits h hne]

end Decimal

namespace TypeExpr

open Decimal

/-- The short escapes: the letter after the backslash, and the character it stands for. -/
def shortEscapes : List (Char × Char) :=
  [('n', '\n'), ('t', '\t'), ('r', '\r'), ('0', '\x00'), ('\\', '\\'), ('\'', '\''), ('"', '"')]

/-- The ways to write a character between quotes. -/
inductive Writes (c : Char) : List Char → Prop
  | raw : c ≠ '\'' → c ≠ '\\' → Writes c [c]
  | short {e : Char} : (e, c) ∈ shortEscapes → Writes c ['\\', e]
  | byte {a b : Char} {m n : Nat} : HexDigit a m → HexDigit b n → c.toNat = nat 16 [m, n] →
      Writes c ['\\', 'x', a, b]
  | code {ds : List Char} {vs : List Nat} : ds ≠ [] → List.Forall₂ HexDigit ds vs →
      c.toNat = nat 16 vs → Writes c ('\\' :: 'u' :: '{' :: (ds ++ ['}']))

def inQuotes (s : List Char) : List Char := '\'' :: (s ++ ['\''])

theorem strip_inQuotes (s : List Char) : Text.strip (inQuotes s) = inQuotes s := by
  refine Text.strip_eq_self ?_ ?_
  · intro c hc
    obtain rfl : '\'' = c := by simpa [inQuotes] using hc
    decide
  · intro c hc
    obtain rfl : '\'' = c := by simpa [inQuotes, List.getLast?_cons] using hc
    decide

theorem literalPoint_escape (escape : List Char) :
    literalPoint (inQuotes ('\\' :: escape)) = escapeValue escape := by
  have hlast : ('\\' :: escape ++ ['\'']).getLast? = some '\'' := List.getLast?_concat
  have hdrop : ('\\' :: escape ++ ['\'']).dropLast = '\\' :: escape := List.dropLast_concat
  simp only [inQuotes, literalPoint, hlast, hdrop, if_true]

theorem literalPoint_raw {c : Char} (h : c ≠ '\\') :
    literalPoint (inQuotes [c]) = .ok (some c.toNat) := by
  simp [inQuotes, literalPoint]

theorem toNat_lt (c : Char) : c.toNat < 0x110000 := by
  have hvalid : c.toNat < 0xD800 ∨ 0xDFFF < c.toNat ∧ c.toNat < 0x110000 := c.valid
  omega

theorem codePoint_of_lt {n : Nat} (h : n < 0x110000) : codePoint n = .ok (some n) := by
  rw [codePoint, if_neg (by omega), if_pos ⟨by omega, by omega⟩, Int.toNat_natCast]

theorem codePoint_toNat (c : Char) : codePoint c.toNat = .ok (some c.toNat) :=
  codePoint_of_lt (toNat_lt c)

theorem bracedLength?_braced {body : List Char} (h : '}' ∉ body) (t : List Char) :
    bracedLength? ('{' :: (body ++ '}' :: '\'' :: t)) = some (body.length + 6) := by
  have hp : ∀ c ∈ body, (c != '}') = true := by
    intro c hc
    rw [bne_iff_ne]
    rintro rfl
    exact h hc
  have htake : ('{' :: (body ++ '}' :: '\'' :: t)).takeWhile (· != '}') = '{' :: body := by
    simp [List.takeWhile_append_of_pos hp]
  have hdrop : ('{' :: (body ++ '}' :: '\'' :: t)).dropWhile (· != '}') = '}' :: '\'' :: t := by
    simp [List.dropWhile_append_of_pos hp]
  rw [bracedLength?, hdrop, htake]
  rfl

/-- The ways to spell a number between quotes: by its character, by a short escape, or as an integer
in hexadecimal, which has two characters after `x` and any number of them in braces, where
underscores may stand anywhere. -/
inductive Spells : Int → List Char → Prop
  | raw {c : Char} : c ≠ '\\' → Spells c.toNat [c]
  | short {e c : Char} : letterEscape? e = some c → Spells c.toNat ['\\', e]
  | byte {a b : Char} {n : Int} : lenientInt? 16 [a, b] = some n → Spells n ['\\', 'x', a, b]
  | code {body : List Char} {n : Int} : lenientInt? 16 (body.filter (· != '_')) = some n →
      Spells n ('\\' :: 'u' :: '{' :: (body ++ ['}']))

namespace Spells

variable {n : Int} {s : List Char}

theorem literal (h : Spells n s) : Literal (inQuotes s) := by
  refine ⟨by simp [inQuotes], fun t => ?_⟩
  cases h with
  | raw hb => simp [inQuotes, literalLength?]
  | @short e c he =>
    have hcode : e ≠ 'u' := by
      rintro rfl
      cases he
    have hbyte : e ≠ 'x' := by
      rintro rfl
      cases he
    simp [inQuotes, literalLength?, hbyte]
  | byte hn => rfl
  | @code body n hn =>
    -- The first closing brace is the last one, as none stands in an integer.
    have hbrace : '}' ∉ body := fun hc =>
      brace_not_mem hn (List.mem_filter.2 ⟨hc, by decide⟩)
    simp [inQuotes, literalLength?, bracedLength?_braced hbrace]

theorem literalPoint_eq (h : Spells n s) : literalPoint (inQuotes s) = codePoint n := by
  cases h with
  | raw hb => rw [literalPoint_raw hb, codePoint_toNat]
  | short he => rw [literalPoint_escape, escapeValue, he, codePoint_toNat, Option.map_some]
  | byte hn => simp [literalPoint_escape, escapeValue, hexCodePoint, hn]
  | code hn => simp [literalPoint_escape, escapeValue, hexCodePoint, hn]

end Spells

theorem exists_of_hexCodePoint {s : List Char} (h : hexCodePoint s ≠ .ok none) :
    ∃ n, lenientInt? 16 s = some n := by
  unfold hexCodePoint at h
  split at h
  · rename_i n hn
    exact ⟨n, hn⟩
  · exact absurd rfl h

theorem spells_of_escapeValue {escape : List Char} (h : escapeValue escape ≠ .ok none) :
    ∃ n, Spells n ('\\' :: escape) := by
  unfold escapeValue at h
  split at h
  · rename_i e
    cases hc : letterEscape? e with
    | none => exact absurd (by rw [hc, Option.map_none]) h
    | some c => exact ⟨_, .short hc⟩
  · rename_i s
    split at h
    · rename_i hlast
      obtain ⟨n, hn⟩ := exists_of_hexCodePoint h
      rw [← List.dropLast_append_getLast? _ hlast]
      exact ⟨n, .code hn⟩
    · exact absurd rfl h
  · obtain ⟨n, hn⟩ := exists_of_hexCodePoint h
    exact ⟨n, .byte hn⟩
  · exact absurd rfl h

/-- Only the spelling of a number has a value. -/
theorem spells_of_literalPoint {s : List Char} (h : literalPoint s ≠ .ok none) :
    ∃ n body, s = inQuotes body ∧ Spells n body := by
  unfold literalPoint at h
  split at h
  · rename_i s
    split at h
    · rename_i hlast
      have hs := List.dropLast_append_getLast? _ hlast
      split at h
      · rename_i escape hdrop
        obtain ⟨n, hn⟩ := spells_of_escapeValue h
        exact ⟨n, _, by rw [inQuotes, ← hdrop, hs], hn⟩
      · rename_i c hback hdrop
        exact ⟨_, [c], by rw [inQuotes, ← hdrop, hs], .raw hback⟩
      · exact absurd rfl h
    · exact absurd rfl h
  · exact absurd rfl h

namespace Writes

variable {c : Char} {s : List Char}

theorem spells (h : Writes c s) : Spells c.toNat s := by
  cases h with
  | raw hq hb => exact .raw hb
  | short he =>
    have hs : shortEscapes.all (fun p => letterEscape? p.1 == some p.2) = true := by decide
    exact .short (by simpa using List.all_eq_true.1 hs _ he)
  | byte ha hb hc =>
    rw [hc]
    exact .byte (lenientInt?_hexDigits (.cons ha (.cons hb .nil)) (by simp))
  | @code ds vs hne hd hc =>
    have hf : ds.filter (· != '_') = ds := by
      rw [List.filter_eq_self]
      intro d hm
      rw [bne_iff_ne]
      rintro rfl
      exact forall_of_hexDigits (fun _ _ hd => hd.not_mem_marks) hd _ hm (by decide)
    rw [hc]
    refine .code ?_
    rw [hf]
    exact lenientInt?_hexDigits hd hne

theorem literal (h : Writes c s) : Literal (inQuotes s) := h.spells.literal

theorem literalPoint_eq (h : Writes c s) : literalPoint (inQuotes s) = .ok (some c.toNat) := by
  rw [h.spells.literalPoint_eq, codePoint_toNat]

end Writes

/-- Every character can be written. -/
theorem exists_writes (c : Char) : ∃ s, Writes c s := by
  by_cases hq : c = '\''
  · exact ⟨_, .short (e := '\'') (by subst hq; decide)⟩
  · by_cases hb : c = '\\'
    · exact ⟨_, .short (e := '\\') (by subst hb; decide)⟩
    · exact ⟨_, .raw hq hb⟩

end TypeExpr

end TraitTrace
