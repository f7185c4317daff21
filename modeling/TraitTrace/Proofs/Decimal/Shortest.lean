import TraitTrace.Decimal.Shortest
import TraitTrace.Proofs.Decimal.Digits

/-! The text of a double. It is a word, or a numeral that a point or an exponent tells from the text
of an integer: its digits do not start with a zero, because the shortest digits of a number other
than zero are those of a number other than zero. -/

namespace TraitTrace.Decimal

/-- The whole part of a numeral: a lone zero, or digits that do not start with one. -/
def IsWhole (ds : List Char) : Prop :=
  ds = ['0'] ∨ ((∀ c ∈ ds, c.isDigit = true) ∧ ∃ c t, ds = c :: t ∧ c ≠ '0')

/-- A numeral with a fraction or an exponent. -/
structure Marked where
  whole : List Char
  fraction : List Char
  exponent : Option (Bool × List Char)
  isWhole : IsWhole whole
  digits : ∀ c ∈ fraction, c.isDigit = true
  power : ∀ e, exponent = some e → e.2 ≠ [] ∧ ∀ c ∈ e.2, c.isDigit = true
  marked : fraction ≠ [] ∨ exponent ≠ none

namespace Marked

def fractionText : List Char → List Char
  | [] => []
  | c :: fs => '.' :: c :: fs

def exponentText : Option (Bool × List Char) → List Char
  | none => []
  | some (negative, es) => 'e' :: (if negative then '-' else '+') :: es

def text (n : Marked) : List Char :=
  n.whole ++ (fractionText n.fraction ++ exponentText n.exponent)

theorem text_of_fraction {n : Marked} (h : n.exponent = none) (hne : n.fraction ≠ []) :
    n.text = n.whole ++ '.' :: n.fraction := by
  obtain ⟨c, fs, hfs⟩ := List.exists_cons_of_ne_nil hne
  rw [text, h, hfs, exponentText, List.append_nil, fractionText]

end Marked

theorem isWhole_toDigits (n : Nat) : IsWhole (Nat.toDigits 10 n) := by
  by_cases hn : n = 0
  · subst hn
    exact .inl rfl
  · exact .inr ⟨fun c hc => isDigit_of_mem_toDigits hc, head?_toDigits hn⟩

theorem powPos_pos {base : Nat} (h : 0 < base) (e : Int) : 0 < powPos base e := Nat.pow_pos h

/-- Zero is on no grid within the reach of another number. -/
theorem ne_zero_of_onGrid? {v : Binary} {k : Int} {d : Nat} (hv : v.mantissa ≠ 0)
    (h : onGrid? v k = some d) : d ≠ 0 := by
  have hscale : 0 < powPos 2 (v.exponent - 2) * powPos 10 (-k) :=
    Nat.mul_pos (powPos_pos (by decide) _) (powPos_pos (by decide) _)
  have hlow : 0 < (4 * v.mantissa - if v.narrow then 1 else 2) *
      (powPos 2 (v.exponent - 2) * powPos 10 (-k)) := by
    refine Nat.mul_pos ?_ hscale
    split <;> omega
  unfold onGrid? at h
  dsimp only at h
  generalize (4 * v.mantissa - if v.narrow then 1 else 2) *
    (powPos 2 (v.exponent - 2) * powPos 10 (-k)) = low at h hlow
  rintro rfl
  split at h
  · rename_i hbelow _
    rw [Option.some.inj h] at hbelow
    split at hbelow <;> simp at hbelow
    all_goals omega
  · simp at h
  · rename_i hbelow _
    generalize 4 * v.mantissa * (powPos 2 (v.exponent - 2) * powPos 10 (-k)) /
      (powPos 2 (2 - v.exponent) * powPos 10 k) = e at h hbelow
    have he : e = 0 := by
      repeat' split at h
      all_goals simp at h
      all_goals exact h
    subst he
    split at hbelow <;> simp at hbelow
    all_goals omega
  · cases h

theorem ne_zero_of_digitsFrom {v : Binary} (hv : v.mantissa ≠ 0) (lead : Int) (n tries : Nat) :
    (digitsFrom v lead n tries).1 ≠ 0 := by
  induction tries generalizing n with
  | zero => exact hv
  | succ tries ih =>
    rw [digitsFrom]
    split
    · rename_i d hd
      exact ne_zero_of_onGrid? hv hd
    · exact ih (n + 1)

/-- Zeros dropped at the end leave what comes first. -/
theorem dropZeros_cons {c : Char} (hc : c ≠ '0') (ds : List Char) :
    ∃ t, dropZeros (c :: ds) = c :: t ∧ t ⊆ ds := by
  have hstay : [c].dropWhile (· == '0') = [c] := by simp [hc]
  have hsub : (ds.reverse.dropWhile (· == '0')).reverse ⊆ ds := by
    intro o ho
    exact List.mem_reverse.1 ((List.dropWhile_suffix _).subset (List.mem_reverse.1 ho))
  unfold dropZeros
  rw [List.reverse_cons, List.dropWhile_append]
  split
  · exact ⟨[], by rw [hstay]; rfl, List.nil_subset ds⟩
  · exact ⟨_, by rw [List.reverse_append]; rfl, hsub⟩

theorem toList_mark (e : Int) :
    (if e < 0 then "e-" else "e+").toList = ['e', if decide (e < 0) then '-' else '+'] := by
  by_cases h : e < 0 <;> simp [h]

/-- An exponent of two digits or more. -/
theorem toList_size (n : Nat) : ∃ es, es ≠ [] ∧ (∀ c ∈ es, c.isDigit = true) ∧
    (if (toString n).length < 2 then "0" ++ toString n else toString n).toList = es := by
  have hn : (toString n).toList = Nat.toDigits 10 n := Nat.toList_repr
  split
  · refine ⟨'0' :: Nat.toDigits 10 n, List.cons_ne_nil _ _, ?_, ?_⟩
    · intro c hc
      rcases List.mem_cons.1 hc with rfl | hc
      · rfl
      · exact isDigit_of_mem_toDigits hc
    · rw [String.toList_append, hn]
      rfl
  · exact ⟨_, Nat.toDigits_ne_nil, fun c hc => isDigit_of_mem_toDigits hc, hn⟩

theorem marked_layout {c : Char} {ds : List Char} (hc : c ≠ '0')
    (hds : ∀ o ∈ c :: ds, o.isDigit = true) (point : Int) :
    ∃ n : Marked, (layout (c :: ds) point).toList = n.text := by
  have hzeros : ∀ k, ∀ o ∈ List.replicate k '0', o.isDigit = true := by
    intro k o ho
    rw [List.eq_of_mem_replicate ho]
    rfl
  unfold layout
  split
  · split
    · have hall : ∀ o ∈ List.replicate (-point).toNat '0' ++ c :: ds, o.isDigit = true := by
        intro o ho
        rcases List.mem_append.1 ho with ho | ho
        · exact hzeros _ o ho
        · exact hds o ho
      have hne : List.replicate (-point).toNat '0' ++ c :: ds ≠ [] := by simp
      refine ⟨⟨['0'], _, none, .inl rfl, hall, nofun, .inl hne⟩, ?_⟩
      rw [Marked.text_of_fraction rfl hne, String.toList_ofList, List.append_assoc]
      rfl
    · have hpos : point.toNat ≠ 0 := by omega
      obtain ⟨n, hn⟩ := Nat.exists_eq_succ_of_ne_zero hpos
      dsimp only
      rw [hn]
      have hwhole : IsWhole ((c :: ds).take (n + 1) ++
          List.replicate (n + 1 - (c :: ds).length) '0') := by
        refine .inr ⟨?_, c, _, by rw [List.take_succ_cons]; rfl, hc⟩
        intro o ho
        rcases List.mem_append.1 ho with ho | ho
        · exact hds o (List.mem_of_mem_take ho)
        · exact hzeros _ o ho
      by_cases hpart : ((c :: ds).drop (n + 1)).isEmpty
      · have hne : ['0'] ≠ [] := List.cons_ne_nil _ _
        refine ⟨⟨_, ['0'], none, hwhole, by simp, nofun, .inl hne⟩, ?_⟩
        rw [if_pos hpart, Marked.text_of_fraction rfl hne, String.toList_ofList]
      · have hne : (c :: ds).drop (n + 1) ≠ [] := by simpa using hpart
        refine ⟨⟨_, _, none, hwhole, fun o ho => hds o (List.mem_of_mem_drop ho), nofun,
          .inl hne⟩, ?_⟩
        rw [if_neg hpart, Marked.text_of_fraction rfl hne, String.toList_ofList]
  · obtain ⟨es, hne, hes, hsize⟩ := toList_size (point - 1).natAbs
    dsimp only
    refine ⟨⟨[c], ds, some (decide (point - 1 < 0), es), .inr ⟨?_, c, [], rfl, hc⟩, ?_, ?_,
      .inr (by simp)⟩, ?_⟩
    · intro o ho
      exact hds o (List.mem_cons.2 (.inl (List.mem_singleton.1 ho)))
    · exact fun o ho => hds o (List.mem_cons_of_mem c ho)
    · rintro e he
      cases he
      exact ⟨hne, hes⟩
    · rw [String.toList_append, String.toList_append, String.toList_ofList, toList_mark, hsize]
      cases ds <;> simp [Marked.text, Marked.fractionText, Marked.exponentText]

/-- The text of a double: a word, or a sign and a marked numeral. -/
theorem toList_text (names : Names) (bits : UInt64) :
    text names bits = names.nan ∨
      text names bits = (if isNegative bits then "-" else "") ++ names.infinity ∨
      ∃ n : Marked, (text names bits).toList =
        (if isNegative bits then ['-'] else []) ++ n.text := by
  have hsign : (if isNegative bits then "-" else "").toList =
      if isNegative bits then ['-'] else [] := by split <;> rfl
  unfold text
  dsimp only
  split
  · exact .inl rfl
  · exact .inr (.inl rfl)
  · rename_i v _
    refine .inr (.inr ?_)
    split
    · refine ⟨⟨['0'], ['0'], none, .inl rfl, by simp, nofun, .inl (by simp)⟩, ?_⟩
      rw [String.toList_append, hsign]
      rfl
    · rename_i hv
      have hd := ne_zero_of_digitsFrom hv (leading v) 1 17
      obtain ⟨c, ds, hcds, hc⟩ := head?_toDigits hd
      have hdigits := fun o => isDigit_of_mem_toDigits (n := (shortest v).1) (c := o)
      obtain ⟨t, ht, hsub⟩ := dropZeros_cons hc ds
      unfold shortest at hdigits ⊢
      rw [hcds] at hdigits ⊢
      rw [ht]
      have hkept : ∀ o ∈ c :: t, o.isDigit = true := by
        intro o ho
        rcases List.mem_cons.1 ho with rfl | ho
        · exact hdigits o List.mem_cons_self
        · exact hdigits o (List.mem_cons_of_mem c (hsub ho))
      obtain ⟨n, hn⟩ := marked_layout hc hkept _
      exact ⟨n, by rw [String.toList_append, hsign, hn]⟩

end TraitTrace.Decimal
