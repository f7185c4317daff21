import TraitTrace.Json.Parser
import TraitTrace.Json.Printer

/-! Text literals in JSON. Every character is written as itself or as an escape that is read as this
character, in printable ASCII throughout; a character beyond sixteen bits takes two escapes. -/

namespace TraitTrace.Json

/-- A character of printable ASCII. -/
def IsPrintable (c : Char) : Prop := 0x20 ≤ c.toNat ∧ c.toNat ≤ 0x7E

theorem hexDigit_spec : ∀ v < 16, Decimal.hexValue? v.digitChar = some v ∧
    v.digitChar.toNat < 0x80 ∧ 0x20 ≤ v.digitChar.toNat ∧ v.digitChar.toNat ≤ 0x7E := by
  decide +kernel

theorem unit?_hex4 {n : Nat} (h : n < 0x10000) : unit? (hex4 n) = some n := by
  have hspec := fun k => hexDigit_spec (k % 16) (Nat.mod_lt _ (by decide))
  have hascii : (hex4 n).all (fun c => c.toNat < 0x80) = true := by
    simp [hex4, (hspec _).2.1]
  rw [unit?, if_pos ⟨rfl, hascii⟩]
  simp only [hex4, List.map_cons, List.map_nil, List.mapM_cons, List.mapM_nil, (hspec _).1]
  simp only [Option.pure_def, Option.bind_eq_bind, Option.bind_some, Option.map_some,
    Option.some.injEq, Decimal.nat, List.foldl_cons, List.foldl_nil]
  omega

theorem isPrintable_unitEscape {n : Nat} {c : Char} (h : c ∈ unitEscape n) : IsPrintable c := by
  have hspec := fun k => (hexDigit_spec (k % 16) (Nat.mod_lt _ (by decide))).2.2
  simp only [unitEscape, hex4, List.map_cons, List.map_nil, List.mem_cons, List.not_mem_nil,
    or_false] at h
  rcases h with rfl | rfl | rfl | rfl | rfl | rfl
  · exact ⟨by decide, by decide⟩
  · exact ⟨by decide, by decide⟩
  · exact hspec _
  · exact hspec _
  · exact hspec _
  · exact hspec _

/-- The escape of a character of sixteen bits is read as this character. -/
theorem escape_unit (opened : Nat) {c : Char} (h : c.toNat < 0x10000) {s : List Char}
    (hs : s ≠ []) : escape opened ('u' :: (hex4 c.toNat ++ s)) = .ok (c.toNat, 5) := by
  have hlength : ¬(hex4 c.toNat ++ s).length ≤ 4 := by
    have := List.length_pos_iff.2 hs
    rw [List.length_append]
    change ¬4 + s.length ≤ 4
    omega
  have htake : (hex4 c.toNat ++ s).take 4 = hex4 c.toNat := rfl
  have hlead : ¬(0xD800 ≤ c.toNat ∧ c.toNat < 0xDC00 ∧ 10 < (hex4 c.toNat ++ s).length ∧
      ((hex4 c.toNat ++ s).drop 4).take 2 = ['\\', 'u']) := by
    have hvalid : c.toNat < 0xD800 ∨ 0xDFFF < c.toNat ∧ c.toNat < 0x110000 := c.valid
    omega
  rw [escape, if_neg hlength, htake, unit?_hex4 h]
  dsimp only
  rw [if_neg hlead]

/-- The two escapes of a character beyond sixteen bits are read as this character. -/
theorem escape_pair (opened : Nat) {c : Char} (h : 0x10000 ≤ c.toNat) {s : List Char}
    (hs : s ≠ []) :
    escape opened ('u' :: (hex4 (0xD800 + (c.toNat - 0x10000) / 0x400) ++
      (unitEscape (0xDC00 + (c.toNat - 0x10000) % 0x400) ++ s))) = .ok (c.toNat, 11) := by
  have hvalid : c.toNat < 0xD800 ∨ 0xDFFF < c.toNat ∧ c.toNat < 0x110000 := c.valid
  generalize hm : 0xD800 + (c.toNat - 0x10000) / 0x400 = high
  generalize hn : 0xDC00 + (c.toNat - 0x10000) % 0x400 = low
  have hlength : (hex4 high ++ (unitEscape low ++ s)).length = 10 + s.length := by
    rw [List.length_append, List.length_append]
    change 4 + (6 + s.length) = 10 + s.length
    omega
  have hpos := List.length_pos_iff.2 hs
  have htake : (hex4 high ++ (unitEscape low ++ s)).take 4 = hex4 high := rfl
  have hnext : ((hex4 high ++ (unitEscape low ++ s)).drop 4).take 2 = ['\\', 'u'] := rfl
  have hsecond : ((hex4 high ++ (unitEscape low ++ s)).drop 6).take 4 = hex4 low := rfl
  rw [escape, if_neg (by omega), htake, unit?_hex4 (by omega)]
  dsimp only
  rw [if_pos ⟨by omega, by omega, by omega, hnext⟩, hsecond, unit?_hex4 (by omega)]
  dsimp only
  have hvalue : 0x10000 + (high - 0xD800) * 0x400 + (low - 0xDC00) = c.toNat := by omega
  rw [if_pos ⟨by omega, by omega⟩, hvalue]

/-- How a character is written: as itself, or by an escape that is read as this character, whatever
is left to read. -/
inductive Spelled (c : Char) : List Char → Prop
  | plain : c ≠ '"' → c ≠ '\\' → IsPrintable c → Spelled c [c]
  | escaped {s : List Char} : (∀ o ∈ s, IsPrintable o) →
      (∀ opened rest, rest ≠ [] → escape opened (s ++ rest) = .ok (c.toNat, s.length)) →
      Spelled c ('\\' :: s)

theorem spelled_letter {c e : Char} (he : IsPrintable e)
    (h : ∀ opened s, escape opened (e :: s) = .ok (c.toNat, 1)) : Spelled c ['\\', e] :=
  .escaped (by simpa using he) fun opened rest _ => h opened rest

theorem spelled_units (c : Char) : Spelled c (escapeUnits c) := by
  unfold escapeUnits
  dsimp only
  split
  · rename_i hunit
    refine .escaped (fun o ho => ?_) fun opened rest hrest => escape_unit opened hunit hrest
    exact isPrintable_unitEscape (List.mem_cons_of_mem '\\' ho)
  · rename_i hunit
    refine .escaped (fun o ho => ?_) fun opened rest hrest => ?_
    · rcases List.mem_append.1 ho with ho | ho
      · exact isPrintable_unitEscape (List.mem_cons_of_mem '\\' ho)
      · exact isPrintable_unitEscape ho
    · have hpair := escape_pair opened (Nat.le_of_not_lt hunit) hrest
      rw [← List.append_assoc] at hpair
      exact hpair

theorem spelled_escapeChar (c : Char) : Spelled c (escapeChar true c) := by
  unfold escapeChar
  split
  · subst c; exact spelled_letter ⟨by decide, by decide⟩ fun _ _ => rfl
  split
  · subst c; exact spelled_letter ⟨by decide, by decide⟩ fun _ _ => rfl
  split
  · subst c; exact spelled_letter ⟨by decide, by decide⟩ fun _ _ => rfl
  split
  · subst c; exact spelled_letter ⟨by decide, by decide⟩ fun _ _ => rfl
  split
  · subst c; exact spelled_letter ⟨by decide, by decide⟩ fun _ _ => rfl
  split
  · subst c; exact spelled_letter ⟨by decide, by decide⟩ fun _ _ => rfl
  split
  · subst c; exact spelled_letter ⟨by decide, by decide⟩ fun _ _ => rfl
  split
  · exact spelled_units c
  split
  · exact spelled_units c
  · rename_i hquote hslash _ _ _ _ _ hlow hhigh
    exact .plain hquote hslash ⟨by omega, by simpa using hhigh⟩

/-- What a text literal has in it is printable. -/
theorem Spelled.isPrintable {c o : Char} {s : List Char} (h : Spelled c s) (ho : o ∈ s) :
    IsPrintable o := by
  cases h with
  | plain _ _ hc =>
    rw [List.mem_singleton.1 ho]
    exact hc
  | escaped hs _ =>
    rcases List.mem_cons.1 ho with rfl | ho
    · exact ⟨by decide, by decide⟩
    · exact hs o ho

theorem isPrintable_quoteChars {s : String} {c : Char} (h : c ∈ quoteChars true s) :
    IsPrintable c := by
  unfold quoteChars at h
  rcases List.mem_cons.1 h with rfl | h
  · exact ⟨by decide, by decide⟩
  · rcases List.mem_append.1 h with h | h
    · obtain ⟨o, -, ho⟩ := List.mem_flatMap.1 h
      exact (spelled_escapeChar o).isPrintable ho
    · rw [List.mem_singleton.1 h]
      exact ⟨by decide, by decide⟩

/-- The characters of an escape that was read are passed over. -/
theorem pointsFrom_skip (opened : Nat) (read : List Nat) (skipped s : List Char) :
    pointsFrom opened read skipped.length (skipped ++ s) = pointsFrom opened read 0 s := by
  induction skipped with
  | nil => rfl
  | cons c skipped ih => rw [List.length_cons, List.cons_append, pointsFrom, ih]

/-- A written character is read as itself, whatever is left to read. -/
theorem Spelled.pointsFrom_append (opened : Nat) (read : List Nat) {c : Char} {t s : List Char}
    (h : Spelled c t) (hs : s ≠ []) :
    pointsFrom opened read 0 (t ++ s) = pointsFrom opened (c.toNat :: read) 0 s := by
  cases h with
  | plain hquote hslash hc =>
    have hlow : ¬c.toNat < 0x20 := Nat.not_lt.2 hc.1
    rw [List.singleton_append, pointsFrom, if_neg hquote, if_neg hslash, if_neg hlow]
  | escaped _ hescape =>
    rw [List.cons_append, pointsFrom, if_neg (by decide), if_pos rfl, hescape opened s hs]
    exact pointsFrom_skip opened _ _ s

theorem pointsFrom_written (opened : Nat) (read : List Nat) (cs s : List Char) :
    pointsFrom opened read 0 (cs.flatMap (escapeChar true) ++ '"' :: s) =
      .ok (read.reverse ++ cs.map Char.toNat, s) := by
  induction cs generalizing read with
  | nil =>
    rw [List.flatMap_nil, List.nil_append, pointsFrom, if_pos rfl, List.map_nil, List.append_nil]
  | cons c cs ih =>
    rw [List.flatMap_cons, List.append_assoc,
      (spelled_escapeChar c).pointsFrom_append _ _ (by simp), ih,
      List.reverse_cons, List.append_assoc, List.singleton_append, List.map_cons]

/-- A text is read back from its literal, whatever follows. -/
theorem text_quoteChars (s : String) (rest : List Char) :
    text (s.toList.flatMap (escapeChar true) ++ '"' :: rest) = .ok (s, rest) := by
  have hchars : (s.toList.map Char.toNat).map Text.charOf = s.toList := by
    simp only [List.map_map, Function.comp_def, Text.charOf_toNat, List.map_id_fun', id]
  rw [text, pointsFrom_written, List.reverse_nil, List.nil_append, Except.map]
  dsimp only
  rw [hchars, String.ofList_toList]

end TraitTrace.Json
