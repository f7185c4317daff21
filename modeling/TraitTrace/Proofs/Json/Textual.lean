import TraitTrace.Proofs.Json.Printable
import TraitTrace.Proofs.Outcome

/-! Texts without lone surrogates. JSON may spell half a surrogate pair by an escape, which is no
character. Where no escape on a line does so, each text literal on it is read code point by code
point and nothing is replaced. Printed JSON is such a line. -/

namespace TraitTrace.Json

/-- Whether each escape stands for a character; `skip` characters belong to an escape already
read. -/
def textualFrom : Nat → List Char → Bool
  | _, [] => true
  | skip + 1, _ :: s => textualFrom skip s
  | 0, c :: s =>
    if c = '\\' then
      match escape 0 s with
      | .ok (p, n) => (Text.charOf? p).isSome && textualFrom n s
      | .error _ => true
    else textualFrom 0 s

/-- Texts without the escape of half a surrogate pair. -/
def Textual (s : List Char) : Prop := textualFrom 0 s = true

instance (s : List Char) : Decidable (Textual s) := inferInstanceAs (Decidable (_ = true))

/-- What an escape stands for does not hang on where the text literal began. -/
theorem escape_of_opened {opened : Nat} (other : Nat) {s : List Char} {p n : Nat}
    (h : escape opened s = .ok (p, n)) : escape other s = .ok (p, n) := by
  cases s with
  | nil => cases h
  | cons c s =>
    rw [← h]
    unfold escape
    split
    · rename_i heq
      cases heq
    · rfl
    · rfl

theorem textual_rest {opened : Nat} {read ps : List Nat} {skip : Nat} {s rest : List Char}
    (h : pointsFrom opened read skip s = .ok (ps, rest)) (hs : textualFrom skip s = true)
    (hread : ∀ p ∈ read, (Text.charOf? p).isSome = true) :
    (∀ p ∈ ps, (Text.charOf? p).isSome = true) ∧ Textual rest := by
  induction s generalizing read skip with
  | nil => cases skip <;> cases h
  | cons c s ih =>
    cases skip with
    | succ skip => exact ih h hs hread
    | zero =>
      rw [pointsFrom] at h
      rw [textualFrom] at hs
      split at h
      · rename_i hquote
        rw [if_neg (by rw [hquote]; decide)] at hs
        cases h
        exact ⟨fun p hp => hread p (List.mem_reverse.1 hp), hs⟩
      · split at h
        · rename_i hslash
          rw [if_pos hslash] at hs
          split at h
          · rename_i p n hescape
            rw [escape_of_opened 0 hescape] at hs
            obtain ⟨hp, hs⟩ := Bool.and_eq_true_iff.1 hs
            exact ih h hs (List.forall_mem_cons.2 ⟨hp, hread⟩)
          · cases h
        · rename_i hslash
          rw [if_neg hslash] at hs
          split at h
          · cases h
          · exact ih h hs (List.forall_mem_cons.2 ⟨by rw [Text.charOf?_toNat]; rfl, hread⟩)

/-- In a text without lone surrogates, a text literal has the characters of its code points. -/
theorem toNat_text {s rest : List Char} {t : String} (h : text s = .ok (t, rest)) (hs : Textual s) :
    pointsFrom (s.length + 1) [] 0 s = .ok (t.toList.map Char.toNat, rest) ∧ Textual rest := by
  obtain ⟨⟨ps, rest'⟩, hps, heq⟩ := map_ok.1 h
  obtain ⟨rfl, rfl⟩ := Prod.mk.inj heq
  obtain ⟨hvalid, hrest⟩ := textual_rest hps hs nofun
  have hsame : (ps.map Text.charOf).map Char.toNat = ps := by
    rw [List.map_map]
    exact (List.map_congr_left fun p hp => Text.toNat_charOf (hvalid p hp)).trans (List.map_id ps)
  rw [String.toList_ofList, hsame]
  exact ⟨hps, hrest⟩

theorem textualFrom_skip (skipped s : List Char) :
    textualFrom skipped.length (skipped ++ s) = textualFrom 0 s := by
  induction skipped with
  | nil => rfl
  | cons c skipped ih => rw [List.length_cons, List.cons_append, textualFrom, ih]

/-- An escape that a character is written by stands for this character. -/
theorem Spelled.textualFrom_append {c : Char} {t s : List Char} (h : Spelled c t) (hs : s ≠ []) :
    textualFrom 0 (t ++ s) = textualFrom 0 s := by
  cases h with
  | plain _ hslash _ => rw [List.singleton_append, textualFrom, if_neg hslash]
  | escaped _ hescape =>
    rw [List.cons_append, textualFrom, if_pos rfl, hescape 0 s hs]
    dsimp only
    rw [Text.charOf?_toNat, textualFrom_skip]
    rfl

theorem textualFrom_written (cs s : List Char) :
    textualFrom 0 (cs.flatMap (escapeChar true) ++ '"' :: s) = textualFrom 0 s := by
  induction cs with
  | nil => rfl
  | cons c cs ih =>
    rw [List.flatMap_cons, List.append_assoc, (spelled_escapeChar c).textualFrom_append (by simp),
      ih]

theorem composes_textual :
    Composes fun s => ∀ rest, textualFrom 0 (s ++ rest) = textualFrom 0 rest where
  nil := fun _ => rfl
  append := by
    intro s t hs ht rest
    rw [List.append_assoc, hs, ht]
  plain := by
    intro c hc rest
    obtain ⟨-, hslash⟩ := Bool.and_eq_true_iff.1 hc
    rw [List.singleton_append, textualFrom, if_neg (bne_iff_ne.1 hslash)]
  quoted := by
    intro s rest
    rw [quoteChars, List.cons_append, textualFrom, if_neg (by decide), List.append_assoc,
      List.singleton_append, textualFrom_written]

theorem textual_render (v : Json) : Textual (v.render .spaced).toList := by
  have hrender := composes_textual.render v []
  rw [List.append_nil] at hrender
  exact hrender

end TraitTrace.Json
