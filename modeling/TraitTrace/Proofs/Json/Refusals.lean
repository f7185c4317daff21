import TraitTrace.Json.Parser
import TraitTrace.Proofs.Outcome

/-! What the reader of JSON refuses. Whatever part of a value it reads, it leaves an end of the text
that it was given. It refuses a numeral only where the text has a run of so many digits, and nesting
only where the text opens more brackets than there is room for. -/

namespace TraitTrace.Json

/-- A run of so many digits in a text, more than a numeral may have. -/
def LongRun (n : Nat) (s : List Char) : Prop :=
  ∃ ds, ds <:+: s ∧ ds.length = n ∧ ds.all Char.isDigit = true ∧ Decimal.maxDigits < n

/-- How many brackets a text opens, those in its text literals among them. -/
def openings (s : List Char) : Nat := s.countP fun c => c == '{' || c == '['

/-- What a part of the reader tells of a text: what it leaves is an end of the text, and what it
refuses is in the text. -/
structure Honest {α : Type} (room : Nat) (s : List Char)
    (outcome : Except Refusal (α × List Char)) : Prop where
  rest : ∀ v rest, outcome = .ok (v, rest) → rest <:+ s
  numeral : ∀ n, outcome = .error (.longNumeral n) → LongRun n s
  nesting : ∀ what, outcome = .error (.tooDeep what) → room < openings s

section Honest

variable {α β : Type} {room : Nat} {s t : List Char} {outcome : Except Refusal (α × List Char)}

theorem honest_ok (v : α) (h : t <:+ s) : Honest room s (.ok (v, t)) := by
  refine ⟨fun w rest heq => ?_, nofun, nofun⟩
  obtain ⟨-, rfl⟩ := Prod.mk.inj (Except.ok.inj heq)
  exact h

theorem honest_flaw (what : Flaw) (left : Nat) :
    Honest room s (.error (.flaw what left) : Except Refusal (α × List Char)) :=
  ⟨nofun, nofun, nofun⟩

theorem Honest.mono (h : Honest room t outcome) (ht : t <:+ s) : Honest room s outcome := by
  refine ⟨fun v rest heq => (h.rest v rest heq).trans ht, fun n heq => ?_, fun what heq => ?_⟩
  · obtain ⟨ds, hds, hrun⟩ := h.numeral n heq
    exact ⟨ds, hds.trans ht.isInfix, hrun⟩
  · exact Nat.lt_of_lt_of_le (h.nesting what heq) ht.sublist.countP_le

theorem openings_cons {c : Char} (hc : c = '{' ∨ c = '[') :
    openings (c :: s) = openings s + 1 := by
  rcases hc with rfl | rfl <;> exact List.countP_cons_of_pos rfl

/-- What stands below an opening bracket has one room less and one bracket less. -/
theorem Honest.opened {c : Char} (h : Honest room t outcome) (ht : t <:+ s)
    (hc : c = '{' ∨ c = '[') : Honest (room + 1) (c :: s) outcome := by
  have hs := h.mono ht
  have hcons : s <:+ c :: s := List.suffix_cons c s
  refine ⟨(hs.mono hcons).rest, (hs.mono hcons).numeral, fun what heq => ?_⟩
  rw [openings_cons hc]
  exact Nat.succ_lt_succ (hs.nesting what heq)

theorem honest_tooDeep {c : Char} (what : Container) (hc : c = '{' ∨ c = '[') :
    Honest 0 (c :: s) (.error (.tooDeep what) : Except Refusal (α × List Char)) := by
  refine ⟨nofun, nofun, fun _ _ => ?_⟩
  rw [openings_cons hc]
  exact Nat.succ_pos _

/-- A refusal is honest whatever else would have been read. -/
theorem Honest.refused {r : Refusal}
    (h : Honest room s (.error r : Except Refusal (α × List Char))) :
    Honest room s (.error r : Except Refusal (β × List Char)) :=
  ⟨nofun, fun n heq => h.numeral n (by rw [Except.error.inj heq]),
    fun what heq => h.nesting what (by rw [Except.error.inj heq])⟩

theorem Honest.bind {f : α × List Char → Except Refusal (β × List Char)}
    (h : Honest room s outcome) (hf : ∀ v rest, rest <:+ s → Honest room s (f (v, rest))) :
    Honest room s (outcome >>= f) := by
  cases outcome with
  | ok p => exact hf p.1 p.2 (h.rest p.1 p.2 rfl)
  | error r => exact h.refused

theorem Honest.map (f : α → β) (h : Honest room s outcome) :
    Honest room s (outcome.map fun (v, rest) => (f v, rest)) := by
  cases outcome with
  | ok p => exact honest_ok (f p.1) (h.rest p.1 p.2 rfl)
  | error r => exact h.refused

end Honest

variable {room : Nat}

theorem skipBlanks_suffix (s : List Char) : skipBlanks s <:+ s := List.dropWhile_suffix _

theorem suffix_of_skipBlanks {s t rest : List Char} {c : Char} (h : skipBlanks t = c :: rest)
    (ht : t <:+ s) : rest <:+ s :=
  ((h ▸ List.suffix_cons c rest).trans (skipBlanks_suffix t)).trans ht

theorem escape_error {opened : Nat} {s : List Char} {r : Refusal} (h : escape opened s = .error r) :
    ∃ what left, r = .flaw what left := by
  unfold escape at h
  repeat' split at h
  all_goals first
    | exact ⟨_, _, (Except.error.inj h).symm⟩
    | cases h

theorem honest_pointsFrom (opened : Nat) (read : List Nat) (skip : Nat) (s : List Char) :
    Honest room s (pointsFrom opened read skip s) := by
  induction s generalizing read skip with
  | nil => cases skip <;> exact honest_flaw _ _
  | cons c s ih =>
    have hs : s <:+ c :: s := List.suffix_cons c s
    cases skip with
    | succ skip => exact (ih read skip).mono hs
    | zero =>
      rw [pointsFrom]
      split
      · exact honest_ok _ hs
      · split
        · split
          · exact (ih _ _).mono hs
          · rename_i r hr
            obtain ⟨what, left, rfl⟩ := escape_error hr
            exact honest_flaw what left
        · split
          · exact honest_flaw _ _
          · exact (ih _ _).mono hs

theorem honest_text (s : List Char) : Honest room s (text s) :=
  (honest_pointsFrom (s.length + 1) [] 0 s).map fun ps => String.ofList (ps.map Text.charOf)

theorem digits_eq {s ds rest : List Char} (h : digits s = (ds, rest)) :
    s = ds ++ rest ∧ ds.all Char.isDigit = true := by
  obtain ⟨rfl, rfl⟩ := Prod.mk.inj h
  exact ⟨List.takeWhile_append_dropWhile.symm, List.all_takeWhile⟩

theorem whole?_eq {s ds rest : List Char} (h : whole? s = some (ds, rest)) :
    s = ds ++ rest ∧ ds.all Char.isDigit = true := by
  unfold whole? at h
  split at h
  · obtain ⟨rfl, rfl⟩ := Prod.mk.inj (Option.some.inj h)
    exact ⟨rfl, rfl⟩
  · split at h
    · cases h
    · exact digits_eq (Option.some.inj h)

theorem fraction_suffix (s : List Char) : (fraction s).2 <:+ s := by
  unfold fraction
  split
  · rename_i s
    split
    · exact List.suffix_rfl
    · exact (List.dropWhile_suffix _).trans (List.suffix_cons _ s)
  · exact List.suffix_rfl

theorem exponent?_suffix {s rest : List Char} {e : Int} (h : exponent? s = some (e, rest)) :
    rest <:+ s := by
  unfold exponent? at h
  split at h
  · rename_i c s
    split at h
    · have hsign : (Decimal.takeSign s).2 <:+ s := by
        unfold Decimal.takeSign
        split
        · exact List.suffix_cons _ _
        · exact List.suffix_cons _ _
        · exact List.suffix_rfl
      dsimp only at h
      split at h
      · cases h
      · rename_i left _ heq
        have hrest : left <:+ (Decimal.takeSign s).2 := ⟨_, (digits_eq heq).1.symm⟩
        obtain ⟨-, rfl⟩ := Prod.mk.inj (Option.some.inj h)
        exact hrest.trans (hsign.trans (List.suffix_cons c s))
    · cases h
  · cases h

theorem honest_number (start : Nat) (negative : Bool) (s : List Char) :
    Honest room s (number start negative s) := by
  unfold number
  split
  · exact honest_flaw _ _
  · rename_i ds t hwhole
    obtain ⟨rfl, hdigits⟩ := whole?_eq hwhole
    have hfraction : (fraction t).2 <:+ ds ++ t :=
      (fraction_suffix t).trans (List.suffix_append ds t)
    dsimp only
    split
    · split
      · rename_i hlong
        refine ⟨nofun, fun n heq => ?_, nofun⟩
        obtain rfl := Refusal.longNumeral.inj (Except.error.inj heq)
        exact ⟨ds, (List.prefix_append ds t).isInfix, rfl, hdigits, hlong⟩
      · exact honest_ok _ hfraction
    · refine honest_ok _ ?_
      cases he : exponent? (fraction t).2 with
      | none => exact hfraction
      | some p => exact (exponent?_suffix he).trans hfraction

theorem honest_value_succ {fuel : Nat}
    (hmembers : ∀ room read s, Honest room s (members fuel room read s))
    (hitems : ∀ room read s, Honest room s (items fuel room read s)) (room : Nat)
    (s : List Char) : Honest room s (value (fuel + 1) room s) := by
  unfold value
  split
  · rename_i s
    exact ((honest_text s).map Json.str).mono (List.suffix_cons '"' s)
  · rename_i s
    split
    · exact honest_tooDeep .object (.inl rfl)
    · rename_i rest hblank
      have hrest := suffix_of_skipBlanks hblank List.suffix_rfl
      exact honest_ok _ (hrest.trans (List.suffix_cons '{' s))
    · exact (hmembers _ [] _).opened (skipBlanks_suffix s) (.inl rfl)
  · rename_i s
    split
    · exact honest_tooDeep .array (.inr rfl)
    · rename_i rest hblank
      have hrest := suffix_of_skipBlanks hblank List.suffix_rfl
      exact honest_ok _ (hrest.trans (List.suffix_cons '[' s))
    · exact (hitems _ [] _).opened (skipBlanks_suffix s) (.inr rfl)
  · exact honest_ok _ ⟨['n', 'u', 'l', 'l'], rfl⟩
  · exact honest_ok _ ⟨['t', 'r', 'u', 'e'], rfl⟩
  · exact honest_ok _ ⟨['f', 'a', 'l', 's', 'e'], rfl⟩
  · exact honest_ok _ ⟨['N', 'a', 'N'], rfl⟩
  · exact honest_ok _ ⟨"Infinity".toList, rfl⟩
  · exact honest_ok _ ⟨"-Infinity".toList, rfl⟩
  · rename_i s _
    exact (honest_number _ true s).mono (List.suffix_cons '-' s)
  · exact honest_number _ false _

theorem honest_members_succ {fuel : Nat} (hvalue : ∀ room s, Honest room s (value fuel room s))
    (hmembers : ∀ room read s, Honest room s (members fuel room read s)) (room : Nat)
    (read : List (String × Json)) (s : List Char) :
    Honest room s (members (fuel + 1) room read s) := by
  unfold members
  split
  · rename_i s
    refine Honest.mono ?_ (List.suffix_cons '"' s)
    refine (honest_text s).bind fun name left hleft => ?_
    dsimp only
    split
    · rename_i t ht
      have hafter : skipBlanks t <:+ s :=
        (skipBlanks_suffix t).trans (suffix_of_skipBlanks ht hleft)
      refine ((hvalue room _).mono hafter).bind fun v left hleft => ?_
      dsimp only
      split
      · rename_i rest hrest
        exact honest_ok _ (suffix_of_skipBlanks hrest hleft)
      · rename_i rest hrest
        exact (hmembers _ _ _).mono
          ((skipBlanks_suffix rest).trans (suffix_of_skipBlanks hrest hleft))
      · exact honest_flaw _ _
    · exact honest_flaw _ _
  · exact honest_flaw _ _

theorem honest_items_succ {fuel : Nat} (hvalue : ∀ room s, Honest room s (value fuel room s))
    (hitems : ∀ room read s, Honest room s (items fuel room read s)) (room : Nat)
    (read : List Json) (s : List Char) : Honest room s (items (fuel + 1) room read s) := by
  unfold items
  refine (hvalue room s).bind fun v left hleft => ?_
  dsimp only
  split
  · rename_i rest hrest
    exact honest_ok _ (suffix_of_skipBlanks hrest hleft)
  · rename_i rest hrest
    exact (hitems _ _ _).mono
      ((skipBlanks_suffix rest).trans (suffix_of_skipBlanks hrest hleft))
  · exact honest_flaw _ _

/-- Every part of the reader is honest. -/
theorem honest_value (fuel : Nat) :
    (∀ room s, Honest room s (value fuel room s)) ∧
    (∀ room read s, Honest room s (members fuel room read s)) ∧
    ∀ room read s, Honest room s (items fuel room read s) := by
  induction fuel with
  | zero =>
    exact ⟨fun _ _ => honest_flaw _ _, fun _ _ _ => honest_flaw _ _, fun _ _ _ => honest_flaw _ _⟩
  | succ fuel ih =>
    obtain ⟨hvalue, hmembers, hitems⟩ := ih
    exact ⟨honest_value_succ hmembers hitems, honest_members_succ hvalue hmembers,
      honest_items_succ hvalue hitems⟩

/-- After the value only a flaw is refused. -/
theorem value_of_read_error {s : List Char} {r : Refusal} (h : read room s = .error r)
    (hr : ∀ what left, r ≠ .flaw what left) :
    value (2 * s.length + 2) room (skipBlanks s) = .error r := by
  obtain hv | ⟨p, -, h⟩ := bind_error.1 h
  · exact hv
  · dsimp only at h
    split at h
    · cases h
    · exact absurd (Except.error.inj h).symm (hr _ _)

/-- What the reader of a whole text refuses is in the text. -/
theorem honest_read {s : List Char} {r : Refusal} (h : read room s = .error r)
    (hr : ∀ what left, r ≠ .flaw what left) :
    (∀ n, r = .longNumeral n → LongRun n s) ∧
      ∀ what, r = .tooDeep what → room < openings s := by
  have hv := value_of_read_error h hr
  have hs := ((honest_value (2 * s.length + 2)).1 room (skipBlanks s)).mono (skipBlanks_suffix s)
  exact ⟨fun n hn => hs.numeral n (hn ▸ hv), fun what hwhat => hs.nesting what (hwhat ▸ hv)⟩

/-- An integer is refused only where the text has a run of its digits. -/
theorem longRun_of_parse {s : String} {n : Nat}
    (h : parseWithin room s = .error (.longNumeral n)) : LongRun n s.toList := by
  unfold parseWithin at h
  dsimp only at h
  split at h
  · cases h
  · rename_i hread
    obtain rfl := ParseError.longNumeral.inj (Except.error.inj h)
    exact (honest_read hread nofun).1 _ rfl
  · cases h
  · cases h

/-- Nesting is refused only where the text opens more brackets than may be nested. -/
theorem openings_of_parse {s : String} {what : Container}
    (h : parseWithin room s = .error (.tooDeep what)) : room < openings s.toList := by
  unfold parseWithin at h
  dsimp only at h
  split at h
  · cases h
  · cases h
  · rename_i hread
    obtain rfl := ParseError.tooDeep.inj (Except.error.inj h)
    exact (honest_read hread nofun).2 _ rfl
  · cases h

end TraitTrace.Json
