import Mathlib.Data.List.Nodup
import Mathlib.Tactic.IntervalCases
import TraitTrace.Proofs.Json.Number
import TraitTrace.Proofs.Json.Quoted

/-! Printed JSON is read back. A value whose integers, nesting and names are within what a reader
takes is read as itself, but for its doubles: of these it is only shown that they are read as
doubles. -/

namespace TraitTrace.Json

open Decimal

/-- The double that the text of a double is read as. -/
def rereadBits (bits : UInt64) : UInt64 :=
  match value 1 0 (Decimal.text floatNames bits).toList with
  | .ok (.float b, _) => b
  | _ => bits

mutual

/-- A value as it is read back: every double is what its text is read as. -/
def reread : Json → Json
  | .float bits => .float (rereadBits bits)
  | .arr items => .arr (rereadItems items)
  | .obj members => .obj (rereadMembers members)
  | v => v

def rereadItems : List Json → List Json
  | [] => []
  | v :: vs => v.reread :: rereadItems vs

def rereadMembers : List (String × Json) → List (String × Json)
  | [] => []
  | (k, v) :: ms => (k, v.reread) :: rereadMembers ms

end

mutual

/-- Whether a value is within what a reader takes: integers are not too long, no object has two
members of one name, and arrays and objects are nested no deeper than there is room. -/
def Fits : Nat → Json → Prop
  | _, .int n => (Nat.toDigits 10 n.natAbs).length ≤ maxDigits
  | room, .arr items => 0 < room ∧ FitItems (room - 1) items
  | room, .obj members => 0 < room ∧ (Table.keys members).Nodup ∧ FitMembers (room - 1) members
  | _, _ => True

def FitItems : Nat → List Json → Prop
  | _, [] => True
  | room, v :: vs => v.Fits room ∧ FitItems room vs

def FitMembers : Nat → List (String × Json) → Prop
  | _, [] => True
  | room, (_, v) :: ms => v.Fits room ∧ FitMembers room ms

end

theorem get?_rereadMembers (ms : Members) (name : String) :
    Table.get? (rereadMembers ms) name = (Table.get? ms name).map reread := by
  induction ms with
  | nil => rfl
  | cons p ms ih =>
    simp only [rereadMembers, Table.get?]
    split
    · rfl
    · exact ih

/-- A member of a new name goes to the end. -/
theorem set_of_not_mem {ms : Members} {name : String} (v : Json) (h : name ∉ Table.keys ms) :
    Table.set ms name v = ms ++ [(name, v)] := by
  induction ms with
  | nil => rfl
  | cons p ms ih =>
    rw [Table.keys, List.map_cons, List.mem_cons, not_or] at h
    rw [Table.set, if_neg (Ne.symm h.1), ih h.2, List.cons_append]

def sign (negative : Bool) : List Char := if negative then ['-'] else []

/-- What starts with a sign and a digit is read as a number. -/
theorem value_signed (fuel room : Nat) (negative : Bool) {c : Char} (hc : c.isDigit = true)
    (s : List Char) : ∃ start,
      value (fuel + 1) room (sign negative ++ c :: s) = number start negative (c :: s) := by
  obtain ⟨v, hv, rfl⟩ := eq_digitChar_of_isDigit hc
  cases negative
  · refine ⟨(Nat.digitChar v :: s).length, ?_⟩
    interval_cases v <;> rfl
  · refine ⟨(Nat.digitChar v :: s).length + 1, ?_⟩
    interval_cases v <;> rfl

theorem toList_int (n : Int) :
    (toString n).toList = sign (n < 0) ++ Nat.toDigits 10 n.natAbs := by
  rw [Int.toString_eq_repr, Int.repr_eq_if]
  by_cases h : 0 ≤ n
  · have hn : n.toNat = n.natAbs := by omega
    rw [if_pos h, Nat.toList_repr, hn]
    simp [sign, h]
  · have hn : (-n).toNat = n.natAbs := by omega
    rw [if_neg h, String.toList_append, Nat.toList_repr, hn]
    simp [sign, Int.lt_of_not_ge h]

theorem value_int {n : Int} {s : List Char} (hn : (Nat.toDigits 10 n.natAbs).length ≤ maxDigits)
    (hs : EndsNumber s) (fuel room : Nat) :
    value (fuel + 1) room ((toString n).toList ++ s) = .ok (.int n, s) := by
  obtain ⟨c, t, ht⟩ := List.exists_cons_of_ne_nil (Nat.toDigits_ne_nil (n := n.natAbs) (b := 10))
  have hc := isDigit_of_mem_toDigits (n := n.natAbs) (c := c) (ht ▸ List.mem_cons_self)
  obtain ⟨start, hvalue⟩ := value_signed fuel room (decide (n < 0)) hc (t ++ s)
  rw [← List.cons_append, ← ht] at hvalue
  rw [toList_int, List.append_assoc, hvalue, number_toDigits start _ hn hs]
  by_cases h : n < 0
  · rw [if_pos (by simpa using h)]
    congr 3
    omega
  · rw [if_neg (by simpa using h)]
    congr 3
    omega

theorem head_marked (n : Marked) : ∃ c t, n.text = c :: t ∧ c.isDigit = true := by
  obtain ⟨whole, fraction, exponent, hwhole, -⟩ := n
  obtain rfl | ⟨hdigits, c, t, rfl, -⟩ := hwhole
  · exact ⟨'0', _, rfl, rfl⟩
  · exact ⟨c, _, rfl, hdigits c List.mem_cons_self⟩

theorem exists_value_double (bits : UInt64) : ∃ b, ∀ (fuel room : Nat) (s : List Char),
    EndsNumber s → value (fuel + 1) room ((Decimal.text floatNames bits).toList ++ s) =
      .ok (.float b, s) := by
  rcases toList_text floatNames bits with h | h | ⟨n, h⟩
  · rw [h]
    exact ⟨_, fun fuel room s _ => rfl⟩
  · rw [h]
    by_cases hneg : isNegative bits
    · rw [if_pos hneg]
      exact ⟨_, fun fuel room s _ => rfl⟩
    · rw [if_neg hneg]
      exact ⟨_, fun fuel room s _ => rfl⟩
  · obtain ⟨c, t, ht, hc⟩ := head_marked n
    refine ⟨markedBits (isNegative bits) n, fun fuel room s hs => ?_⟩
    obtain ⟨start, hvalue⟩ := value_signed fuel room (isNegative bits) hc (t ++ s)
    rw [← List.cons_append, ← ht] at hvalue
    rw [h, List.append_assoc]
    exact hvalue.trans (number_marked start _ n hs)

theorem value_double (bits : UInt64) {s : List Char} (hs : EndsNumber s) (fuel room : Nat) :
    value (fuel + 1) room ((Decimal.text floatNames bits).toList ++ s) =
      .ok (.float (rereadBits bits), s) := by
  obtain ⟨b, hb⟩ := exists_value_double bits
  have hreread : rereadBits bits = b := by
    have hown := hb 0 0 [] endsNumber_nil
    rw [List.append_nil] at hown
    rw [rereadBits, hown]
  rw [hreread]
  exact hb fuel room s hs

/-- What a printed value may start with. -/
def Begins (c : Char) : Prop := c.isDigit = true ∨ c ∈ ['"', '[', '{', 'n', 't', 'f', 'N', 'I', '-']

theorem begins_signed (negative : Bool) {s : List Char} (h : ∃ c t, s = c :: t ∧ c.isDigit = true) :
    ∃ c t, sign negative ++ s = c :: t ∧ Begins c := by
  obtain ⟨c, t, rfl, hc⟩ := h
  cases negative
  · exact ⟨c, t, rfl, .inl hc⟩
  · exact ⟨'-', c :: t, rfl, .inr (by decide)⟩

theorem head_toDigits (n : Nat) : ∃ c t, Nat.toDigits 10 n = c :: t ∧ c.isDigit = true := by
  obtain ⟨c, t, h⟩ := List.exists_cons_of_ne_nil (Nat.toDigits_ne_nil (n := n) (b := 10))
  exact ⟨c, t, h, isDigit_of_mem_toDigits (n := n) (h ▸ List.mem_cons_self)⟩

theorem head_chars (v : Json) : ∃ c t, v.chars .spaced = c :: t ∧ Begins c := by
  cases v with
  | null => exact ⟨_, _, rfl, .inr (by decide)⟩
  | bool b => cases b <;> exact ⟨_, _, rfl, .inr (by decide)⟩
  | int n =>
    rw [chars, toList_int]
    exact begins_signed _ (head_toDigits _)
  | float bits =>
    rw [chars]
    rcases toList_text floatNames bits with h | h | ⟨n, h⟩
    · exact ⟨_, _, congrArg String.toList h, .inr (by decide)⟩
    · by_cases hneg : isNegative bits
      · rw [if_pos hneg] at h
        exact ⟨_, _, congrArg String.toList h, .inr (by decide)⟩
      · rw [if_neg hneg] at h
        exact ⟨_, _, congrArg String.toList h, .inr (by decide)⟩
    · rw [h]
      exact begins_signed _ (head_marked n)
  | str s => exact ⟨_, _, rfl, .inr (by decide)⟩
  | arr items => exact ⟨_, _, rfl, .inr (by decide)⟩
  | obj members => exact ⟨_, _, rfl, .inr (by decide)⟩

theorem Begins.spec {c : Char} (h : Begins c) : isJsonBlank c = false ∧ c ≠ ']' := by
  rcases h with h | h
  · obtain ⟨v, hv, rfl⟩ := eq_digitChar_of_isDigit h
    have hall : ∀ v < 10, isJsonBlank v.digitChar = false ∧ v.digitChar ≠ ']' := by decide
    exact hall v hv
  · have hall : (['"', '[', '{', 'n', 't', 'f', 'N', 'I', '-'].all fun c =>
        !isJsonBlank c && c != ']') = true := by decide
    have hc := List.all_eq_true.1 hall c h
    rw [Bool.and_eq_true, Bool.not_eq_true', bne_iff_ne] at hc
    exact hc

theorem skipBlanks_cons {c : Char} (h : isJsonBlank c = false) (s : List Char) :
    skipBlanks (c :: s) = c :: s := by
  rw [skipBlanks, List.dropWhile_cons, h, if_neg Bool.false_ne_true]

theorem skipBlanks_chars (v : Json) (s : List Char) :
    skipBlanks (v.chars .spaced ++ s) = v.chars .spaced ++ s := by
  obtain ⟨c, t, h, hc⟩ := head_chars v
  rw [h, List.cons_append, skipBlanks_cons hc.spec.1]

theorem skipBlanks_space (s : List Char) : skipBlanks (' ' :: s) = skipBlanks s := rfl

theorem endsNumber_close {c : Char} (h : c = ']' ∨ c = '}' ∨ c = ',') (s : List Char) :
    EndsNumber (c :: s) := by
  rcases h with rfl | rfl | rfl <;> exact endsNumber_cons (by decide)

/-- An array with an item in it is read item by item. -/
theorem value_array (fuel room : Nat) {c : Char} (hc : Begins c) (s : List Char) :
    value (fuel + 1) (room + 1) ('[' :: c :: s) = items fuel room [] (c :: s) := by
  have hblanks := skipBlanks_cons hc.spec.1 s
  simp only [value, hblanks]
  split
  · contradiction
  · rename_i heq
    exact absurd (List.cons.inj heq).1 hc.spec.2
  · rename_i hroom _
    rw [Nat.succ.inj hroom]

theorem value_object (fuel room : Nat) (s : List Char) :
    value (fuel + 1) (room + 1) ('{' :: '"' :: s) = members fuel room [] ('"' :: s) := rfl

theorem items_more {fuel room : Nat} {read : List Json} {s rest : List Char} {v : Json}
    (h : value fuel room s = .ok (v, ',' :: ' ' :: rest)) :
    items (fuel + 1) room read s = items fuel room (v :: read) (skipBlanks rest) := by
  rw [items, h]
  rfl

theorem items_last {fuel room : Nat} {read : List Json} {s rest : List Char} {v : Json}
    (h : value fuel room s = .ok (v, ']' :: rest)) :
    items (fuel + 1) room read s = .ok (.arr (v :: read).reverse, rest) := by
  rw [items, h]
  rfl

/-- A member is read up to the colon after its name. -/
theorem members_name (fuel room : Nat) (read : Members) (name : String) (s : List Char) :
    members (fuel + 1) room read (quoteChars true name ++ ':' :: s) =
      (value fuel room (skipBlanks s) >>= fun (v, s) =>
        match skipBlanks s with
        | '}' :: rest => Except.ok (Json.obj (read.set name v), rest)
        | ',' :: rest => members fuel room (read.set name v) (skipBlanks rest)
        | s => Except.error (Refusal.flaw .expectingComma s.length)) := by
  have hname := text_quoteChars name (':' :: s)
  rw [quoteChars, List.cons_append, List.append_assoc, members, List.singleton_append, hname]
  rfl

theorem members_more {fuel room : Nat} {read : Members} {name : String} {s rest : List Char}
    {v : Json} (h : value fuel room (skipBlanks s) = .ok (v, ',' :: ' ' :: rest)) :
    members (fuel + 1) room read (quoteChars true name ++ ':' :: s) =
      members fuel room (read.set name v) (skipBlanks rest) := by
  rw [members_name, h]
  rfl

theorem members_last {fuel room : Nat} {read : Members} {name : String} {s rest : List Char}
    {v : Json} (h : value fuel room (skipBlanks s) = .ok (v, '}' :: rest)) :
    members (fuel + 1) room read (quoteChars true name ++ ':' :: s) =
      .ok (.obj (read.set name v), rest) := by
  rw [members_name, h]
  rfl

theorem itemChars_cons (v w : Json) (vs : List Json) :
    itemChars .spaced (v :: w :: vs) =
      v.chars .spaced ++ ',' :: ' ' :: itemChars .spaced (w :: vs) := by
  rw [itemChars, List.append_assoc]
  · rfl
  · exact List.cons_ne_nil w vs

theorem memberChars_singleton (k : String) (v : Json) :
    memberChars .spaced [(k, v)] = quoteChars true k ++ ':' :: ' ' :: v.chars .spaced := by
  rw [memberChars, List.append_assoc]
  rfl

theorem memberChars_cons (k l : String) (v w : Json) (ms : Members) :
    memberChars .spaced ((k, v) :: (l, w) :: ms) = quoteChars true k ++
      ':' :: ' ' :: (v.chars .spaced ++ ',' :: ' ' :: memberChars .spaced ((l, w) :: ms)) := by
  rw [memberChars]
  · simp only [List.append_assoc]
    rfl
  · exact List.cons_ne_nil (l, w) ms

theorem head_itemChars (v : Json) (vs : List Json) :
    ∃ c t, itemChars .spaced (v :: vs) = c :: t ∧ Begins c := by
  obtain ⟨c, t, h, hc⟩ := head_chars v
  cases vs with
  | nil => exact ⟨c, t, by rw [itemChars, h], hc⟩
  | cons w vs => exact ⟨c, _, by rw [itemChars_cons, h]; rfl, hc⟩

theorem head_memberChars (k : String) (v : Json) (ms : Members) :
    ∃ t, memberChars .spaced ((k, v) :: ms) = '"' :: t := by
  cases ms with
  | nil => exact ⟨_, rfl⟩
  | cons p ms => exact ⟨_, rfl⟩

mutual

/-- A printed value is read, whatever follows that does not go on with it. -/
theorem value_chars : ∀ (v : Json) (room fuel : Nat) (s : List Char), v.Fits room →
    2 * (v.chars .spaced).length ≤ fuel → EndsNumber s →
      value fuel room (v.chars .spaced ++ s) = .ok (v.reread, s)
  | .null, _, _ + 1, _, _, _, _ => rfl
  | .bool true, _, _ + 1, _, _, _, _ => rfl
  | .bool false, _, _ + 1, _, _, _, _ => rfl
  | .int n, room, fuel + 1, s, hfits, _, hs => value_int hfits hs fuel room
  | .float bits, room, fuel + 1, s, _, _, hs => value_double bits hs fuel room
  | .str t, room, fuel + 1, s, _, _, _ => by
    have ht := text_quoteChars t s
    rw [chars, quoteChars, List.cons_append, List.append_assoc]
    change (text (t.toList.flatMap (escapeChar true) ++ '"' :: s)).map _ = _
    rw [ht]
    rfl
  | .arr [], room + 1, fuel + 1, s, _, _, _ => rfl
  | .arr (v :: vs), room + 1, fuel + 1, s, hfits, hfuel, hs => by
    rw [Fits] at hfits
    rw [chars, List.length_cons, List.length_append, List.length_singleton] at hfuel
    have hitems := items_chars v vs room fuel [] s hfits.2 (by omega)
    rw [chars, List.cons_append, List.append_assoc, List.singleton_append]
    obtain ⟨c, t, ht, hc⟩ := head_itemChars v vs
    rw [ht] at hitems ⊢
    rw [List.cons_append] at hitems ⊢
    rw [value_array fuel room hc, hitems]
    rfl
  | .obj [], room + 1, fuel + 1, s, _, _, _ => rfl
  | .obj ((k, v) :: ms), room + 1, fuel + 1, s, hfits, hfuel, hs => by
    rw [Fits] at hfits
    rw [chars, List.length_cons, List.length_append, List.length_singleton] at hfuel
    have hmembers := members_chars k v ms room fuel [] s hfits.2.2 hfits.2.1 (by omega)
    rw [chars, List.cons_append, List.append_assoc, List.singleton_append]
    obtain ⟨t, ht⟩ := head_memberChars k v ms
    rw [ht] at hmembers ⊢
    rw [List.cons_append] at hmembers ⊢
    rw [value_object fuel room, hmembers]
    rfl
  | .arr _, 0, _ + 1, _, hfits, _, _ => absurd hfits.1 (Nat.lt_irrefl 0)
  | .obj _, 0, _ + 1, _, hfits, _, _ => absurd hfits.1 (Nat.lt_irrefl 0)
  | v, _, 0, _, _, hfuel, _ => by
    obtain ⟨c, t, h, -⟩ := head_chars v
    rw [h, List.length_cons] at hfuel
    omega

theorem items_chars : ∀ (v : Json) (vs : List Json) (room fuel : Nat) (read : List Json)
    (s : List Char), FitItems room (v :: vs) → 2 * (itemChars .spaced (v :: vs)).length + 1 ≤ fuel →
      items fuel room read (itemChars .spaced (v :: vs) ++ ']' :: s) =
        .ok (.arr (read.reverse ++ rereadItems (v :: vs)), s)
  | v, [], room, fuel + 1, read, s, hfits, hfuel => by
    have hv := value_chars v room fuel (']' :: s) hfits.1 (by simpa [itemChars] using hfuel)
      (endsNumber_close (.inl rfl) s)
    rw [itemChars, items_last hv, List.reverse_cons]
    rfl
  | v, w :: vs, room, fuel + 1, read, s, hfits, hfuel => by
    rw [itemChars_cons, List.length_append, List.length_cons, List.length_cons] at hfuel
    obtain ⟨c, t, ht, hc⟩ := head_itemChars w vs
    have hv := value_chars v room fuel (',' :: ' ' :: (itemChars .spaced (w :: vs) ++ ']' :: s))
      hfits.1 (by omega) (endsNumber_close (.inr (.inr rfl)) _)
    have hrest := items_chars w vs room fuel (v.reread :: read) s hfits.2 (by omega)
    rw [itemChars_cons, List.append_assoc, List.cons_append, List.cons_append, items_more hv]
    rw [ht, List.cons_append, skipBlanks_cons hc.spec.1, ← List.cons_append, ← ht, hrest,
      List.reverse_cons, List.append_assoc]
    rfl
  | _, _, _, 0, _, _, _, hfuel => absurd hfuel (by omega)

theorem members_chars : ∀ (k : String) (v : Json) (ms : Members) (room fuel : Nat) (read : Members)
    (s : List Char), FitMembers room ((k, v) :: ms) →
      (Table.keys read ++ Table.keys ((k, v) :: ms)).Nodup →
      2 * (memberChars .spaced ((k, v) :: ms)).length + 1 ≤ fuel →
      members fuel room read (memberChars .spaced ((k, v) :: ms) ++ '}' :: s) =
        .ok (.obj (read ++ rereadMembers ((k, v) :: ms)), s)
  | k, v, [], room, fuel + 1, read, s, hfits, hkeys, hfuel => by
    rw [memberChars_singleton, List.length_append, List.length_cons, List.length_cons] at hfuel
    have hv := value_chars v room fuel ('}' :: s) hfits.1 (by omega)
      (endsNumber_close (.inr (.inl rfl)) s)
    have hnew : k ∉ Table.keys read := by
      intro hk
      exact (List.nodup_append.1 hkeys).2.2 k hk k List.mem_cons_self rfl
    rw [← skipBlanks_chars, ← skipBlanks_space] at hv
    rw [memberChars_singleton, List.append_assoc, List.cons_append, List.cons_append,
      members_last hv, set_of_not_mem _ hnew]
    rfl
  | k, v, (l, w) :: ms, room, fuel + 1, read, s, hfits, hkeys, hfuel => by
    rw [memberChars_cons, List.length_append, List.length_cons, List.length_cons,
      List.length_append, List.length_cons, List.length_cons] at hfuel
    obtain ⟨t, ht⟩ := head_memberChars l w ms
    have hv := value_chars v room fuel
      (',' :: ' ' :: (memberChars .spaced ((l, w) :: ms) ++ '}' :: s)) hfits.1 (by omega)
      (endsNumber_close (.inr (.inr rfl)) _)
    have hnew : k ∉ Table.keys read := by
      intro hk
      exact (List.nodup_append.1 hkeys).2.2 k hk k List.mem_cons_self rfl
    have hlater : (Table.keys (read ++ [(k, v.reread)]) ++ Table.keys ((l, w) :: ms)).Nodup := by
      rw [Table.keys, List.map_append, List.append_assoc]
      exact hkeys
    have hrest := members_chars l w ms room fuel (read ++ [(k, v.reread)]) s hfits.2 hlater
      (by omega)
    rw [← skipBlanks_chars, ← skipBlanks_space] at hv
    rw [memberChars_cons, List.append_assoc, List.cons_append, List.cons_append, List.append_assoc,
      List.cons_append, List.cons_append, members_more hv, set_of_not_mem _ hnew]
    rw [ht, List.cons_append, skipBlanks_cons (by decide), ← List.cons_append, ← ht, hrest,
      List.append_assoc]
    rfl
  | _, _, _, _, 0, _, _, _, _, hfuel => absurd hfuel (by omega)

end

/-- A printed value that a reader takes is read back, but for its doubles. -/
theorem parse_render {v : Json} (h : v.Fits maxNesting) :
    parse (v.render .spaced) = .ok v.reread := by
  have hvalue := value_chars v maxNesting (2 * (v.chars .spaced).length + 2) [] h (by omega)
    endsNumber_nil
  have hstart := skipBlanks_chars v []
  rw [List.append_nil] at hvalue hstart
  rw [parse, parseWithin, render, String.toList_ofList, read, hstart, hvalue]
  rfl

end TraitTrace.Json
