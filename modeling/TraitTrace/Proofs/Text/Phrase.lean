import TraitTrace.Text.Line
import TraitTrace.Text.Phrase

/-! Reading phrases. A phrase is read back from a text that has its words and names in turn, and it
is not found in a text that lacks some of its words. Words that are parted by a character that they
do not have are looked for on either side of it. -/

namespace TraitTrace.Text

theorem afterChars?_append (w s : List Char) : afterChars? w (w ++ s) = some s := by
  induction w with
  | nil => rfl
  | cons c w ih => rw [List.cons_append, afterChars?, if_pos rfl, ih]

theorem afterChars?_eq_none {w s : List Char} (h : ¬w <+: s) : afterChars? w s = none := by
  induction w generalizing s with
  | nil => exact absurd List.nil_prefix h
  | cons c w ih =>
    cases s with
    | nil => rfl
    | cons d s =>
      rw [afterChars?]
      split
      · rename_i hc
        exact ih fun hw => h (List.cons_prefix_cons.2 ⟨hc, hw⟩)
      · rfl

theorem readParts_words (w : String) (ps : List Part) (s : List Char) :
    readParts (.words w :: ps) (w.toList ++ s) = readParts ps s := by
  rw [readParts, afterChars?_append, Option.bind_some]

theorem readParts_words_eq_none {w : String} {s : List Char} (h : ¬w.toList <+: s)
    (ps : List Part) : readParts (.words w :: ps) s = none := by
  rw [readParts, afterChars?_eq_none h, Option.bind_none]

theorem readParts_name {name : List Char} (hne : name ≠ []) (hname : '`' ∉ name) (ps : List Part)
    (s : List Char) : readParts (.name :: ps) (name ++ '`' :: s) =
      (readParts ps ('`' :: s)).map (String.ofList name :: ·) := by
  have hall : ∀ c ∈ name, (c != '`') = true := by
    intro c hc
    rw [bne_iff_ne]
    rintro rfl
    exact hname hc
  have htake : (name ++ '`' :: s).takeWhile (· != '`') = name := by
    rw [List.takeWhile_append_of_pos hall, List.takeWhile_cons_of_neg (by simp), List.append_nil]
  have hdrop : (name ++ '`' :: s).dropWhile (· != '`') = '`' :: s := by
    rw [List.dropWhile_append_of_pos hall, List.dropWhile_cons_of_neg (by simp)]
  rw [readParts]
  simp only [htake, hdrop, if_neg hne]

theorem beforeLast_append (mark s : List Char) (hne : mark ≠ []) :
    beforeLast mark (s ++ mark) = some s := by
  have hshort : ∀ {t : List Char}, t.length < mark.length → beforeLast mark t = none := by
    intro t ht
    induction t with
    | nil => rw [beforeLast, if_neg hne]
    | cons c t ih =>
      rw [List.length_cons] at ht
      have hfront : ¬mark.isPrefixOf (c :: t) = true := by
        rw [List.isPrefixOf_iff_prefix]
        intro h
        have hle := h.length_le
        rw [List.length_cons] at hle
        omega
      rw [beforeLast, ih (by omega), if_neg hfront]
  induction s with
  | nil =>
    obtain ⟨c, t, rfl⟩ := List.exists_cons_of_ne_nil hne
    have hself : (c :: t).isPrefixOf (c :: t) = true :=
      List.isPrefixOf_iff_prefix.2 List.prefix_rfl
    rw [List.nil_append, beforeLast, hshort (by simp), if_pos hself]
  | cons c s ih => rw [List.cons_append, beforeLast, ih]

section Lacks

variable {mark a b : List Char} {c : Char}

theorem not_prefix_of_lacks (h : ¬mark <:+: a) : ¬mark <+: a := fun hp => h hp.isInfix

theorem not_infix_of_cons (h : ¬mark <:+: c :: a) : ¬mark <:+: a :=
  fun hi => h (List.infix_cons_iff.2 (.inr hi))

/-- Words that do not have a character do not go on across it. -/
theorem not_prefix_append (hc : c ∉ mark) (ha : ¬mark <+: a) : ¬mark <+: a ++ c :: b := by
  rintro ⟨t, heq⟩
  rcases List.append_eq_append_iff.1 heq with ⟨u, rfl, -⟩ | ⟨u, rfl, hu⟩
  · exact ha ⟨u, rfl⟩
  · cases u with
    | nil => exact ha ⟨[], by simp⟩
    | cons d u =>
      cases hu
      exact hc (List.mem_append_right _ List.mem_cons_self)

theorem not_infix_append (hc : c ∉ mark) (ha : ¬mark <:+: a) (hb : ¬mark <:+: b) :
    ¬mark <:+: a ++ c :: b := by
  induction a with
  | nil =>
    rw [List.nil_append, List.infix_cons_iff, not_or]
    exact ⟨not_prefix_append (a := []) hc (not_prefix_of_lacks ha), hb⟩
  | cons d a ih =>
    rw [List.cons_append, List.infix_cons_iff, not_or]
    exact ⟨not_prefix_append (a := d :: a) hc (not_prefix_of_lacks ha),
      ih (not_infix_of_cons ha)⟩

theorem beforeFirst_eq_self (h : ¬mark <:+: a) : beforeFirst mark a = a := by
  induction a with
  | nil => rfl
  | cons d a ih =>
    have hfront : ¬mark.isPrefixOf (d :: a) = true := by
      rw [List.isPrefixOf_iff_prefix]
      exact not_prefix_of_lacks h
    rw [beforeFirst, if_neg hfront, ih (not_infix_of_cons h)]

/-- Whether a text lacks words is told by looking for their first place. -/
theorem not_infix_iff (hne : mark ≠ []) : ¬mark <:+: a ↔ beforeFirst mark a = a := by
  refine ⟨beforeFirst_eq_self, fun h => ?_⟩
  induction a with
  | nil => exact fun hi => hne (List.infix_nil.1 hi)
  | cons d a ih =>
    rw [beforeFirst] at h
    split at h
    · cases h
    · rename_i hfront
      rw [List.isPrefixOf_iff_prefix] at hfront
      rw [List.infix_cons_iff, not_or]
      exact ⟨hfront, ih (List.cons.inj h).2⟩

theorem beforeFirst_append (hc : c ∉ mark) (h : ¬mark <:+: a) :
    beforeFirst mark (a ++ c :: b) = a ++ c :: beforeFirst mark b := by
  induction a with
  | nil =>
    have hfront : ¬mark.isPrefixOf (c :: b) = true := by
      rw [List.isPrefixOf_iff_prefix]
      exact not_prefix_append (a := []) hc (not_prefix_of_lacks h)
    rw [List.nil_append, beforeFirst, if_neg hfront, List.nil_append]
  | cons d a ih =>
    have hfront : ¬mark.isPrefixOf (d :: (a ++ c :: b)) = true := by
      rw [List.isPrefixOf_iff_prefix]
      exact not_prefix_append (a := d :: a) hc (not_prefix_of_lacks h)
    rw [List.cons_append, beforeFirst, if_neg hfront, ih (not_infix_of_cons h), List.cons_append]

theorem beforeFirst_mark (hne : mark ≠ []) (s : List Char) : beforeFirst mark (mark ++ s) = [] := by
  obtain ⟨d, mark, rfl⟩ := List.exists_cons_of_ne_nil hne
  have hfront : (d :: mark).isPrefixOf (d :: (mark ++ s)) = true := by
    rw [List.isPrefixOf_iff_prefix]
    exact ⟨s, rfl⟩
  rw [List.cons_append, beforeFirst, if_pos hfront]

theorem beforeFirst_skip {s : List Char} (h : ∀ c ∈ s, mark.head? ≠ some c) (hne : mark ≠ []) :
    beforeFirst mark (s ++ a) = s ++ beforeFirst mark a := by
  obtain ⟨d, mark, rfl⟩ := List.exists_cons_of_ne_nil hne
  induction s with
  | nil => rfl
  | cons c s ih =>
    have hfront : ¬(d :: mark).isPrefixOf (c :: (s ++ a)) = true := by
      rw [List.isPrefixOf_iff_prefix]
      intro hp
      exact h c List.mem_cons_self (congrArg some (List.cons_prefix_cons.1 hp).1)
    rw [List.cons_append, beforeFirst, if_neg hfront,
      ih fun e he => h e (List.mem_cons_of_mem _ he), List.cons_append]

/-- What needs words at its place fits first where they first stand, or nowhere. -/
theorem firstPlace_beforeFirst {α : Type} {f : List Char → Option α}
    (hf : ∀ s, ¬mark <+: s → f s = none) {s t : List Char} (hs : s = beforeFirst mark s ++ t) :
    firstPlace f s = firstPlace f t := by
  induction s with
  | nil =>
    have ht : [] = t := hs
    rw [← ht]
  | cons c s ih =>
    rw [beforeFirst] at hs
    split at hs
    · rw [List.nil_append] at hs
      rw [hs]
    · rename_i hfront
      rw [List.isPrefixOf_iff_prefix] at hfront
      rw [firstPlace, hf _ hfront]
      exact ih (List.cons.inj hs).2

theorem firstPlace_eq_none {α : Type} {f : List Char → Option α} {s : List Char}
    (hf : ∀ s, ¬mark <+: s → f s = none) (hne : mark ≠ []) (hs : ¬mark <:+: s) :
    firstPlace f s = none := by
  have hempty : f [] = none := hf [] fun hp => hne (List.prefix_nil.1 hp)
  rw [firstPlace_beforeFirst hf (t := []) (by rw [beforeFirst_eq_self hs, List.append_nil])]
  exact hempty

end Lacks

theorem firstPlace_of_some {α : Type} {f : List Char → Option α} {s : List Char} {a : α}
    (h : f s = some a) : firstPlace f s = some a := by
  cases s with
  | nil => exact h
  | cons c s => rw [firstPlace, h]

theorem phraseIn_eq_none (w : String) {mark : List Char} (hw : mark <+: w.toList)
    (hne : mark ≠ []) {s : String} (hs : ¬mark <:+: s.toList) (ps : List Part) :
    phraseIn (.words w :: ps) s = none := by
  refine firstPlace_eq_none (fun t ht => ?_) hne hs
  exact readParts_words_eq_none (fun hp => ht (hw.trans hp)) ps

theorem phraseAt_eq_none (w : String) {mark : List Char} (hw : mark <+: w.toList) {c : Char}
    (hc : c ∉ mark) {words rest : List Char} (hwords : ¬mark <+: words) {s : String}
    (hs : s.toList = words ++ c :: rest) (ps : List Part) : phraseAt (.words w :: ps) s = none := by
  refine readParts_words_eq_none (fun hp => ?_) ps
  rw [hs] at hp
  exact not_prefix_append hc hwords (hw.trans hp)

theorem linesFrom_of_noBreak {s : List Char} (h : ∀ c ∈ s, isLineBreak c = false)
    (line rest : List Char) : linesFrom line (s ++ rest) = linesFrom (s.reverse ++ line) rest := by
  induction s generalizing line with
  | nil => rfl
  | cons c s ih =>
    have hc := h c List.mem_cons_self
    have hreturn : c ≠ '\r' := by
      rintro rfl
      exact absurd hc (by decide)
    rw [List.cons_append, linesFrom.eq_4 _ _ _ (by simp [hreturn]), hc, if_neg Bool.false_ne_true,
      ih fun d hd => h d (List.mem_cons_of_mem _ hd)]
    simp

theorem headLine_of_noBreak {s : String} (h : ∀ c ∈ s.toList, isLineBreak c = false)
    (hstrip : strip s.toList = s.toList) : headLine s = s := by
  have hlines := linesFrom_of_noBreak h [] []
  rw [List.append_nil, List.append_nil] at hlines
  have hlast : ∀ line : List Char, (linesFrom line []).headD [] = line.reverse := by
    intro line
    cases line <;> rfl
  rw [headLine, hstrip, lines, hlines, hlast, List.reverse_reverse, String.ofList_toList]

/-- A text of one line is its first line. -/
theorem firstLine_of_noBreak {s : String} (h : ∀ c ∈ s.toList, isLineBreak c = false)
    (hstrip : strip s.toList = s.toList) : firstLine s = s := by
  rw [firstLine, headLine_of_noBreak h hstrip, stripped, hstrip, String.ofList_toList]

/-- What stands before a line feed is the first line. -/
theorem firstLine_append {s rest : String} (h : ∀ c ∈ s.toList, isLineBreak c = false)
    (hstrip : strip s.toList = s.toList)
    (hall : strip (s.toList ++ '\n' :: rest.toList) = s.toList ++ '\n' :: rest.toList) :
    firstLine (s ++ "\n" ++ rest) = s := by
  have hbreak : isLineBreak '\n' = true := by decide
  have hlist : (s ++ "\n" ++ rest).toList = s.toList ++ '\n' :: rest.toList := by
    rw [String.toList_append, String.toList_append, List.append_assoc]
    rfl
  have hhead : headLine (s ++ "\n" ++ rest) = s := by
    rw [headLine, hlist, hall, lines, linesFrom_of_noBreak h, linesFrom.eq_4 _ _ _ (by simp),
      hbreak, if_pos rfl, List.headD_cons, List.append_nil, List.reverse_reverse,
      String.ofList_toList]
  rw [firstLine, hhead, stripped, hstrip, String.ofList_toList]

end TraitTrace.Text
