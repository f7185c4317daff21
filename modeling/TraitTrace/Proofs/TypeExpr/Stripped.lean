import TraitTrace.Proofs.TypeExpr.Tree
import TraitTrace.TypeExpr.Path

/-! Types without their module paths. Dropping the paths of a printed type leaves the print of the
same type with every path cut to the name it leads to, as long as the paths are made of ASCII
identifiers and lead to a name that begins like one. A path is told by what stands around it, so
that the text after a type matters only where it would go on with the type's last name. -/

namespace TraitTrace.TypeExpr

open Text

/-- An identifier of ASCII letters, digits and underscores. -/
def Name.IsAscii (n : Name) : Prop :=
  n.chars.head?.any isNameStart = true ∧ n.chars.all isNameChar = true

instance (n : Name) : Decidable n.IsAscii := inferInstanceAs (Decidable (_ ∧ _))

/-- A head with a path that is dropped: one of ASCII identifiers that leads to a letter or an
underscore. A name without path may have any characters. -/
structure Head.Plain (h : Head) : Prop where
  modules : ∀ n ∈ h.path, n.IsAscii
  leads : h.path ≠ [] → leadsTo h.name.chars = true

def Head.bare (h : Head) : Head := ⟨[], h.name⟩

mutual

/-- The type with names in the place of paths. -/
def Tree.bare : Tree → Tree
  | .leaf head => .leaf head.bare
  | .applied head args => .applied head.bare args.bare
  | .lifetime name => .lifetime name
  | .literal chars isLiteral => .literal chars isLiteral
  | .group bracket items => .group bracket items.bare

def Trees.bare : Trees → Trees
  | .nil => .nil
  | .last t => .last t.bare
  | .more t gap rest => .more t.bare gap rest.bare

end

theorem Trees.toList_bare (ts : Trees) : ts.bare.toList = ts.toList.map Tree.bare := by
  cases ts with
  | nil => rfl
  | last t => rfl
  | more t gap rest => rw [bare, toList, toList, rest.toList_bare, List.map_cons]

mutual

/-- The heads and the literals of a type are such. -/
def Tree.Forall (p : Head → Prop) (q : List Char → Prop) : Tree → Prop
  | .leaf head => p head
  | .applied head args => p head ∧ args.Forall p q
  | .lifetime _ => True
  | .literal chars _ => q chars
  | .group _ items => items.Forall p q

def Trees.Forall (p : Head → Prop) (q : List Char → Prop) : Trees → Prop
  | .nil => True
  | .last t => t.Forall p q
  | .more t _ rest => t.Forall p q ∧ rest.Forall p q

end

theorem isNameChar_of_isNameStart {c : Char} (h : isNameStart c = true) : isNameChar c = true := by
  simp only [isNameStart, isNameChar, Char.isAlphanum, Bool.or_eq_true] at h ⊢
  rcases h with h | h
  · exact .inl (.inl h)
  · exact .inr h

/-- A text that neither goes on with a name nor with the mark that makes one a path segment. -/
def Closed (s : List Char) : Prop :=
  ∀ c rest, s = c :: rest → isNameChar c = false ∧ (c = ':' → rest.head? ≠ some ':')

theorem closed_nil : Closed [] := nofun

theorem closed_cons {c : Char} (h : isNameChar c = false) (hcolon : c ≠ ':') (s : List Char) :
    Closed (c :: s) := by
  intro d rest heq
  cases heq
  exact ⟨h, fun hc => absurd hc hcolon⟩

theorem dropWhile_word {w s : List Char} (hw : ':' ∉ w) (hs : Closed s) (rest : List Char) :
    (w ++ s).dropWhile isNameChar ≠ ':' :: ':' :: rest := by
  induction w with
  | nil =>
    cases s with
    | nil => nofun
    | cons c s =>
      obtain ⟨hc, hcolon⟩ := hs c s rfl
      rw [List.nil_append, List.dropWhile_cons_of_neg (by simp [hc])]
      intro heq
      cases heq
      exact hcolon rfl rfl
  | cons c w ih =>
    rw [List.mem_cons, not_or] at hw
    rw [List.cons_append, List.dropWhile_cons]
    split
    · exact ih hw.2
    · exact fun heq => hw.1 (List.cons.inj heq).1.symm

theorem segment?_word {w s : List Char} (hw : ':' ∉ w) (hs : Closed s) :
    segment? (w ++ s) = none := by
  have hnone : ∀ {c : Char} {t : List Char}, (∀ rest, t.dropWhile isNameChar ≠ ':' :: ':' :: rest) →
      segment? (c :: t) = none := by
    intro c t ht
    rw [segment?]
    split
    · split
      · rename_i rest hdrop
        exact absurd hdrop (ht rest)
      · rfl
    · rfl
  cases w with
  | cons c w =>
    rw [List.mem_cons, not_or] at hw
    exact hnone (dropWhile_word hw.2 hs)
  | nil =>
    cases s with
    | nil => rfl
    | cons c s =>
      have hstart : isNameStart c = false := by
        rw [← Bool.not_eq_true]
        intro hstart
        have hchar := (hs c s rfl).1
        rw [isNameChar_of_isNameStart hstart] at hchar
        cases hchar
      rw [List.nil_append, segment?, hstart]
      rfl

theorem segments_of_none {s : List Char} (h : segment? s = none) : segments s = [] := by
  unfold segments
  split
  · rfl
  · rename_i n hn
    rw [h] at hn
    cases hn

theorem segments_of_some {s : List Char} {n : Nat} (h : segment? s = some n) :
    segments s = n :: segments (s.drop n) := by
  rw [segments]
  split
  · rename_i hn
    rw [h] at hn
    cases hn
  · rename_i m hm
    rw [h] at hm
    cases hm
    rfl

theorem pathLength_word {w s : List Char} (hw : ':' ∉ w) (hs : Closed s) :
    pathLength (w ++ s) = 0 := by
  rw [pathLength, segments_of_none (segment?_word hw hs)]
  split <;> rfl

/-- What stands before a closed text does not matter to it. -/
theorem dropPathsFrom_closed {s : List Char} (hs : Closed s) (previous : Option Char) :
    dropPathsFrom previous 0 s = dropPathsFrom none 0 s := by
  cases s with
  | nil => rfl
  | cons c s =>
    have hlength : pathLength (c :: s) = 0 := pathLength_word (w := []) (by simp) hs
    have hnone : joinsName none = false := rfl
    rw [dropPathsFrom, dropPathsFrom, hlength, hnone]
    split <;> rfl

/-- A word without colons is left. -/
theorem dropPathsFrom_word {w s : List Char} (hw : ':' ∉ w) (hs : Closed s)
    (previous : Option Char) :
    dropPathsFrom previous 0 (w ++ s) = w ++ dropPathsFrom none 0 s := by
  induction w generalizing previous with
  | nil => exact dropPathsFrom_closed hs previous
  | cons c w ih =>
    have hlength : pathLength (c :: (w ++ s)) = 0 := pathLength_word (w := c :: w) hw hs
    rw [List.mem_cons, not_or] at hw
    rw [List.cons_append, dropPathsFrom, hlength, ih hw.2]
    split <;> rfl

theorem dropPathsFrom_skip (s t : List Char) (previous : Option Char) :
    dropPathsFrom previous s.length (s ++ t) = dropPathsFrom (s.getLast?.or previous) 0 t := by
  induction s generalizing previous with
  | nil => rfl
  | cons c s ih =>
    rw [List.cons_append, List.length_cons, dropPathsFrom, ih, List.getLast?_cons]
    cases s.getLast? <;> rfl

def Name.segment (n : Name) : List Char := n.chars ++ [':', ':']

theorem Name.IsAscii.segment?_eq {n : Name} (h : n.IsAscii) (s : List Char) :
    segment? (n.segment ++ s) = some n.segment.length := by
  obtain ⟨hfirst, hall⟩ := h
  obtain ⟨c, cs, hn⟩ := List.exists_cons_of_ne_nil n.ne_nil
  rw [hn] at hfirst
  rw [hn, List.all_cons, Bool.and_eq_true] at hall
  have hstart : isNameStart c = true := hfirst
  have hchars := List.all_eq_true.1 hall.2
  have hcolon : isNameChar ':' = false := by decide
  have htake : (cs ++ ':' :: ':' :: s).takeWhile isNameChar = cs := by
    rw [List.takeWhile_append_of_pos hchars, List.takeWhile_cons_of_neg (by simp [hcolon]),
      List.append_nil]
  have hdrop : (cs ++ ':' :: ':' :: s).dropWhile isNameChar = ':' :: ':' :: s := by
    rw [List.dropWhile_append_of_pos hchars, List.dropWhile_cons_of_neg (by simp [hcolon])]
  have htext : n.segment ++ s = c :: (cs ++ ':' :: ':' :: s) := by
    rw [segment, hn]
    simp
  rw [htext, segment?, hstart, if_pos rfl, hdrop, htake]
  simp [segment, hn]

namespace Head

variable {h : Head} {s : List Char}

theorem text_eq (h : Head) : h.text = h.path.flatMap Name.segment ++ h.name.chars := rfl

theorem Plain.segments_eq (hh : h.Plain) (hs : Closed s) :
    segments (h.text ++ s) = h.path.map fun n => n.segment.length := by
  have hpath : ∀ path : List Name, (∀ n ∈ path, n.IsAscii) →
      segments (path.flatMap Name.segment ++ (h.name.chars ++ s)) =
        path.map fun n => n.segment.length := by
    intro path hascii
    induction path with
    | nil =>
      rw [List.flatMap_nil, List.nil_append]
      exact segments_of_none (segment?_word h.name.colon_not_mem hs)
    | cons n path ih =>
      have hn := (hascii n List.mem_cons_self).segment?_eq
        (path.flatMap Name.segment ++ (h.name.chars ++ s))
      rw [List.flatMap_cons, List.append_assoc, segments_of_some hn, List.drop_left,
        ih fun m hm => hascii m (List.mem_cons_of_mem _ hm), List.map_cons]
  rw [text_eq, List.append_assoc]
  exact hpath h.path hh.modules

theorem Plain.pathLength_eq (hh : h.Plain) (hs : Closed s) :
    pathLength (h.text ++ s) = (h.path.flatMap Name.segment).length := by
  have hsum : ∀ (path : List Name) (k : Nat),
      (path.map fun n => n.segment.length).foldl (· + ·) k =
        k + (path.flatMap Name.segment).length := by
    intro path
    induction path with
    | nil => exact fun k => rfl
    | cons n path ih =>
      intro k
      rw [List.map_cons, List.foldl_cons, ih, List.flatMap_cons, List.length_append, Nat.add_assoc]
  have hdrop : (h.text ++ s).drop (h.path.flatMap Name.segment).length = h.name.chars ++ s := by
    rw [text_eq, List.append_assoc, List.drop_left]
  rw [pathLength, hh.segments_eq hs]
  simp only [hsum, Nat.zero_add, hdrop]
  split
  · rfl
  · rename_i hleads
    cases hpath : h.path with
    | nil => rfl
    | cons n path =>
      have hname := hh.leads (by rw [hpath]; exact List.cons_ne_nil _ _)
      obtain ⟨c, cs, hc⟩ := List.exists_cons_of_ne_nil h.name.ne_nil
      rw [hc] at hname hleads
      exact absurd hname hleads

theorem Plain.dropPathsFrom_eq (hh : h.Plain) (hs : Closed s) {previous : Option Char}
    (hprevious : joinsName previous = false) :
    dropPathsFrom previous 0 (h.text ++ s) = h.name.chars ++ dropPathsFrom none 0 s := by
  have hlength := hh.pathLength_eq hs
  cases hpath : h.path.flatMap Name.segment with
  | nil =>
    rw [text_eq, hpath, List.nil_append]
    exact dropPathsFrom_word h.name.colon_not_mem hs previous
  | cons c cs =>
    rw [text_eq, hpath, List.cons_append, List.cons_append] at hlength
    rw [text_eq, hpath, List.cons_append, List.cons_append, dropPathsFrom, hprevious,
      if_neg Bool.false_ne_true, hlength]
    change dropPathsFrom (some c) cs.length _ = _
    rw [List.append_assoc, dropPathsFrom_skip]
    exact dropPathsFrom_word h.name.colon_not_mem hs _

end Head

/-- The characters up to the first literal. -/
def leading : List Piece → List Char
  | .plain c :: ps => c :: leading ps
  | _ => []

/-- What is left of pieces from the first literal on once paths are dropped. -/
def trailing : List Piece → List Char
  | [] => []
  | .literal cs :: ps => cs ++ dropPaths [] ps
  | .plain _ :: ps => trailing ps

/-- Drops the paths of pieces that stand after a character. -/
def dropPathsAfter (previous : Option Char) (ps : List Piece) : List Char :=
  dropPathsFrom previous 0 (leading ps) ++ trailing ps

theorem dropPaths_eq (run : List Char) (ps : List Piece) :
    dropPaths run ps = dropPathsFrom none 0 (run.reverse ++ leading ps) ++ trailing ps := by
  induction ps generalizing run with
  | nil => simp [dropPaths, leading, trailing]
  | cons p ps ih =>
    cases p with
    | literal cs => simp [dropPaths, leading, trailing]
    | plain c => simp [dropPaths, leading, trailing, ih]

theorem dropPaths_nil (ps : List Piece) : dropPaths [] ps = dropPathsAfter none ps :=
  dropPaths_eq [] ps

section Pieces

variable {previous : Option Char} {ps : List Piece}

theorem leading_append (s : List Char) (ps : List Piece) :
    leading (s.map .plain ++ ps) = s ++ leading ps := by
  induction s with
  | nil => rfl
  | cons c s ih => rw [List.map_cons, List.cons_append, leading, ih, List.cons_append]

theorem trailing_append (s : List Char) (ps : List Piece) :
    trailing (s.map .plain ++ ps) = trailing ps := by
  induction s with
  | nil => rfl
  | cons c s ih => rw [List.map_cons, List.cons_append, trailing, ih]

theorem dropPathsAfter_literal (cs : List Char) :
    dropPathsAfter previous (.literal cs :: ps) = cs ++ dropPathsAfter none ps := by
  rw [← dropPaths_nil]
  rfl

theorem dropPathsAfter_closed (hs : Closed (leading ps)) :
    dropPathsAfter previous ps = dropPathsAfter none ps := by
  rw [dropPathsAfter, dropPathsFrom_closed hs]
  rfl

theorem dropPathsAfter_word {w : List Char} (hw : ':' ∉ w) (hs : Closed (leading ps)) :
    dropPathsAfter previous (w.map .plain ++ ps) = w ++ dropPathsAfter none ps := by
  rw [dropPathsAfter, leading_append, trailing_append, dropPathsFrom_word hw hs, List.append_assoc]
  rfl

theorem Head.Plain.dropPathsAfter_eq {h : Head} (hh : h.Plain) (hs : Closed (leading ps))
    (hprevious : joinsName previous = false) :
    dropPathsAfter previous (h.text.map .plain ++ ps) = h.name.chars ++ dropPathsAfter none ps := by
  rw [dropPathsAfter, leading_append, trailing_append, hh.dropPathsFrom_eq hs hprevious,
    List.append_assoc]
  rfl

/-- A character that starts no name is left. -/
theorem dropPathsAfter_cons {c : Char} (hc : isNameStart c = false) :
    dropPathsAfter previous (.plain c :: ps) = c :: dropPathsAfter (some c) ps := by
  have hsegment : segment? (c :: leading ps) = none := by
    rw [segment?, hc]
    rfl
  have hlength : pathLength (c :: leading ps) = 0 := by
    rw [pathLength, segments_of_none hsegment]
    split <;> rfl
  rw [dropPathsAfter, leading, trailing, dropPathsFrom, hlength]
  split <;> rfl

end Pieces

/-- A mark after which a path may start, and which neither starts nor goes on with a name. -/
def isDelimiter (c : Char) : Bool := !isNameChar c && c != ':' && c != '\''

section Delimiters

variable {c : Char} {previous : Option Char} {ps : List Piece}

theorem isDelimiter_iff :
    isDelimiter c = true ↔ isNameChar c = false ∧ c ≠ ':' ∧ c ≠ '\'' := by
  simp [isDelimiter, and_assoc]

theorem closed_delimiter (h : isDelimiter c = true) : Closed (leading (.plain c :: ps)) := by
  obtain ⟨hname, hcolon, -⟩ := isDelimiter_iff.1 h
  exact closed_cons hname hcolon _

theorem joinsName_delimiter (h : isDelimiter c = true) : joinsName (some c) = false := by
  obtain ⟨hname, -, hquote⟩ := isDelimiter_iff.1 h
  simp [joinsName, hname, hquote]

theorem dropPathsAfter_delimiter (h : isDelimiter c = true) :
    dropPathsAfter previous (.plain c :: ps) = c :: dropPathsAfter (some c) ps := by
  obtain ⟨hname, -, -⟩ := isDelimiter_iff.1 h
  refine dropPathsAfter_cons ?_
  rw [← Bool.not_eq_true]
  intro hstart
  rw [isNameChar_of_isNameStart hstart] at hname
  cases hname

end Delimiters

theorem toNat_of_isNameChar {c : Char} (h : isNameChar c = true) :
    48 ≤ c.toNat ∧ c.toNat ≤ 122 := by
  delta isNameChar Char.isAlphanum Char.isAlpha Char.isUpper Char.isLower Char.isDigit at h
  simp only [Bool.or_eq_true, Bool.and_eq_true, decide_eq_true_eq, beq_iff_eq, ge_iff_le,
    UInt32.le_iff_toNat_le] at h
  rcases h with ((h | h) | h) | rfl
  · exact ⟨Nat.le_trans (by decide) h.1, Nat.le_trans h.2 (by decide)⟩
  · exact ⟨Nat.le_trans (by decide) h.1, Nat.le_trans h.2 (by decide)⟩
  · exact ⟨Nat.le_trans (by decide) h.1, Nat.le_trans h.2 (by decide)⟩
  · decide

theorem isDelimiter_of_isBlank {c : Char} (h : isBlank c = true) : isDelimiter c = true := by
  refine isDelimiter_iff.2 ⟨?_, ?_, ?_⟩
  · rw [← Bool.not_eq_true]
    intro hname
    obtain ⟨r, hr, hlow, hhigh⟩ := inRanges_iff.1 h
    have hrange : c.toNat < 48 ∨ 122 < c.toNat := by
      simp only [blankRanges, List.mem_cons, List.not_mem_nil, or_false] at hr
      rcases hr with rfl | rfl | rfl | rfl | rfl | rfl | rfl | rfl | rfl | rfl <;>
        simp only at hlow hhigh <;> omega
    have hletter : 48 ≤ c.toNat ∧ c.toNat ≤ 122 := toNat_of_isNameChar hname
    omega
  · rintro rfl
    exact absurd h (by decide)
  · rintro rfl
    exact absurd h (by decide)

theorem isDelimiter_opening (b : Bracket) : isDelimiter b.opening = true := by
  cases b <;> decide

theorem isDelimiter_closing (b : Bracket) : isDelimiter b.closing = true := by
  cases b <;> decide

theorem dropPathsAfter_gap (g : Gap) {previous : Option Char}
    (hprevious : joinsName previous = false) (ps : List Piece) :
    ∃ last, joinsName last = false ∧
      dropPathsAfter previous (g.chars.map .plain ++ ps) = g.chars ++ dropPathsAfter last ps := by
  have hblank := g.all_blank
  generalize g.chars = chars at hblank ⊢
  induction chars generalizing previous with
  | nil => exact ⟨previous, hprevious, rfl⟩
  | cons c chars ih =>
    have hc := isDelimiter_of_isBlank (hblank c List.mem_cons_self)
    obtain ⟨last, hlast, hrest⟩ := ih (joinsName_delimiter hc)
      fun d hd => hblank d (List.mem_cons_of_mem _ hd)
    refine ⟨last, hlast, ?_⟩
    rw [List.map_cons, List.cons_append, dropPathsAfter_delimiter hc, hrest, List.cons_append]

section Types

variable {q : List Char → Prop}

theorem Head.bare_text (h : Head) : h.bare.text = h.name.chars := rfl

mutual

theorem Tree.dropPathsAfter_eq : ∀ (t : Tree), t.Forall Head.Plain q → ∀ {previous : Option Char}
    {ps : List Piece}, joinsName previous = false → Closed (leading ps) →
      dropPathsAfter previous (t.scan ++ ps) = t.bare.print ++ dropPathsAfter none ps
  | .leaf head, h, _, _, hprevious, hs => Head.Plain.dropPathsAfter_eq h hs hprevious
  | .applied head args, h, previous, ps, hprevious, hs => by
    have hopen : isDelimiter '<' = true := by decide
    have hclose : isDelimiter '>' = true := by decide
    rw [Tree.scan, Tree.bare, Tree.print, List.append_assoc, List.cons_append, List.append_assoc,
      List.singleton_append, Head.Plain.dropPathsAfter_eq h.1 (closed_delimiter hopen) hprevious,
      dropPathsAfter_delimiter hopen,
      args.dropPathsAfter_eq h.2 (joinsName_delimiter hopen) (closed_delimiter hclose),
      dropPathsAfter_delimiter hclose, dropPathsAfter_closed hs, Head.bare_text]
    simp
  | .lifetime name, _, previous, ps, _, hs => by
    rw [Tree.scan, List.cons_append, dropPathsAfter_cons (by decide),
      dropPathsAfter_word name.colon_not_mem hs]
    rfl
  | .literal chars _, _, _, _, _, _ => dropPathsAfter_literal chars
  | .group bracket items, h, previous, ps, _, hs => by
    have hopen := isDelimiter_opening bracket
    have hclose := isDelimiter_closing bracket
    rw [Tree.scan, Tree.bare, Tree.print, List.cons_append, List.append_assoc,
      List.singleton_append, dropPathsAfter_delimiter hopen,
      items.dropPathsAfter_eq h (joinsName_delimiter hopen) (closed_delimiter hclose),
      dropPathsAfter_delimiter hclose, dropPathsAfter_closed hs]
    simp

theorem Trees.dropPathsAfter_eq : ∀ (ts : Trees), ts.Forall Head.Plain q →
    ∀ {previous : Option Char} {ps : List Piece}, joinsName previous = false →
      Closed (leading ps) →
      dropPathsAfter previous (ts.scan ++ ps) = ts.bare.print ++ dropPathsAfter none ps
  | .nil, _, _, _, _, hs => dropPathsAfter_closed hs
  | .last t, h, _, _, hprevious, hs => t.dropPathsAfter_eq h hprevious hs
  | .more t gap rest, h, previous, ps, hprevious, hs => by
    have hcomma : isDelimiter ',' = true := by decide
    obtain ⟨last, hlast, hgap⟩ :=
      dropPathsAfter_gap gap (joinsName_delimiter hcomma) (rest.scan ++ ps)
    rw [Trees.scan, Trees.bare, Trees.print, List.append_assoc, List.cons_append,
      List.append_assoc, t.dropPathsAfter_eq h.1 hprevious (closed_delimiter hcomma),
      dropPathsAfter_delimiter hcomma, hgap, rest.dropPathsAfter_eq h.2 hlast hs]
    simp

end

/-- Dropping the paths of a type's print leaves the print of the type without them. -/
theorem Tree.stripPaths_text {t : Tree} (h : t.Forall Head.Plain q) :
    stripPaths t.text = t.bare.text := by
  have hdrop : dropPathsAfter none (t.scan ++ []) = t.bare.print ++ dropPathsAfter none [] :=
    t.dropPathsAfter_eq h rfl closed_nil
  rw [List.append_nil] at hdrop
  rw [stripPaths, text, String.toList_ofList, t.pieces_print, dropPaths_nil, hdrop]
  exact congrArg String.ofList (List.append_nil _)

/-- The colon of a bound belongs to no path. -/
theorem Tree.stripPaths_bound {t bound : Tree} (ht : t.Forall Head.Plain q)
    (hbound : bound.Forall Head.Plain q) :
    stripPaths (String.ofList (t.print ++ ':' :: ' ' :: bound.print)) =
      String.ofList (t.bare.print ++ ':' :: ' ' :: bound.bare.print) := by
  have hpieces : pieces (t.print ++ ':' :: ' ' :: bound.print) =
      t.scan ++ .plain ':' :: .plain ' ' :: bound.scan := by
    rw [t.pieces_append _ (by simp), pieces_cons (by decide), pieces_cons (by decide),
      bound.pieces_print]
  have hcolon : Closed (leading (.plain ':' :: .plain ' ' :: bound.scan)) := by
    rintro c rest heq
    cases heq
    exact ⟨by decide, fun _ => nofun⟩
  have hblank : isDelimiter ' ' = true := by decide
  have hbare : dropPathsAfter (some ' ') (bound.scan ++ []) =
      bound.bare.print ++ dropPathsAfter none [] :=
    bound.dropPathsAfter_eq hbound (joinsName_delimiter hblank) closed_nil
  rw [List.append_nil] at hbare
  rw [stripPaths, String.toList_ofList, hpieces, dropPaths_nil,
    t.dropPathsAfter_eq ht rfl hcolon, dropPathsAfter_cons (by decide),
    dropPathsAfter_delimiter hblank, hbare]
  exact congrArg (fun s => String.ofList (t.bare.print ++ ':' :: ' ' :: s)) (List.append_nil _)

end Types

end TraitTrace.TypeExpr
