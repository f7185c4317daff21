import TraitTrace.Proofs.TypeExpr.Arguments

/-! Types as trees, and what is read back from their print. The print of a tree is cut into the
pieces of its parts, whatever stands after it but a quote. Its brackets pair, so that its head, its
arguments and the bound that it stands in are found again. -/

namespace TraitTrace.TypeExpr

open Text

/-- A character of a name: one of a word that neither parts a path nor escapes another. -/
def isNamePart (c : Char) : Bool := isWordChar c && c != ':' && c != '\\'

/-- A name, a number, `_` or the like. -/
structure Name where
  chars : List Char
  ne_nil : chars ≠ []
  all_chars : chars.all isNamePart = true

/-- What a type starts with: a name, and the modules that lead to it. -/
structure Head where
  path : List Name
  name : Name

def Head.text (h : Head) : List Char :=
  h.path.flatMap (fun n => n.chars ++ [':', ':']) ++ h.name.chars

/-- Blanks between arguments. -/
structure Gap where
  chars : List Char
  all_chars : chars.all isBlank = true

theorem Gap.all_blank (g : Gap) : ∀ c ∈ g.chars, isBlank c = true := List.all_eq_true.1 g.all_chars

inductive Bracket where
  | round
  | square

namespace Bracket

def opening : Bracket → Char
  | round => '('
  | square => '['

def closing : Bracket → Char
  | round => ')'
  | square => ']'

end Bracket

mutual

/-- A type. -/
inductive Tree where
  | leaf (head : Head)
  | applied (head : Head) (args : Trees)
  | lifetime (name : Name)
  | literal (chars : List Char) (isLiteral : Literal chars)
  | group (bracket : Bracket) (items : Trees)

/-- Types with commas between them; the last comma may have nothing after it. -/
inductive Trees where
  | nil
  | last (t : Tree)
  | more (t : Tree) (gap : Gap) (rest : Trees)

end

mutual

def Tree.print : Tree → List Char
  | .leaf head => head.text
  | .applied head args => head.text ++ '<' :: (args.print ++ ['>'])
  | .lifetime name => '\'' :: name.chars
  | .literal chars _ => chars
  | .group bracket items => bracket.opening :: (items.print ++ [bracket.closing])

def Trees.print : Trees → List Char
  | .nil => []
  | .last t => t.print
  | .more t gap rest => t.print ++ ',' :: (gap.chars ++ rest.print)

end

def Trees.toList : Trees → List Tree
  | nil => []
  | last t => [t]
  | more t _ rest => t :: rest.toList

namespace Tree

/-- The text before the arguments. -/
def headText : Tree → List Char
  | leaf head => head.text
  | applied head _ => head.text
  | t => t.print

def args : Tree → List Tree
  | applied _ args => args.toList
  | _ => []

def text (t : Tree) : String := String.ofList t.print

theorem toList_text (t : Tree) : t.text.toList = t.print := String.toList_ofList

end Tree

namespace Name

theorem char_spec (n : Name) {c : Char} (hc : c ∈ n.chars) :
    isWordChar c = true ∧ c ≠ ':' ∧ c ≠ '\\' := by
  have h := List.all_eq_true.1 n.all_chars c hc
  simpa [isNamePart, and_assoc] using h

theorem word (n : Name) : Word n.chars :=
  ⟨n.ne_nil, List.all_eq_true.2 fun _ hc => (n.char_spec hc).1⟩

theorem colon_not_mem (n : Name) : ':' ∉ n.chars := fun hc => (n.char_spec hc).2.1 rfl

/-- The quote of a lifetime opens no literal. -/
theorem literalLength?_lifetime (n : Name) {rest : List Char} (h : rest.head? ≠ some '\'') :
    literalLength? ('\'' :: (n.chars ++ rest)) = none := by
  obtain ⟨a, as, ha⟩ := List.exists_cons_of_ne_nil n.ne_nil
  have hback : a ≠ '\\' := (n.char_spec (ha ▸ List.mem_cons_self)).2.2
  have hnext : ∀ s, as ++ rest ≠ '\'' :: s := by
    intro s hs
    cases as with
    | nil => exact h (by rw [show rest = '\'' :: s from hs]; rfl)
    | cons b as =>
      have hb : b ∈ n.chars := ha ▸ List.mem_cons_of_mem _ List.mem_cons_self
      exact (n.word.char_spec hb).1 (List.cons.inj hs).1
  rw [ha, List.cons_append]
  unfold literalLength?
  split
  · rename_i heq
    exact absurd (List.cons.inj (List.cons.inj heq).2).1 hback
  · rename_i heq
    exact absurd (List.cons.inj (List.cons.inj heq).2).2 (hnext _)
  · rfl

end Name

theorem Word.pieces_eq {s : List Char} (h : Word s) : pieces s = s.map .plain :=
  pieces_of_noQuote h.noQuote

theorem Head.word (h : Head) : Word h.text := by
  have hcolon : isWordChar ':' = true := by decide
  refine ⟨?_, List.all_eq_true.2 fun c hc => ?_⟩
  · exact List.append_ne_nil_of_right_ne_nil _ h.name.ne_nil
  · rcases List.mem_append.1 hc with hc | hc
    · obtain ⟨n, -, hc⟩ := List.mem_flatMap.1 hc
      rcases List.mem_append.1 hc with hc | hc
      · exact (n.char_spec hc).1
      · have heq : c = ':' := by simpa using hc
        rw [heq]
        exact hcolon
    · exact (h.name.char_spec hc).1

mutual

/-- The pieces of the print of a type. -/
def Tree.scan : Tree → List Piece
  | .leaf head => head.text.map .plain
  | .applied head args => head.text.map .plain ++ .plain '<' :: (args.scan ++ [.plain '>'])
  | .lifetime name => .plain '\'' :: name.chars.map .plain
  | .literal chars _ => [.literal chars]
  | .group bracket items => .plain bracket.opening :: (items.scan ++ [.plain bracket.closing])

def Trees.scan : Trees → List Piece
  | .nil => []
  | .last t => t.scan
  | .more t gap rest => t.scan ++ .plain ',' :: (gap.chars.map .plain ++ rest.scan)

end

theorem Gap.noQuote (g : Gap) : '\'' ∉ g.chars := by
  intro hc
  have hquote : isBlank '\'' = false := by decide
  rw [g.all_blank _ hc] at hquote
  cases hquote

theorem Bracket.opening_ne (b : Bracket) : b.opening ≠ '\'' := by
  cases b <;> decide

theorem Bracket.closing_ne (b : Bracket) : b.closing ≠ '\'' := by
  cases b <;> decide

mutual

theorem Tree.pieces_append : ∀ (t : Tree) (rest : List Char), rest.head? ≠ some '\'' →
    pieces (t.print ++ rest) = t.scan ++ pieces rest
  | .leaf head, rest, _ => by
    rw [Tree.print, Tree.scan, head.word.whole, head.word.pieces_eq]
  | .applied head args, rest, _ => by
    have hargs := args.pieces_append ('>' :: rest) nofun
    rw [Tree.print, Tree.scan, List.append_assoc, head.word.whole, head.word.pieces_eq,
      List.cons_append, List.append_assoc, List.singleton_append, pieces_cons (by decide), hargs,
      pieces_cons (by decide)]
    simp
  | .lifetime name, rest, h => by
    have hlength := name.literalLength?_lifetime h
    rw [Tree.print, Tree.scan, List.cons_append, pieces, piecesFrom, hlength]
    change .plain '\'' :: pieces (name.chars ++ rest) = _
    rw [name.word.whole, name.word.pieces_eq]
    rfl
  | .literal chars isLiteral, rest, _ => by
    rw [Tree.print, Tree.scan, isLiteral.pieces_append]
    rfl
  | .group bracket items, rest, _ => by
    have hitems := items.pieces_append (bracket.closing :: rest)
      (by simpa using bracket.closing_ne)
    rw [Tree.print, Tree.scan, List.cons_append, List.append_assoc, List.singleton_append,
      pieces_cons bracket.opening_ne, hitems, pieces_cons bracket.closing_ne]
    simp

theorem Trees.pieces_append : ∀ (ts : Trees) (rest : List Char), rest.head? ≠ some '\'' →
    pieces (ts.print ++ rest) = ts.scan ++ pieces rest
  | .nil, _, _ => rfl
  | .last t, rest, h => t.pieces_append rest h
  | .more t gap more, rest, h => by
    have ht := t.pieces_append (',' :: (gap.chars ++ (more.print ++ rest))) nofun
    rw [Trees.print, Trees.scan, List.append_assoc, List.cons_append, List.append_assoc, ht,
      pieces_cons (by decide), whole_of_noQuote gap.noQuote, pieces_of_noQuote gap.noQuote,
      more.pieces_append rest h]
    simp

end

theorem Tree.pieces_print (t : Tree) : pieces t.print = t.scan := by
  have h := t.pieces_append [] nofun
  rwa [List.append_nil, pieces_nil, List.append_nil] at h

theorem Trees.pieces_print (ts : Trees) : pieces ts.print = ts.scan := by
  have h := ts.pieces_append [] nofun
  rwa [List.append_nil, pieces_nil, List.append_nil] at h

theorem Tree.joined_scan (t : Tree) : joined t.scan = t.print := by
  rw [← t.pieces_print, joined_pieces]

theorem Trees.joined_scan (ts : Trees) : joined ts.scan = ts.print := by
  rw [← ts.pieces_print, joined_pieces]

theorem Gap.flat (g : Gap) : Flat (g.chars.map .plain) := by
  intro c hc
  have hmem : c ∈ g.chars := by simpa using hc
  have hblank := g.all_blank c hmem
  constructor
  · rw [← Bool.not_eq_true]
    intro hopen
    simp only [isOpen, Bool.or_eq_true, beq_iff_eq] at hopen
    rcases hopen with (rfl | rfl) | rfl <;> exact absurd hblank (by decide)
  · rw [← Bool.not_eq_true]
    intro hclose
    simp only [isClose, Bool.or_eq_true, beq_iff_eq] at hclose
    rcases hclose with (rfl | rfl) | rfl <;> exact absurd hblank (by decide)

theorem Word.flat_plain {s : List Char} (h : Word s) : Flat (s.map .plain) := by
  rw [← h.pieces_eq]
  exact h.flat

/-- A list in brackets leads back to the depth at which it stands. -/
theorem climb_enclosed {d : Nat} {o c : Char} {ps : List Piece} (ho : isOpen o = true)
    (hc : isClose c = true) (hopen : isOpen c = false) (h : ∀ d, climb d ps = some d) :
    climb d (.plain o :: (ps ++ [.plain c])) = some d := by
  simp [climb_append, rise, ho, hc, hopen, h]

theorem Bracket.isOpen_opening (b : Bracket) : isOpen b.opening = true := by
  cases b <;> rfl

theorem Bracket.isClose_closing (b : Bracket) : isClose b.closing = true := by
  cases b <;> rfl

theorem Bracket.isOpen_closing (b : Bracket) : isOpen b.closing = false := by
  cases b <;> rfl

mutual

theorem Tree.climb_scan : ∀ (t : Tree) (d : Nat), climb d t.scan = some d
  | .leaf head, d => head.word.flat_plain.climb d
  | .applied head args, d => by
    rw [Tree.scan, climb_append, head.word.flat_plain.climb]
    exact climb_enclosed rfl rfl rfl args.climb_scan
  | .lifetime name, d => by
    have hrise : rise d (.plain '\'') = some d := rfl
    rw [Tree.scan, climb_cons, hrise]
    exact name.word.flat_plain.climb d
  | .literal _ _, d => rfl
  | .group bracket items, d =>
    climb_enclosed bracket.isOpen_opening bracket.isClose_closing bracket.isOpen_closing
      items.climb_scan

theorem Trees.climb_scan : ∀ (ts : Trees) (d : Nat), climb d ts.scan = some d
  | .nil, _ => rfl
  | .last t, d => t.climb_scan d
  | .more t gap rest, d => by
    have hrise : rise d (.plain ',') = some d := rfl
    rw [Trees.scan, climb_append, t.climb_scan, Option.bind_some, climb_cons, hrise,
      Option.bind_some, climb_append, gap.flat.climb, Option.bind_some, rest.climb_scan]

end

/-- A literal ends with a quote. -/
theorem bracedLength?_quote {s : List Char} {n : Nat} (h : bracedLength? s = some n) :
    ∃ m, n = m + 4 ∧ s[m]? = some '\'' := by
  unfold bracedLength? at h
  split at h
  · rename_i c rest hdrop
    have hs := List.takeWhile_append_dropWhile (p := (· != '}')) (l := s)
    rw [hdrop] at hs
    refine ⟨(s.takeWhile (· != '}')).length + 1, (Option.some.inj h).symm, ?_⟩
    generalize s.takeWhile (· != '}') = body at hs ⊢
    rw [← hs, List.getElem?_append_right (Nat.le_add_right _ 1), Nat.add_sub_cancel_left]
    rfl
  · cases h

theorem literalLength?_quotes {s : List Char} {n : Nat} (h : literalLength? s = some n) :
    s.head? = some '\'' ∧ s[n - 1]? = some '\'' := by
  unfold literalLength? at h
  split at h
  · split at h
    · obtain ⟨m, rfl, hm⟩ := bracedLength?_quote h
      exact ⟨rfl, hm⟩
    all_goals cases h
    all_goals exact ⟨rfl, rfl⟩
  · cases h
    exact ⟨rfl, rfl⟩
  · cases h

theorem Literal.quotes {s : List Char} (h : Literal s) :
    s.head? = some '\'' ∧ s.getLast? = some '\'' := by
  rw [List.getLast?_eq_getElem?]
  exact literalLength?_quotes h.literalLength?_eq

namespace Tree

theorem head?_print (t : Tree) : ∃ c, t.print.head? = some c ∧ isBlank c = false := by
  have hword : ∀ {s : List Char} (more : List Char), Word s →
      ∃ c, (s ++ more).head? = some c ∧ isBlank c = false := by
    intro s more hs
    obtain ⟨c, cs, rfl⟩ := List.exists_cons_of_ne_nil hs.ne_nil
    exact ⟨c, rfl, hs.isBlank_eq List.mem_cons_self⟩
  cases t with
  | leaf head =>
    have h := hword [] head.word
    rwa [List.append_nil] at h
  | applied head args => exact hword _ head.word
  | lifetime name => exact ⟨_, rfl, by decide⟩
  | literal chars isLiteral => exact ⟨_, isLiteral.quotes.1, by decide⟩
  | group bracket items => exact ⟨_, rfl, by cases bracket <;> decide⟩

theorem getLast?_print (t : Tree) :
    ∃ c, t.print.getLast? = some c ∧ isBlank c = false ∧ c ≠ ':' := by
  have hname : ∀ n : Name, ∀ s : List Char,
      ∃ c, (s ++ n.chars).getLast? = some c ∧ isBlank c = false ∧ c ≠ ':' := by
    intro n s
    have hmem := List.getLast_mem n.ne_nil
    refine ⟨n.chars.getLast n.ne_nil, ?_, n.word.isBlank_eq hmem, (n.char_spec hmem).2.1⟩
    rw [List.getLast?_append, List.getLast?_eq_some_getLast n.ne_nil, Option.some_or]
  have hclose : ∀ (s : List Char) (c : Char), (s ++ [c]).getLast? = some c := by simp
  cases t with
  | leaf head => exact hname head.name _
  | applied head args =>
    refine ⟨'>', ?_, by decide, by decide⟩
    rw [print, ← List.cons_append, ← List.append_assoc]
    exact hclose _ _
  | lifetime name => exact hname name ['\'']
  | literal chars isLiteral => exact ⟨_, isLiteral.quotes.2, by decide, by decide⟩
  | group bracket items =>
    refine ⟨bracket.closing, ?_, by cases bracket <;> decide, by cases bracket <;> decide⟩
    rw [print, ← List.cons_append]
    exact hclose _ _

theorem print_ne_nil (t : Tree) : t.print ≠ [] := by
  obtain ⟨c, hc, -⟩ := t.head?_print
  intro h
  rw [h] at hc
  cases hc

theorem strip_print (t : Tree) : strip t.print = t.print := by
  obtain ⟨a, ha, hblank⟩ := t.head?_print
  obtain ⟨b, hb, hblank', -⟩ := t.getLast?_print
  refine strip_eq_self (fun c hc => ?_) fun c hc => ?_
  · rw [ha] at hc
    cases hc
    exact hblank
  · rw [hb] at hc
    cases hc
    exact hblank'

end Tree

/-- Where a list in brackets stands, it is not cut. -/
theorem cut_enclosed {isSep : Char → Bool} {o c : Char} {ps : List Piece} (ho : isOpen o = true)
    (hc : isClose c = true) (hopen : isOpen c = false) (hsep : isSep o = false)
    (hsep' : isSep c = false) (h : climb 0 ps = some 0) (qs : List Piece) :
    cut isSep 0 (.plain o :: (ps ++ [.plain c]) ++ qs) =
      prepend (o :: (joined ps ++ [c])) (cut isSep 0 qs) := by
  have hup : after 0 o = 0 + 1 := by simp [after, ho]
  have hdown : after (0 + 1) c = 0 := by simp [after, hopen, hc]
  rw [List.cons_append, List.append_assoc, List.singleton_append, cut, if_neg (by simp [hsep]), hup,
    cut_append_of_climb _ h, cut, if_neg (by simp [hsep']), hdown, prepend_prepend, prepend_prepend]
  simp

theorem Tree.cut_scan (t : Tree) (qs : List Piece) :
    cut (· == ',') 0 (t.scan ++ qs) = prepend t.print (cut (· == ',') 0 qs) := by
  have hword : ∀ {s : List Char}, Word s → ∀ qs : List Piece,
      cut (· == ',') 0 (s.map .plain ++ qs) = prepend s (cut (· == ',') 0 qs) := by
    intro s hs qs
    rw [← hs.pieces_eq, hs.argument.cut_append]
  cases t with
  | leaf head => exact hword head.word qs
  | applied head args =>
    rw [scan, print, List.append_assoc, hword head.word,
      cut_enclosed rfl rfl rfl (by decide) (by decide) (args.climb_scan 0), prepend_prepend,
      args.joined_scan]
  | lifetime name =>
    rw [scan, print, List.cons_append, cut, if_neg (by decide)]
    change prepend ['\''] (cut (· == ',') 0 _) = _
    rw [hword name.word, prepend_prepend]
    rfl
  | literal chars isLiteral => rfl
  | group bracket items =>
    rw [scan, print, cut_enclosed bracket.isOpen_opening bracket.isClose_closing
      bracket.isOpen_closing (by cases bracket <;> decide) (by cases bracket <;> decide)
      (items.climb_scan 0), items.joined_scan]

theorem strip_append_of_blank {s t : List Char} (h : ∀ c ∈ s, isBlank c = true) :
    strip (s ++ t) = strip t := by
  induction s with
  | nil => rfl
  | cons c s ih =>
    rw [List.cons_append, strip_cons_of_isBlank (h c List.mem_cons_self)]
    exact ih fun d hd => h d (List.mem_cons_of_mem _ hd)

/-- Blanks before a part are stripped with those at its ends. -/
theorem map_strip_prepend {s : List Char} (h : ∀ c ∈ s, isBlank c = true) (isSep : Char → Bool)
    (d : Nat) (ps : List Piece) :
    (prepend s (cut isSep d ps)).map strip = (cut isSep d ps).map strip := by
  cases hcut : cut isSep d ps with
  | nil => exact absurd hcut (cut_ne_nil isSep d ps)
  | cons p ps => rw [prepend, List.map_cons, List.map_cons, strip_append_of_blank h]

theorem Trees.filter_strip_cut (ts : Trees) :
    ((cut (· == ',') 0 ts.scan).map strip).filter (· ≠ []) = ts.toList.map Tree.print := by
  match ts with
  | .nil => rfl
  | .last t =>
    have hcut := t.cut_scan []
    rw [List.append_nil, cut, prepend, List.append_nil] at hcut
    rw [scan, hcut, toList, List.map_singleton, List.map_singleton, t.strip_print,
      List.filter_cons_of_pos (by simpa using t.print_ne_nil), List.filter_nil]
  | .more t gap rest =>
    have hgap : Uncut (· == ',') (gap.chars.map .plain) := by
      intro c hc
      have hblank := gap.all_blank c (by simpa using hc)
      rw [beq_eq_false_iff_ne]
      rintro rfl
      exact absurd hblank (by decide)
    have hjoined : joined (gap.chars.map .plain) = gap.chars := by
      rw [← pieces_of_noQuote gap.noQuote, joined_pieces]
    have hsep : after 0 ',' = 0 := rfl
    rw [scan, t.cut_scan, cut, if_pos (by decide), hsep, prepend, List.append_nil, List.map_cons,
      hgap.cut_append gap.flat, hjoined, map_strip_prepend gap.all_blank, t.strip_print,
      List.filter_cons_of_pos (by simpa using t.print_ne_nil), rest.filter_strip_cut, toList,
      List.map_cons]

theorem Trees.parts_print (ts : Trees) : parts (· == ',') ts.print = ts.toList.map Tree.print := by
  rw [parts, ts.pieces_print, ts.filter_strip_cut]

/-- An argument list goes to the bracket that closes it. -/
theorem Trees.inside_scan (ts : Trees) : inside (ts.scan ++ [.plain '>']) = ts.print := by
  have hclose : untilClose (0 + 1) [.plain '>'] = some [] := rfl
  rw [inside, ← Nat.zero_add 1, untilClose_append (ts.climb_scan 0), hclose, ts.joined_scan]
  simp

/-- Inside an open list there is no place for a head to end. -/
theorem untilOpen_append {d e : Nat} {ps : List Piece} (h : climb d ps = some e)
    (qs : List Piece) : untilOpen (d + 1) (ps ++ qs) =
      (untilOpen (e + 1) qs).map fun (head, rest) => (joined ps ++ head, rest) := by
  induction ps generalizing d with
  | nil =>
    obtain rfl : d = e := by simpa using h
    simp [joined]
  | cons p ps ih =>
    rw [climb_cons, Option.bind_eq_some_iff] at h
    obtain ⟨m, hm, h⟩ := h
    cases p with
    | literal cs =>
      obtain rfl : d = m := by simpa [rise] using hm
      rw [List.cons_append, untilOpen, ih h, Option.map_map]
      congr 1
      funext r
      simp [joined, Piece.chars]
    | plain c =>
      rw [List.cons_append, untilOpen, if_neg (fun hc => Nat.succ_ne_zero d hc.2),
        after_of_rise hm, ih h, Option.map_map]
      rfl

/-- A type is read back as its head and its arguments. -/
theorem Tree.generic_print (t : Tree) : generic t.print = (t.headText, t.args.map print) := by
  have hflat : Flat t.scan → generic t.print = (t.print, []) := by
    intro hflat
    rw [generic, t.strip_print, t.pieces_print, hflat.untilOpen_eq_none]
  cases t with
  | leaf head => exact hflat head.word.flat_plain
  | applied head args =>
    have hopen := head.word.flat_plain.untilOpen (args.scan ++ [.plain '>'])
    have hjoined : joined (head.text.map .plain) = head.text := by
      rw [← head.word.pieces_eq, joined_pieces]
    rw [generic, strip_print, pieces_print, scan, hopen, hjoined]
    simp only [head.word.strip_eq, args.inside_scan, args.parts_print]
    rfl
  | lifetime name =>
    refine hflat fun c hc => ?_
    rcases List.mem_cons.1 hc with hc | hc
    · cases hc
      exact ⟨rfl, rfl⟩
    · exact name.word.flat_plain c hc
  | literal chars isLiteral =>
    refine hflat fun c hc => ?_
    cases List.mem_singleton.1 hc
  | group bracket items =>
    have hup : after 0 bracket.opening = 0 + 1 := by cases bracket <;> rfl
    have hnone : untilOpen (0 + 1) [.plain bracket.closing] = none := by
      cases bracket <;> rfl
    have hround : ¬(bracket.opening = '<' ∧ (0 : Nat) = 0) := by
      cases bracket <;> simp [Bracket.opening]
    rw [generic, strip_print, pieces_print, scan, untilOpen, if_neg hround, hup,
      untilOpen_append (items.climb_scan 0), hnone]
    rfl

theorem Tree.parseGeneric_text (t : Tree) :
    parseGeneric t.text = ⟨String.ofList t.headText, t.args.map text⟩ := by
  rw [parseGeneric, text, String.toList_ofList, t.generic_print]
  simp [text, Function.comp_def]

/-- Pieces whose colons stand in pairs. -/
inductive Paired : List Piece → Prop
  | nil : Paired []
  | literal (chars : List Char) {ps : List Piece} : Paired ps → Paired (.literal chars :: ps)
  | plain {c : Char} {ps : List Piece} : c ≠ ':' → Paired ps → Paired (.plain c :: ps)
  | pair {ps : List Piece} : Paired ps → Paired (.plain ':' :: .plain ':' :: ps)

theorem Paired.append {ps qs : List Piece} (hp : Paired ps) (hq : Paired qs) :
    Paired (ps ++ qs) := by
  induction hp with
  | nil => exact hq
  | literal chars _ ih => exact .literal chars ih
  | plain hc _ ih => exact .plain hc ih
  | pair _ ih => exact .pair ih

theorem paired_of_no_colon {s : List Char} (h : ':' ∉ s) : Paired (s.map .plain) := by
  induction s with
  | nil => exact .nil
  | cons c s ih =>
    rw [List.mem_cons, not_or] at h
    exact .plain (Ne.symm h.1) (ih h.2)

theorem Gap.paired (g : Gap) : Paired (g.chars.map .plain) := by
  refine paired_of_no_colon fun hc => ?_
  exact absurd (g.all_blank _ hc) (by decide)

theorem Head.paired (h : Head) : Paired (h.text.map .plain) := by
  obtain ⟨path, name⟩ := h
  unfold text
  induction path with
  | nil => exact paired_of_no_colon name.colon_not_mem
  | cons n path ih =>
    rw [List.flatMap_cons, List.append_assoc, List.append_assoc, List.map_append]
    exact (paired_of_no_colon n.colon_not_mem).append (.pair ih)

mutual

theorem Tree.paired_scan : ∀ t : Tree, Paired t.scan
  | .leaf head => head.paired
  | .applied head args =>
    head.paired.append (.plain (by decide) (args.paired_scan.append (.plain (by decide) .nil)))
  | .lifetime name => .plain (by decide) (paired_of_no_colon name.colon_not_mem)
  | .literal chars _ => .literal chars .nil
  | .group bracket items =>
    .plain (by cases bracket <;> decide)
      (items.paired_scan.append (.plain (by cases bracket <;> decide) .nil))

theorem Trees.paired_scan : ∀ ts : Trees, Paired ts.scan
  | .nil => .nil
  | .last t => t.paired_scan
  | .more t gap rest =>
    t.paired_scan.append (.plain (by decide) (gap.paired.append rest.paired_scan))

end

theorem after_eq_of_rise {d e : Nat} {c : Char} (h : rise d (.plain c) = some e) :
    after d c = e := by
  rcases rise_plain h with ⟨ho, -, rfl⟩ | ⟨ho, hc, rfl⟩ | ⟨ho, hc, rfl⟩
  · simp [after, ho]
  · simp [after, ho, hc]
  · simp [after, ho, hc]

/-- A colon of a pair does not split a bound. -/
theorem findSome?_paired {α : Type} {f : Mark → Option α} {s : List Char}
    (hf : ∀ m : Mark, m.char ≠ ':' ∨ isLoneColon s m.index = false → f m = none) {ps : List Piece}
    (hp : Paired ps) {d e : Nat} (hc : climb d ps = some e) (qs : List Piece)
    (before : List Char) {rest : List Char} (hs : s = before ++ joined ps ++ rest) :
    (marksFrom before.length d (ps ++ qs)).findSome? f =
      (marksFrom (before ++ joined ps).length e qs).findSome? f := by
  induction hp generalizing d before with
  | nil =>
    obtain rfl : d = e := by simpa using hc
    simp [joined]
  | @literal cs ps _ ih =>
    have hsame : before ++ joined (.literal cs :: ps) = before ++ cs ++ joined ps := by
      simp [joined, Piece.chars]
    have hnext := ih (by simpa [rise] using hc) (before ++ cs) (by rw [hs, hsame])
    rw [hsame, ← hnext, List.cons_append, marksFrom, List.length_append]
  | @plain c ps hcolon _ ih =>
    rw [climb_cons, Option.bind_eq_some_iff] at hc
    obtain ⟨m, hm, hc⟩ := hc
    have hsame : before ++ joined (.plain c :: ps) = before ++ [c] ++ joined ps := by
      simp [joined, Piece.chars]
    have hnext := ih hc (before ++ [c]) (by rw [hs, hsame])
    rw [hsame, ← hnext, List.cons_append, marksFrom, List.findSome?_cons_of_isNone,
      after_eq_of_rise hm, List.length_append]
    · rfl
    · rw [hf _ (.inl hcolon)]
      rfl
  | @pair ps _ ih =>
    have hrise : ∀ d, rise d (.plain ':') = some d := fun _ => rfl
    rw [climb_cons, hrise, Option.bind_some, climb_cons, hrise, Option.bind_some] at hc
    have hsame : before ++ joined (.plain ':' :: .plain ':' :: ps) =
        before ++ [':', ':'] ++ joined ps := by
      simp [joined, Piece.chars]
    have hnext := ih hc (before ++ [':', ':']) (by rw [hs, hsame])
    have hafter : after d ':' = d := rfl
    have hfirst : isLoneColon s before.length = false := by
      rw [isLoneColon, hs, hsame]
      simp
    have hsecond : isLoneColon s (before.length + 1) = false := by
      rw [isLoneColon, hs, hsame]
      simp
    rw [hsame, ← hnext, List.cons_append, List.cons_append, marksFrom, marksFrom, hafter, hafter,
      List.findSome?_cons_of_isNone, List.findSome?_cons_of_isNone, List.length_append]
    · rfl
    · rw [hf _ (.inr hsecond)]
      rfl
    · rw [hf _ (.inr hfirst)]
      rfl

/-- A bound is read back as its type and its trait. -/
theorem Tree.bound?_print (t bound : Tree) :
    bound? (t.print ++ ':' :: ' ' :: bound.print) = some (t.print, bound.print) := by
  obtain ⟨c, hlast, -, hcolon⟩ := t.getLast?_print
  have hpieces : pieces (t.print ++ ':' :: ' ' :: bound.print) =
      t.scan ++ .plain ':' :: .plain ' ' :: bound.scan := by
    rw [t.pieces_append _ (by simp), pieces_cons (by decide), pieces_cons (by decide),
      bound.pieces_print]
  have hlone : isLoneColon (t.print ++ ':' :: ' ' :: bound.print) t.print.length = true := by
    have hlength : 0 < t.print.length := List.length_pos_iff.2 t.print_ne_nil
    have hbefore : (t.print ++ ':' :: ' ' :: bound.print)[t.print.length - 1]? = some c := by
      rw [List.getElem?_append_left (Nat.sub_lt hlength Nat.one_pos), ← List.getLast?_eq_getElem?,
        hlast]
    have hafter : (t.print ++ ':' :: ' ' :: bound.print)[t.print.length + 1]? = some ' ' := by
      rw [List.getElem?_append_right (Nat.le_add_right _ 1), Nat.add_sub_cancel_left]
      rfl
    rw [isLoneColon, hbefore, hafter]
    simp [hcolon]
  have hright : strip (' ' :: bound.print) = bound.print := by
    rw [strip_cons_of_isBlank (by decide), bound.strip_print]
  rw [bound?, marks, hpieces]
  refine (findSome?_paired (s := t.print ++ ':' :: ' ' :: bound.print) ?_ t.paired_scan
    (t.climb_scan 0) _ [] (by rw [t.joined_scan]; rfl)).trans ?_
  · intro m hm
    refine if_neg fun h => ?_
    rcases hm with hm | hm
    · exact hm h.1
    · rw [hm] at h
      exact Bool.false_ne_true h.2.2
  · rw [t.joined_scan, List.nil_append, marksFrom, List.findSome?_cons_of_isSome]
    all_goals
      simp [hlone, level, isClose, t.strip_print, hright, t.print_ne_nil, bound.print_ne_nil]

end TraitTrace.TypeExpr
