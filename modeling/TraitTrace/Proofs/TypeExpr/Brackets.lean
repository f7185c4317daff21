import Mathlib.Data.List.Find
import TraitTrace.Proofs.TypeExpr.Pieces

/-! Partners of brackets. Brackets outside literals are nested by kind, where an arrow has none. The
scanner knows neither kinds nor arrows: it finds the partner of a bracket exactly where no arrow
stands between the two, and takes an earlier place for it where one does. -/

namespace TraitTrace.TypeExpr

/-- An opening bracket and the closing one of its kind. -/
inductive Closes : Char → Char → Prop
  | angle : Closes '<' '>'
  | round : Closes '(' ')'
  | square : Closes '[' ']'

/-- Brackets that are nested by kind. -/
inductive Nested : List Mark → Prop
  | nil : Nested []
  | pair {o c : Mark} {inner rest : List Mark} : Closes o.char c.char → Nested inner →
      Nested rest → Nested (o :: (inner ++ c :: rest))

def isBracket (m : Mark) : Bool := isOpen m.char || isClose m.char

/-- Whether a character is the head of an arrow. -/
def isArrow (text : String) (m : Mark) : Bool :=
  m.char == '>' && m.index != 0 && text.toList[m.index - 1]? == some '-'

/-- The brackets outside literals, without the heads of arrows. -/
def brackets (text : String) : List Mark :=
  (topLevel text).filter fun m => isBracket m && !isArrow text m

/-- The brackets between two of one kind are nested. -/
def Partner (text : String) (i j : Nat) : Prop :=
  ∃ before o inner c after, brackets text = before ++ o :: (inner ++ c :: after) ∧
    o.index = i ∧ c.index = j ∧ Closes o.char c.char ∧ Nested inner

def ArrowBetween (text : String) (i j : Nat) : Prop :=
  ∃ m ∈ topLevel text, isArrow text m = true ∧ i < m.index ∧ m.index < j

theorem Closes.isOpen {o c : Char} (h : Closes o c) : isOpen o = true := by
  cases h <;> rfl

theorem Closes.isClose {o c : Char} (h : Closes o c) : isClose c = true := by
  cases h <;> rfl

theorem isOpen_eq_false_of_isClose {c : Char} (h : isClose c = true) : isOpen c = false := by
  simp only [isClose, Bool.or_eq_true, beq_iff_eq] at h
  rcases h with (rfl | rfl) | rfl <;> rfl

theorem isClose_of_isArrow {text : String} {m : Mark} (h : isArrow text m = true) :
    isClose m.char = true := by
  simp only [isArrow, Bool.and_eq_true, beq_iff_eq] at h
  rw [h.1.1]
  rfl

/-- Opening brackets, and closing ones. -/
def opens (ms : List Mark) : Nat := ms.countP fun m => isOpen m.char

def closes (ms : List Mark) : Nat := ms.countP fun m => isClose m.char

theorem opens_append (ms ns : List Mark) : opens (ms ++ ns) = opens ms + opens ns :=
  List.countP_append

theorem closes_append (ms ns : List Mark) : closes (ms ++ ns) = closes ms + closes ns :=
  List.countP_append

theorem opens_cons (m : Mark) (ms : List Mark) :
    opens (m :: ms) = opens ms + if isOpen m.char then 1 else 0 :=
  List.countP_cons

theorem closes_cons (m : Mark) (ms : List Mark) :
    closes (m :: ms) = closes ms + if isClose m.char then 1 else 0 :=
  List.countP_cons

theorem Closes.opens_cons {o c : Mark} (h : Closes o.char c.char) (ms : List Mark) :
    opens (o :: ms) = opens ms + 1 ∧ opens (c :: ms) = opens ms := by
  rw [TypeExpr.opens_cons, TypeExpr.opens_cons, h.isOpen, isOpen_eq_false_of_isClose h.isClose]
  exact ⟨rfl, rfl⟩

theorem Closes.closes_cons {o c : Mark} (h : Closes o.char c.char) (ms : List Mark) :
    closes (o :: ms) = closes ms ∧ closes (c :: ms) = closes ms + 1 := by
  rw [TypeExpr.closes_cons, TypeExpr.closes_cons, h.isClose, isClose_eq_false_of_isOpen h.isOpen]
  exact ⟨rfl, rfl⟩

theorem Nested.opens_eq {ms : List Mark} (h : Nested ms) : opens ms = closes ms := by
  induction h with
  | nil => rfl
  | pair hc _ _ ihinner ihrest =>
    rw [(hc.opens_cons _).1, opens_append, (hc.opens_cons _).2, (hc.closes_cons _).1,
      closes_append, (hc.closes_cons _).2]
    omega

/-- Nothing is closed among nested brackets before it is opened. -/
theorem Nested.closes_le {ms before rest : List Mark} (h : Nested ms) (hms : ms = before ++ rest) :
    closes before ≤ opens before := by
  induction h generalizing before rest with
  | nil =>
    rw [(List.append_eq_nil_iff.1 hms.symm).1]
    exact Nat.le_refl 0
  | @pair o c inner more hc hinner _ ihinner ihmore =>
    cases before with
    | nil => exact Nat.le_refl 0
    | cons b before =>
      obtain ⟨rfl, htail⟩ := List.cons.inj hms
      rw [(hc.opens_cons _).1, (hc.closes_cons _).1]
      rcases List.append_eq_append_iff.1 htail with ⟨x, rfl, hx⟩ | ⟨x, hx, -⟩
      · cases x with
        | nil =>
          rw [List.append_nil, hinner.opens_eq]
          exact Nat.le_succ _
        | cons d x =>
          obtain ⟨rfl, hmore⟩ := List.cons.inj hx
          have hle := ihmore hmore
          rw [opens_append, closes_append, (hc.opens_cons _).2, (hc.closes_cons _).2,
            hinner.opens_eq]
          omega
      · have hle := ihinner hx
        omega

/-- Every opening bracket among nested ones is closed by one of its kind, with nested ones between
them. -/
theorem Nested.exists_close {ms before rest : List Mark} {o : Mark} (h : Nested ms)
    (hms : ms = before ++ o :: rest) (ho : isOpen o.char = true) :
    ∃ inner c after, rest = inner ++ c :: after ∧ Closes o.char c.char ∧ Nested inner := by
  induction h generalizing before rest with
  | nil => exact absurd hms.symm (by simp)
  | @pair o' c' inner' rest' hc hinner _ ihinner ihrest =>
    have hne : o ≠ c' := by
      rintro rfl
      rw [isOpen_eq_false_of_isClose hc.isClose] at ho
      cases ho
    cases before with
    | nil =>
      obtain ⟨rfl, rfl⟩ := List.cons.inj hms
      exact ⟨inner', c', rest', rfl, hc, hinner⟩
    | cons b before =>
      obtain ⟨-, hms⟩ := List.cons.inj hms
      rcases List.append_eq_append_iff.1 hms with ⟨x, rfl, hx⟩ | ⟨x, rfl, hx⟩
      · cases x with
        | nil => exact absurd (List.cons.inj hx).1.symm hne
        | cons d x => exact ihrest (List.cons.inj hx).2
      · cases x with
        | nil => exact absurd (List.cons.inj hx).1 hne
        | cons d x =>
          obtain ⟨rfl, rfl⟩ := List.cons.inj hx
          obtain ⟨inner, c, after, rfl, hclose, hnested⟩ := ihinner rfl
          exact ⟨inner, c, after ++ c' :: rest', by simp, hclose, hnested⟩

/-- A bracket is closed once. -/
theorem Nested.close_unique {inner inner' after after' : List Mark} {o c c' : Mark}
    (h : Nested inner) (h' : Nested inner') (hc : Closes o.char c.char)
    (hc' : Closes o.char c'.char) (heq : inner ++ c :: after = inner' ++ c' :: after') : c = c' := by
  -- The closing bracket of the one is none among the nested brackets of the other.
  have hshort : ∀ {inner inner' x : List Mark} {c : Mark}, Nested inner → Nested inner' →
      Closes o.char c.char → inner' ≠ inner ++ c :: x := by
    rintro inner inner' x c h h' hc rfl
    have hle : closes (inner ++ [c]) ≤ opens (inner ++ [c]) :=
      h'.closes_le (List.append_cons inner c x)
    rw [opens_append, closes_append, (hc.opens_cons _).2, (hc.closes_cons _).2, h.opens_eq] at hle
    have hnil : opens [] = 0 := rfl
    omega
  rcases List.append_eq_append_iff.1 heq with ⟨x, hx, hrest⟩ | ⟨x, hx, hrest⟩
  · cases x with
    | nil => exact (List.cons.inj hrest).1
    | cons d x => exact absurd ((List.cons.inj hrest).1 ▸ hx) (hshort h h' hc)
  · cases x with
    | nil => exact (List.cons.inj hrest).1.symm
    | cons d x => exact absurd ((List.cons.inj hrest).1 ▸ hx) (hshort h' h hc')

/-- Characters with the depths that the scanner gives them, from one depth to another. -/
inductive Scanned : Nat → List Mark → Nat → Prop
  | nil {d : Nat} : Scanned d [] d
  | cons {d e : Nat} {m : Mark} {ms : List Mark} : m.depth = level d m.char →
      Scanned (after d m.char) ms e → Scanned d (m :: ms) e

theorem scanned_marksFrom (i d : Nat) (ps : List Piece) : ∃ e, Scanned d (marksFrom i d ps) e := by
  induction ps generalizing i d with
  | nil => exact ⟨d, .nil⟩
  | cons p ps ih =>
    cases p with
    | literal cs => exact ih _ d
    | plain c =>
      obtain ⟨e, he⟩ := ih (i + 1) (after d c)
      exact ⟨e, .cons rfl he⟩

theorem scanned_append {d e : Nat} {ms ns : List Mark} :
    Scanned d (ms ++ ns) e ↔ ∃ k, Scanned d ms k ∧ Scanned k ns e := by
  induction ms generalizing d with
  | nil =>
    constructor
    · exact fun h => ⟨d, .nil, h⟩
    · rintro ⟨k, h, h'⟩
      cases h
      exact h'
  | cons m ms ih =>
    constructor
    · intro h
      cases h with
      | cons hm h =>
        obtain ⟨k, h, h'⟩ := ih.1 h
        exact ⟨k, .cons hm h, h'⟩
    · rintro ⟨k, h, h'⟩
      cases h with
      | cons hm h => exact .cons hm (ih.2 ⟨k, h, h'⟩)

theorem scanned_cons {d e : Nat} {m : Mark} {ms : List Mark} :
    Scanned d (m :: ms) e ↔ m.depth = level d m.char ∧ Scanned (after d m.char) ms e := by
  constructor
  · intro h
    cases h with
    | cons hm h => exact ⟨hm, h⟩
  · exact fun h => .cons h.1 h.2

theorem scanned_of_topLevel {text : String} {before rest : List Mark}
    (h : topLevel text = before ++ rest) : ∃ d e, Scanned d rest e := by
  obtain ⟨e, hscan⟩ := scanned_marksFrom 0 0 (pieces text.toList)
  have hsplit : marksFrom 0 0 (pieces text.toList) = before ++ rest := h
  rw [hsplit] at hscan
  obtain ⟨d, -, hrest⟩ := scanned_append.1 hscan
  exact ⟨d, e, hrest⟩

theorem Closes.after {o c : Char} (h : Closes o c) (d : Nat) :
    after d o = d + 1 ∧ level (d + 1) c = d ∧ after (d + 1) c = d := by
  cases h <;> exact ⟨rfl, rfl, rfl⟩

theorem marksFrom_index (i d : Nat) (ps : List Piece) :
    (∀ m ∈ marksFrom i d ps, i ≤ m.index) ∧
      (marksFrom i d ps).Pairwise fun m n => m.index < n.index := by
  induction ps generalizing i d with
  | nil => exact ⟨nofun, .nil⟩
  | cons p ps ih =>
    cases p with
    | literal cs =>
      obtain ⟨hle, hlt⟩ := ih (i + cs.length) d
      exact ⟨fun m hm => Nat.le_trans (Nat.le_add_right i _) (hle m hm), hlt⟩
    | plain c =>
      obtain ⟨hle, hlt⟩ := ih (i + 1) (after d c)
      refine ⟨fun m hm => ?_, List.pairwise_cons.2 ⟨fun m hm => hle m hm, hlt⟩⟩
      rcases List.mem_cons.1 hm with rfl | hm
      · exact Nat.le_refl i
      · exact Nat.le_of_succ_le (hle m hm)

theorem pairwise_topLevel (text : String) :
    (topLevel text).Pairwise fun m n => m.index < n.index := (marksFrom_index 0 0 _).2

/-- A character is told by its place. -/
theorem split_unique {before before' rest rest' : List Mark} {m m' : Mark}
    (h : (before ++ m :: rest).Pairwise fun m n => m.index < n.index)
    (heq : before ++ m :: rest = before' ++ m' :: rest') (hindex : m.index = m'.index) :
    m = m' ∧ rest = rest' := by
  rcases List.append_eq_append_iff.1 heq with ⟨x, rfl, hrest⟩ | ⟨x, rfl, hrest⟩
  · cases x with
    | nil => exact List.cons.inj hrest
    | cons d x =>
      obtain ⟨rfl, rfl⟩ := List.cons.inj hrest
      have hlt := List.rel_of_pairwise_cons (List.pairwise_append.1 h).2.1
        (List.mem_append_right x List.mem_cons_self)
      omega
  · cases x with
    | nil =>
      obtain ⟨rfl, rfl⟩ := List.cons.inj hrest
      exact ⟨rfl, rfl⟩
    | cons d x =>
      obtain ⟨rfl, -⟩ := List.cons.inj hrest
      have hlt := (List.pairwise_append.1 h).2.2 m' (by simp) m List.mem_cons_self
      omega

/-- Characters that are no brackets leave the depth as it is, and so do nested brackets, all of
which close at the depth that they stand at or further in. -/
theorem Scanned.of_no_bracket {d e : Nat} {ms : List Mark} (h : Scanned d ms e)
    (hms : ∀ m ∈ ms, isBracket m ≠ true) : e = d := by
  induction h with
  | nil => rfl
  | @cons d e m ms _ _ ih =>
    have hm := hms m List.mem_cons_self
    rw [isBracket, ne_eq, Bool.or_eq_true, not_or] at hm
    have hafter : after d m.char = d := by
      rw [after, if_neg hm.1, if_neg hm.2]
    rw [ih fun n hn => hms n (List.mem_cons_of_mem m hn), hafter]

theorem Scanned.of_nested {d e : Nat} {ms bs : List Mark} (h : Scanned d ms e) (hbs : Nested bs)
    (hms : ms.filter isBracket = bs) :
    e = d ∧ ∀ m ∈ ms, isClose m.char = true → d ≤ m.depth := by
  induction hbs generalizing d e ms with
  | nil =>
    have hno : ∀ m ∈ ms, isBracket m ≠ true := by
      intro m hm hb
      exact absurd (List.mem_filter.2 ⟨hm, hb⟩) (by rw [hms]; exact List.not_mem_nil)
    refine ⟨h.of_no_bracket hno, fun m hm hc => ?_⟩
    exact absurd (by rw [isBracket, hc, Bool.or_true]) (hno m hm)
  | @pair o c inner rest hc _ _ ihinner ihrest =>
    obtain ⟨front, more, rfl, hfront, -, hmore⟩ := List.filter_eq_cons_iff.1 hms
    obtain ⟨middle, last, rfl, hmiddle, hlast⟩ := List.filter_eq_append_iff.1 hmore
    obtain ⟨blank, final, rfl, hblank, -, hfinal⟩ := List.filter_eq_cons_iff.1 hlast
    obtain ⟨d₁, h₁, hopen⟩ := scanned_append.1 h
    obtain rfl := h₁.of_no_bracket hfront
    obtain ⟨hup, hlevel, hdown⟩ := hc.after d₁
    rw [scanned_cons, hup] at hopen
    obtain ⟨d₂, h₂, hblanks⟩ := scanned_append.1 hopen.2
    obtain ⟨rfl, hin⟩ := ihinner h₂ hmiddle
    obtain ⟨d₃, h₃, hclose⟩ := scanned_append.1 hblanks
    obtain rfl := h₃.of_no_bracket hblank
    rw [scanned_cons, hlevel, hdown] at hclose
    obtain ⟨rfl, hout⟩ := ihrest hclose.2 hfinal
    refine ⟨rfl, fun m hm hmclose => ?_⟩
    have hbracket : isBracket m = true := by rw [isBracket, hmclose, Bool.or_true]
    simp only [List.mem_append, List.mem_cons] at hm
    rcases hm with hm | rfl | hm | hm | rfl | hm
    · exact absurd hbracket (hfront m hm)
    · rw [isClose_eq_false_of_isOpen hc.isOpen] at hmclose
      cases hmclose
    · exact Nat.le_of_succ_le (hin m hm hmclose)
    · exact absurd hbracket (hblank m hm)
    · exact Nat.le_of_eq hclose.1.symm
    · exact hout m hm hmclose

/-- Where nothing closes down to a depth, the scanner stays above it and counts every bracket. -/
theorem Scanned.of_above {d e floor : Nat} {ms : List Mark} (h : Scanned d ms e) (hd : floor < d)
    (hms : ∀ m ∈ ms, isClose m.char = true → m.depth ≠ floor) :
    floor < e ∧ e + closes ms = d + opens ms := by
  induction h with
  | nil => exact ⟨hd, rfl⟩
  | @cons d e m ms hm _ ih =>
    have hrest := fun n hn => hms n (List.mem_cons_of_mem m hn)
    rw [opens_cons, closes_cons]
    cases hopen : isOpen m.char with
    | true =>
      have hafter : after d m.char = d + 1 := by rw [after, if_pos hopen]
      rw [hafter] at ih
      obtain ⟨hlt, hcount⟩ := ih (Nat.lt_succ_of_lt hd) hrest
      rw [isClose_eq_false_of_isOpen hopen]
      exact ⟨hlt, by simp only [if_true, Bool.false_eq_true, if_false]; omega⟩
    | false =>
      cases hclose : isClose m.char with
      | true =>
        have hafter : after d m.char = d - 1 := by simp [after, hopen, hclose]
        have hlevel : m.depth = d - 1 := by rw [hm, level, if_pos hclose]
        have hne := hms m List.mem_cons_self hclose
        rw [hafter] at ih
        obtain ⟨hlt, hcount⟩ := ih (by omega) hrest
        exact ⟨hlt, by simp only [if_true, Bool.false_eq_true, if_false]; omega⟩
      | false =>
        have hafter : after d m.char = d := by simp [after, hopen, hclose]
        rw [hafter] at ih
        exact ih hd hrest

/-- The scanner looks for a closing bracket after the opening one. -/
theorem matchingClose_eq {text : String} {before rest : List Mark} {o : Mark}
    (h : topLevel text = before ++ o :: rest) :
    matchingClose text o.index =
      (rest.find? fun k => isClose k.char && k.depth == o.depth).map Mark.index := by
  have hpairs := pairwise_topLevel text
  rw [h] at hpairs
  have hbefore : ∀ m ∈ before, m.index < o.index := fun m hm =>
    (List.pairwise_append.1 hpairs).2.2 m hm o List.mem_cons_self
  have hrest : ∀ m ∈ rest, o.index < m.index := fun m hm =>
    List.rel_of_pairwise_cons (List.pairwise_append.1 hpairs).2.1 hm
  have hfound : (before ++ o :: rest).find? (fun m => m.index == o.index) = some o := by
    rw [List.find?_append, List.find?_eq_none.2 fun m hm => ?_]
    · simp
    · have hlt := hbefore m hm
      simp
      omega
  have hlater : ((before ++ o :: rest).find? fun k =>
      o.index < k.index && isClose k.char && k.depth == o.depth) =
      rest.find? fun k => isClose k.char && k.depth == o.depth := by
    rw [List.find?_append, List.find?_eq_none.2 fun m hm => ?_, Option.none_or,
      List.find?_cons_of_neg (by simp)]
    · refine List.find?_congr fun m hm => ?_
      rw [decide_eq_true (hrest m hm), Bool.true_and]
    · have hlt := hbefore m hm
      simp
      omega
  rw [matchingClose]
  simp only [h, hfound, hlater]

/-- Two partners with what the scanner meets between them. -/
theorem Partner.spec {text : String} {i j : Nat} (h : Partner text i j) :
    ∃ before o between c after, topLevel text = before ++ o :: (between ++ c :: after) ∧
      o.index = i ∧ c.index = j ∧ Closes o.char c.char ∧
      Nested (between.filter fun m => isBracket m && !isArrow text m) := by
  obtain ⟨before, o, inner, c, after, hbrackets, hi, hj, hc, hinner⟩ := h
  obtain ⟨front, more, hfront, -, hmore⟩ := List.filter_eq_append_iff.1 hbrackets
  obtain ⟨lead, rest, rfl, -, -, hrest⟩ := List.filter_eq_cons_iff.1 hmore
  obtain ⟨middle, last, rfl, hmiddle, hlast⟩ := List.filter_eq_append_iff.1 hrest
  obtain ⟨blank, final, rfl, hblank, -, -⟩ := List.filter_eq_cons_iff.1 hlast
  refine ⟨front ++ lead, o, middle ++ blank, c, final, ?_, hi, hj, hc, ?_⟩
  · rw [hfront]
    simp only [List.append_assoc]
  · rw [List.filter_append, List.filter_eq_nil_iff.2 hblank, List.append_nil, hmiddle]
    exact hinner

theorem Partner.unique {text : String} {i j j' : Nat} (h : Partner text i j)
    (h' : Partner text i j') : j = j' := by
  obtain ⟨before, o, inner, c, after, hbrackets, hi, rfl, hc, hinner⟩ := h
  obtain ⟨before', o', inner', c', after', hbrackets', hi', rfl, hc', hinner'⟩ := h'
  have hpairs : (brackets text).Pairwise fun m n => m.index < n.index :=
    (pairwise_topLevel text).sublist List.filter_sublist
  obtain ⟨rfl, hrest⟩ := split_unique (hbrackets ▸ hpairs) (hbrackets.symm.trans hbrackets')
    (hi.trans hi'.symm)
  rw [hinner.close_unique hinner' hc hc' hrest]

/-- What stands between two characters is told by its place. -/
theorem mem_between_iff {text : String} {before between after : List Mark} {o c m : Mark}
    (h : topLevel text = before ++ o :: (between ++ c :: after)) :
    m ∈ between ↔ m ∈ topLevel text ∧ o.index < m.index ∧ m.index < c.index := by
  have hpairs := pairwise_topLevel text
  rw [h, List.pairwise_append, List.pairwise_cons, List.pairwise_append,
    List.pairwise_cons] at hpairs
  obtain ⟨-, ⟨hfirst, -, ⟨hlast, -⟩, hmiddle⟩, hfront⟩ := hpairs
  rw [h]
  constructor
  · intro hm
    exact ⟨List.mem_append_right _ (List.mem_cons_of_mem _ (List.mem_append_left _ hm)),
      hfirst m (List.mem_append_left _ hm), hmiddle m hm c List.mem_cons_self⟩
  · rintro ⟨hm, hlow, hhigh⟩
    simp only [List.mem_append, List.mem_cons] at hm
    rcases hm with hm | rfl | hm | rfl | hm
    · have := hfront m hm o List.mem_cons_self
      omega
    · omega
    · exact hm
    · omega
    · have := hlast m hm
      omega

theorem arrowBetween_iff {text : String} {before between after : List Mark} {o c : Mark}
    (h : topLevel text = before ++ o :: (between ++ c :: after)) :
    ArrowBetween text o.index c.index ↔ ∃ a ∈ between, isArrow text a = true := by
  constructor
  · rintro ⟨a, ha, harrow, hspan⟩
    exact ⟨a, (mem_between_iff h).2 ⟨ha, hspan⟩, harrow⟩
  · rintro ⟨a, ha, harrow⟩
    obtain ⟨hmem, hspan⟩ := (mem_between_iff h).1 ha
    exact ⟨a, hmem, harrow, hspan⟩

/-- Where no arrow stands between two partners, the scanner finds the one from the other. -/
theorem Scanned.find?_eq {d e : Nat} {between after : List Mark} {o c : Mark}
    (h : Scanned d (o :: (between ++ c :: after)) e) (hc : Closes o.char c.char)
    (hnested : Nested (between.filter isBracket)) :
    (between ++ c :: after).find? (fun k => isClose k.char && k.depth == o.depth) = some c := by
  rw [scanned_cons, (hc.after d).1] at h
  obtain ⟨hdepth, h⟩ := h
  obtain ⟨k, hbetween, hclose⟩ := scanned_append.1 h
  obtain ⟨rfl, hin⟩ := hbetween.of_nested hnested rfl
  rw [level, isClose_eq_false_of_isOpen hc.isOpen] at hdepth
  have hdepth' : c.depth = d := (scanned_cons.1 hclose).1.trans (hc.after d).2.1
  rw [List.find?_append, List.find?_eq_none.2 fun m hm => ?_, Option.none_or,
    List.find?_cons_of_pos]
  · rw [hc.isClose, hdepth, hdepth']
    simp
  · rw [Bool.and_eq_true, beq_iff_eq]
    rintro ⟨hmclose, hm'⟩
    have hle := hin m hm hmclose
    rw [hm', hdepth, if_neg Bool.false_ne_true] at hle
    exact Nat.not_succ_le_self d hle

/-- The head of an arrow closes what nothing opens. -/
theorem opens_lt_closes {text : String} {ms : List Mark} {a : Mark}
    (hnested : Nested (ms.filter fun m => isBracket m && !isArrow text m)) (ha : a ∈ ms)
    (harrow : isArrow text a = true) : opens ms < closes ms := by
  have hopens : opens (ms.filter fun m => !(isBracket m && !isArrow text m)) = 0 := by
    refine List.countP_eq_zero.2 fun m hm hopen => ?_
    have hout := (List.mem_filter.1 hm).2
    rw [isBracket, hopen, Bool.true_or, Bool.true_and, Bool.not_not] at hout
    rw [isOpen_eq_false_of_isClose (isClose_of_isArrow hout)] at hopen
    cases hopen
  have hcloses : 0 < closes (ms.filter fun m => !(isBracket m && !isArrow text m)) := by
    refine List.countP_pos_iff.2 ⟨a, List.mem_filter.2 ⟨ha, ?_⟩, isClose_of_isArrow harrow⟩
    rw [harrow, Bool.not_true, Bool.and_false, Bool.not_false]
  have heq := hnested.opens_eq
  calc opens ms = opens (ms.filter fun m => isBracket m && !isArrow text m) + 0 := by
        rw [← hopens]
        exact List.countP_eq_countP_filter_add ms _ _
    _ < closes (ms.filter fun m => isBracket m && !isArrow text m) +
          closes (ms.filter fun m => !(isBracket m && !isArrow text m)) := by omega
    _ = closes ms := (List.countP_eq_countP_filter_add ms _ _).symm

/-- Where an arrow does, the scanner finds something before the other. -/
theorem Scanned.exists_find? {text : String} {d e : Nat} {between after : List Mark} {o c a : Mark}
    (h : Scanned d (o :: (between ++ c :: after)) e) (hc : Closes o.char c.char)
    (hnested : Nested (between.filter fun m => isBracket m && !isArrow text m))
    (ha : a ∈ between) (harrow : isArrow text a = true) :
    ∃ k ∈ between, (between ++ c :: after).find?
      (fun k => isClose k.char && k.depth == o.depth) = some k := by
  rw [scanned_cons, (hc.after d).1] at h
  obtain ⟨hdepth, h⟩ := h
  obtain ⟨k, hbetween, -⟩ := scanned_append.1 h
  rw [level, isClose_eq_false_of_isOpen hc.isOpen] at hdepth
  have hcloses := opens_lt_closes hnested ha harrow
  cases hfound : between.find? fun k => isClose k.char && k.depth == o.depth with
  | some m =>
    rw [List.find?_append, hfound]
    exact ⟨m, List.mem_of_find?_eq_some hfound, rfl⟩
  | none =>
    obtain ⟨hlt, hcount⟩ := hbetween.of_above (Nat.lt_succ_self d) fun m hm hmclose hm' => by
      have hno := List.find?_eq_none.1 hfound m hm
      simp [hmclose, hm', hdepth] at hno
    omega

/-- Every opening bracket of a text whose brackets are nested has a partner. -/
theorem exists_partner {text : String} {o : Mark} (hnested : Nested (brackets text))
    (ho : o ∈ topLevel text) (hopen : isOpen o.char = true) : ∃ j, Partner text o.index j := by
  have hnot : isArrow text o = false := by
    refine Bool.eq_false_iff.2 fun harrow => ?_
    rw [isOpen_eq_false_of_isClose (isClose_of_isArrow harrow)] at hopen
    cases hopen
  have hmem : o ∈ brackets text :=
    List.mem_filter.2 ⟨ho, by rw [isBracket, hopen, hnot]; rfl⟩
  obtain ⟨before, rest, hsplit⟩ := List.append_of_mem hmem
  obtain ⟨inner, c, after, rfl, hc, hinner⟩ := hnested.exists_close hsplit hopen
  exact ⟨c.index, before, o, inner, c, after, hsplit, rfl, rfl, hc, hinner⟩

theorem Partner.matchingClose_eq {text : String} {i j : Nat} (h : Partner text i j)
    (hno : ¬ArrowBetween text i j) : matchingClose text i = some j := by
  obtain ⟨before, o, between, c, after, htext, rfl, rfl, hc, hnested⟩ := h.spec
  rw [arrowBetween_iff htext] at hno
  have hbrackets : between.filter (fun m => isBracket m && !isArrow text m) =
      between.filter isBracket := by
    refine List.filter_congr fun m hm => ?_
    have hm' : isArrow text m = false := Bool.eq_false_iff.2 fun harrow => hno ⟨m, hm, harrow⟩
    rw [hm', Bool.not_false, Bool.and_true]
  rw [hbrackets] at hnested
  obtain ⟨d, e, hscan⟩ := scanned_of_topLevel htext
  rw [TypeExpr.matchingClose_eq htext, hscan.find?_eq hc hnested]
  rfl

theorem Partner.matchingClose_lt {text : String} {i j : Nat} (h : Partner text i j)
    (harrow : ArrowBetween text i j) : ∃ k, matchingClose text i = some k ∧ i < k ∧ k < j := by
  obtain ⟨before, o, between, c, after, htext, rfl, rfl, hc, hnested⟩ := h.spec
  obtain ⟨a, ha, harrow⟩ := (arrowBetween_iff htext).1 harrow
  obtain ⟨d, e, hscan⟩ := scanned_of_topLevel htext
  obtain ⟨k, hk, hfound⟩ := hscan.exists_find? hc hnested ha harrow
  rw [TypeExpr.matchingClose_eq htext, hfound]
  exact ⟨k.index, rfl, ((mem_between_iff htext).1 hk).2⟩

/-- Where the brackets of a text are nested, every opening bracket has one partner. The scanner
finds it exactly if no arrow stands between the two, and an earlier place if one does. -/
theorem matchingClose_partner {text : String} {o : Mark} (hnested : Nested (brackets text))
    (ho : o ∈ topLevel text) (hopen : isOpen o.char = true) :
    ∃ j, Partner text o.index j ∧ (∀ j', Partner text o.index j' → j' = j) ∧
      (matchingClose text o.index = some j ↔ ¬ArrowBetween text o.index j) ∧
      (ArrowBetween text o.index j →
        ∃ k, matchingClose text o.index = some k ∧ o.index < k ∧ k < j) := by
  obtain ⟨j, hpartner⟩ := exists_partner hnested ho hopen
  refine ⟨j, hpartner, fun j' hj' => (hpartner.unique hj').symm, ⟨fun hfound harrow => ?_,
    hpartner.matchingClose_eq⟩, hpartner.matchingClose_lt⟩
  obtain ⟨k, hk, -, hlt⟩ := hpartner.matchingClose_lt harrow
  rw [hfound] at hk
  cases hk
  exact Nat.lt_irrefl _ hlt

/-- The arrow of a function type is taken for the end of the list that the type stands in; a closing
bracket in a literal is not. -/
theorem matchingClose_partner_pointer :
    (Nested (brackets "Box<fn(A) -> B>") ∧ Partner "Box<fn(A) -> B>" 3 14 ∧
      matchingClose "Box<fn(A) -> B>" 3 = some 11 ∧
      ¬matchingClose "Box<fn(A) -> B>" 3 = some 14) ∧
    Nested (brackets "Chars<'>', Nil>") ∧ Partner "Chars<'>', Nil>" 5 14 ∧
      matchingClose "Chars<'>', Nil>" 5 = some 14 := by
  have hpointer : brackets "Box<fn(A) -> B>" =
      [⟨3, '<', 0⟩, ⟨6, '(', 1⟩, ⟨8, ')', 1⟩, ⟨14, '>', 0⟩] := by decide +kernel
  have hchars : brackets "Chars<'>', Nil>" = [⟨5, '<', 0⟩, ⟨14, '>', 0⟩] := by decide +kernel
  have hinner : Nested [⟨6, '(', 1⟩, ⟨8, ')', 1⟩] := @Nested.pair _ _ [] [] .round .nil .nil
  have hnested : Nested (brackets "Box<fn(A) -> B>") := by
    rw [hpointer]
    exact @Nested.pair _ _ [⟨6, '(', 1⟩, ⟨8, ')', 1⟩] [] .angle hinner .nil
  have hnested' : Nested (brackets "Chars<'>', Nil>") := by
    rw [hchars]
    exact @Nested.pair _ _ [] [] .angle .nil .nil
  have hbox : Partner "Box<fn(A) -> B>" 3 14 :=
    ⟨[], ⟨3, '<', 0⟩, [⟨6, '(', 1⟩, ⟨8, ')', 1⟩], ⟨14, '>', 0⟩, [], hpointer, rfl, rfl, .angle,
      hinner⟩
  have hlist : Partner "Chars<'>', Nil>" 5 14 :=
    ⟨[], ⟨5, '<', 0⟩, [], ⟨14, '>', 0⟩, [], hchars, rfl, rfl, .angle, .nil⟩
  have harrow : ArrowBetween "Box<fn(A) -> B>" 3 14 :=
    ⟨⟨11, '>', 0⟩, by decide +kernel, by decide +kernel, by decide, by decide⟩
  have hno : ¬ArrowBetween "Chars<'>', Nil>" 5 14 := by
    rintro ⟨m, hm, h, -⟩
    have hall : ∀ m ∈ topLevel "Chars<'>', Nil>", isArrow "Chars<'>', Nil>" m = false := by
      decide +kernel
    rw [hall m hm] at h
    cases h
  obtain ⟨j, -, hunique, hfound, -⟩ :=
    @matchingClose_partner _ ⟨3, '<', 0⟩ hnested (by decide +kernel) rfl
  obtain rfl := hunique 14 hbox
  obtain ⟨j, -, hunique', hfound', -⟩ :=
    @matchingClose_partner _ ⟨5, '<', 0⟩ hnested' (by decide +kernel) rfl
  obtain rfl := hunique' 14 hlist
  exact ⟨⟨hnested, hbox, by decide +kernel, fun h => hfound.1 h harrow⟩, hnested', hlist,
    hfound'.2 hno⟩

end TraitTrace.TypeExpr
