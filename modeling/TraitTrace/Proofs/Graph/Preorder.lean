import Mathlib.Algebra.GroupWithZero.Nat
import TraitTrace.Proofs.Graph.Drawing

/-! Walks and recursion. A walk keeps the handles that are left to visit in one list and puts the
children of an expanded handle in front; it visits the handles in the order, at the depths and with
the references back of the recursion that lists a handle, then all that is below it, then what
follows. A drawn tree has the lines of this recursion. -/

namespace TraitTrace

namespace Walk

variable {α : Type}

/-- What the recursion lists: a depth, a handle and whether it is a reference back. -/
abbrev Place (α : Type) := Nat × α × Bool

/-- The recursion, over handles at one depth. A handle that was not met before is listed with what
is below it, any other one is a reference back; the last list holds the handles met in the end. -/
inductive Descent (children : α → List α) :
    Nat → List α → List α → List (Place α) → List α → Prop
  | nil {depth : Nat} {met : List α} : Descent children depth [] met [] met
  | again {depth : Nat} {h : α} {hs met met' : List α} {ls : List (Place α)} : h ∈ met →
      Descent children depth hs met ls met' →
      Descent children depth (h :: hs) met ((depth, h, true) :: ls) met'
  | first {depth : Nat} {h : α} {hs met met' met'' : List α} {ls ls' : List (Place α)} : h ∉ met →
      Descent children (depth + 1) (children h) (h :: met) ls met' →
      Descent children depth hs met' ls' met'' →
      Descent children depth (h :: hs) met ((depth, h, false) :: (ls ++ ls')) met''

variable {children : α → List α}

theorem Descent.subset {depth : Nat} {hs met met' : List α} {ls : List (Place α)}
    (h : Descent children depth hs met ls met') : met ⊆ met' := by
  induction h with
  | nil => exact List.Subset.refl _
  | again _ _ ih => exact ih
  | first _ _ _ ihbelow ihrest =>
    exact List.Subset.trans (List.Subset.trans (List.subset_cons_self _ _) ihbelow) ihrest

/-- The recursion has one outcome at most. -/
theorem Descent.unique {depth : Nat} {hs met met₁ met₂ : List α} {ls₁ ls₂ : List (Place α)}
    (h₁ : Descent children depth hs met ls₁ met₁) (h₂ : Descent children depth hs met ls₂ met₂) :
    ls₁ = ls₂ ∧ met₁ = met₂ := by
  induction h₁ generalizing ls₂ met₂ with
  | nil =>
    cases h₂
    exact ⟨rfl, rfl⟩
  | again hmet _ ih =>
    cases h₂ with
    | again _ hrest =>
      obtain ⟨rfl, rfl⟩ := ih hrest
      exact ⟨rfl, rfl⟩
    | first hnew => exact absurd hmet hnew
  | first hnew _ _ ihbelow ihrest =>
    cases h₂ with
    | again hmet => exact absurd hmet hnew
    | first _ hbelow hrest =>
      obtain ⟨rfl, rfl⟩ := ihbelow hbelow
      obtain ⟨rfl, rfl⟩ := ihrest hrest
      exact ⟨rfl, rfl⟩

def Visit.place (v : Visit α) : Place α := (v.depth, v.handle, v.isBackReference)

theorem length_of_mem_below {ends : List Bool} {cs : List α} :
    ∀ p ∈ below ends cs, p.2.length = ends.length + 1 := by
  induction cs with
  | nil => exact fun p hp => absurd hp List.not_mem_nil
  | cons c cs ih =>
    intro p hp
    cases cs with
    | nil =>
      rw [below, List.mem_singleton] at hp
      rw [hp, List.length_append, List.length_singleton]
    | cons d cs =>
      rw [below, List.mem_cons] at hp
      · rcases hp with rfl | hp
        · rw [List.length_append, List.length_singleton]
        · exact ih p hp
      · exact List.cons_ne_nil d cs

variable [DecidableEq α] {domain : List α}

theorem length_unexpanded_cons_lt {met : List α} {h : α} (hd : h ∈ domain) (hnew : h ∉ met) :
    (unexpanded domain (h :: met)).length < (unexpanded domain met).length := by
  apply length_unexpanded_lt hd
  rw [Bool.eq_false_iff]
  exact fun hc => hnew (List.contains_iff_mem.1 hc)

theorem length_unexpanded_le {met met' : List α} (hsub : met ⊆ met') :
    (unexpanded domain met').length ≤ (unexpanded domain met).length := by
  apply length_filter_le_of_imp
  intro h hh
  rw [Bool.not_eq_true', Bool.eq_false_iff] at hh ⊢
  exact fun hc => hh (List.contains_iff_mem.2 (hsub (List.contains_iff_mem.1 hc)))

/-- Inside a closed domain the recursion has an outcome: below a handle that is met first, fewer
handles are left to meet. -/
theorem exists_descent (hclosed : ∀ h ∈ domain, ∀ c ∈ children h, c ∈ domain) (n depth : Nat)
    (hs met : List α) (hn : (unexpanded domain met).length ≤ n) (hhs : ∀ h ∈ hs, h ∈ domain) :
    ∃ ls met', Descent children depth hs met ls met' := by
  induction n generalizing depth hs met with
  | zero =>
    -- Everything in the domain was met.
    induction hs generalizing met with
    | nil => exact ⟨[], met, .nil⟩
    | cons h hs ih =>
      have hmem : h ∈ met := by
        by_contra hnew
        have hlt := length_unexpanded_cons_lt (hhs h List.mem_cons_self) hnew
        omega
      obtain ⟨ls, met', hrest⟩ := ih met hn fun k hk => hhs k (List.mem_cons_of_mem h hk)
      exact ⟨_, met', .again hmem hrest⟩
  | succ n ihn =>
    induction hs generalizing met with
    | nil => exact ⟨[], met, .nil⟩
    | cons h hs ih =>
      have hd := hhs h List.mem_cons_self
      have hrest := fun k hk => hhs k (List.mem_cons_of_mem h hk)
      by_cases hmem : h ∈ met
      · obtain ⟨ls, met', hdescent⟩ := ih met hn hrest
        exact ⟨_, met', .again hmem hdescent⟩
      · have hlt := length_unexpanded_cons_lt hd hmem
        obtain ⟨ls, met', hbelow⟩ :=
          ihn (depth + 1) (children h) (h :: met) (by omega) (hclosed h hd)
        have hle : (unexpanded domain met').length ≤ (unexpanded domain (h :: met)).length :=
          length_unexpanded_le hbelow.subset
        obtain ⟨ls', met'', hdescent⟩ := ih met' (by omega) hrest
        exact ⟨_, met'', .first hmem hbelow hdescent⟩

/-- A walk over handles at one depth and further ones visits what the recursion lists, and goes on
with the further ones from what was met. -/
theorem visits_of_descent (hclosed : ∀ h ∈ domain, ∀ c ∈ children h, c ∈ domain) {depth : Nat}
    {hs met met' : List α} {ls : List (Place α)} (hdescent : Descent children depth hs met ls met')
    (hhs : ∀ h ∈ hs, h ∈ domain) (left rest : List (α × List Bool)) (hleft : left.map Prod.fst = hs)
    (hdepth : ∀ p ∈ left, p.2.length = depth) :
    ∃ vs, vs.map Visit.place = ls ∧
      visits domain children (left ++ rest) met = vs ++ visits domain children rest met' := by
  induction hdescent generalizing left rest with
  | nil =>
    rw [List.map_eq_nil_iff] at hleft
    subst hleft
    exact ⟨[], rfl, rfl⟩
  | again hmem _ ih =>
    obtain ⟨⟨h, ends⟩, left, rfl, rfl, hrest⟩ := List.map_eq_cons_iff.1 hleft
    obtain ⟨vs, hvs, hvisits⟩ := ih (fun k hk => hhs k (List.mem_cons_of_mem _ hk)) left rest hrest
      fun p hp => hdepth p (List.mem_cons_of_mem _ hp)
    refine ⟨⟨h, ends, true, false⟩ :: vs, ?_, ?_⟩
    · rw [List.map_cons, hvs, ← hdepth (h, ends) List.mem_cons_self]
      rfl
    · rw [List.cons_append, visits_of_mem hmem, hvisits, List.cons_append]
  | first hnew _ _ ihbelow ihrest =>
    obtain ⟨⟨h, ends⟩, left, rfl, rfl, hrest⟩ := List.map_eq_cons_iff.1 hleft
    have hd := hhs h List.mem_cons_self
    have hends := hdepth (h, ends) List.mem_cons_self
    obtain ⟨vs, hvs, hvisits⟩ := ihbelow (hclosed h hd) (below ends (children h)) (left ++ rest)
      (map_fst_below ends (children h)) (by rw [← hends]; exact length_of_mem_below)
    obtain ⟨vs', hvs', hvisits'⟩ := ihrest (fun k hk => hhs k (List.mem_cons_of_mem _ hk)) left rest
      hrest fun p hp => hdepth p (List.mem_cons_of_mem _ hp)
    refine ⟨⟨h, ends, false, (children h).isEmpty⟩ :: (vs ++ vs'), ?_, ?_⟩
    · rw [List.map_cons, List.map_append, hvs, hvs', ← hends]
      rfl
    · rw [List.cons_append, visits_of_not_mem hnew hd, hvisits, hvisits', List.cons_append,
        List.append_assoc]

theorem descent_preorder (hclosed : ∀ h ∈ domain, ∀ c ∈ children h, c ∈ domain) {roots : List α}
    (hroots : ∀ root ∈ roots, root ∈ domain) (ls : List (Place α)) :
    (∃ met, Descent children 0 roots [] ls met) ↔
      ls = (preorder domain children roots).map Visit.place := by
  obtain ⟨ls', met', hdescent⟩ := exists_descent hclosed _ 0 roots [] (Nat.le_refl _) hroots
  obtain ⟨vs, hvs, hvisits⟩ := visits_of_descent hclosed hdescent hroots
    (roots.map fun root => (root, [])) [] (by rw [List.map_map]; exact List.map_id roots) (by
      intro p hp
      obtain ⟨root, -, rfl⟩ := List.mem_map.1 hp
      rfl)
  rw [List.append_nil, visits_nil, List.append_nil] at hvisits
  rw [preorder, hvisits, hvs]
  constructor
  · rintro ⟨met, h⟩
    exact (h.unique hdescent).1
  · rintro rfl
    exact ⟨met', hdescent⟩

/-- A reference back comes after the visit that expands its handle. -/
theorem expanded_before (left : List (α × List Bool)) (expanded : List α) (i : Nat) (v : Visit α)
    (hv : (visits domain children left expanded)[i]? = some v) (hback : v.isBackReference = true) :
    v.handle ∈ expanded ∨ ∃ j w, j < i ∧ (visits domain children left expanded)[j]? = some w ∧
      w.handle = v.handle ∧ w.isBackReference = false := by
  induction left, expanded using visits.induct domain children generalizing i with
  | case1 expanded =>
    rw [visits_nil] at hv
    cases hv
  | case2 h ends rest expanded hb ih =>
    have hmem := List.contains_iff_mem.1 hb
    rw [visits_of_mem hmem] at hv ⊢
    cases i with
    | zero =>
      cases hv
      exact .inl hmem
    | succ i =>
      rcases ih i hv with hold | ⟨j, w, hj, hw, hsame⟩
      · exact .inl hold
      · exact .inr ⟨j + 1, w, Nat.succ_lt_succ hj, hw, hsame⟩
  | case3 h ends rest expanded hb hd ih =>
    rw [visits_of_not_mem (fun he => hb (List.contains_iff_mem.2 he)) hd] at hv ⊢
    cases i with
    | zero =>
      cases hv
      cases hback
    | succ i =>
      rcases ih i hv with hold | ⟨j, w, hj, hw, hsame⟩
      · rcases List.mem_cons.1 hold with hself | hold
        · exact .inr ⟨0, _, Nat.succ_pos i, rfl, hself.symm, rfl⟩
        · exact .inl hold
      · exact .inr ⟨j + 1, w, Nat.succ_lt_succ hj, hw, hsame⟩
  | case4 h ends rest expanded hb hd ih =>
    rw [visits, dif_neg hb, dif_neg hd] at hv ⊢
    cases i with
    | zero =>
      cases hv
      cases hback
    | succ i =>
      rcases ih i hv with hold | ⟨j, w, hj, hw, hsame⟩
      · exact .inl hold
      · exact .inr ⟨j + 1, w, Nat.succ_lt_succ hj, hw, hsame⟩

omit [DecidableEq α] in
theorem length_below (ends : List Bool) (cs : List α) : (below ends cs).length = cs.length := by
  rw [← List.length_map Prod.fst, map_fst_below]

/-- Every handle that was left is visited once, and so is every child of an expanded handle. -/
theorem length_visits (hclosed : ∀ h ∈ domain, ∀ c ∈ children h, c ∈ domain)
    (left : List (α × List Bool)) (expanded : List α) (hleft : ∀ p ∈ left, p.1 ∈ domain) :
    (visits domain children left expanded).length =
      left.length +
        ((expandedOf (visits domain children left expanded)).map fun h => (children h).length).sum
        := by
  induction left, expanded using visits.induct domain children with
  | case1 expanded =>
    rw [visits_nil]
    rfl
  | case2 h ends rest expanded hb ih =>
    have hrest := ih fun p hp => hleft p (List.mem_cons_of_mem _ hp)
    rw [visits_of_mem (List.contains_iff_mem.1 hb), expandedOf_back _ _ rfl, List.length_cons,
      List.length_cons, hrest]
    omega
  | case3 h ends rest expanded hb hd ih =>
    have hkids : ∀ p ∈ below ends (children h) ++ rest, p.1 ∈ domain := by
      intro p hp
      rcases List.mem_append.1 hp with hp | hp
      · exact hclosed h hd p.1 (mem_below.1 ⟨p, hp, rfl⟩)
      · exact hleft p (List.mem_cons_of_mem _ hp)
    have hrest := ih hkids
    rw [List.length_append, length_below] at hrest
    rw [visits_of_not_mem (fun he => hb (List.contains_iff_mem.2 he)) hd, expandedOf_first _ _ rfl,
      List.length_cons, List.length_cons, List.map_cons, List.sum_cons, hrest]
    dsimp only
    omega
  | case4 h ends rest expanded hb hd ih =>
    exact absurd (hleft _ List.mem_cons_self) hd

theorem Visit.Draws.place {v : Visit Handle} {l : TreeLine} (h : v.Draws l) :
    (l.depth, l.handle, l.isBackReference) = v.place := by
  rw [h.depth, h.handle, h.isBackReference]
  rfl

end Walk

namespace TreeLine

open Walk

/-- A tree that lists what the recursion from some roots lists: all that is reached from the roots
has one expanded line, references back come later, and no other handle has a line. -/
structure Lists (children : Handle → List Handle) (roots : List Handle) (tree : List TreeLine) :
    Prop where
  recursion : ∀ ls, (∃ met, Descent children 0 roots [] ls met) ↔
    ls = tree.map fun l => (l.depth, l.handle, l.isBackReference)
  once : (expanded tree).Nodup
  reached : ∀ h, h ∈ expanded tree ↔ ∃ root ∈ roots, Reaches children root h
  lines : ∀ l ∈ tree, ∃ root ∈ roots, Reaches children root l.handle
  back : ∀ (i : Nat) (l : TreeLine), tree[i]? = some l → l.isBackReference = true →
    ∃ (j : Nat) (m : TreeLine), j < i ∧ tree[j]? = some m ∧ m.handle = l.handle ∧
      m.isBackReference = false
  length : tree.length =
    roots.length + ((expanded tree).map fun h => (children h).length).sum

/-- A reference back repeats an expanded line above it. -/
theorem exists_before_of_back {domain : List Handle} {children : Handle → List Handle}
    {roots : List Handle} {tree : List TreeLine}
    (hlines : List.Forall₂ Visit.Draws (preorder domain children roots) tree) {i : Nat}
    {l : TreeLine} (hl : tree[i]? = some l) (hisback : l.isBackReference = true) :
    ∃ (j : Nat) (m : TreeLine), j < i ∧ tree[j]? = some m ∧ m.handle = l.handle ∧
      m.isBackReference = false := by
  obtain ⟨v, hv, hvl⟩ := forall₂_right hlines hl
  rw [hvl.isBackReference] at hisback
  rcases expanded_before _ _ i v hv hisback with hnone | ⟨j, w, hj, hw, hsame, hfirst⟩
  · exact absurd hnone List.not_mem_nil
  · obtain ⟨m, hm, hwm⟩ := forall₂_left hlines hw
    exact ⟨j, m, hj, hm, by rw [hwm.handle, hsame, hvl.handle], by rw [hwm.isBackReference, hfirst]⟩

theorem lists_of_forall₂ {domain : List Handle} {children : Handle → List Handle}
    {roots : List Handle} {tree : List TreeLine}
    (hclosed : ∀ h ∈ domain, ∀ c ∈ children h, c ∈ domain) (hroots : ∀ root ∈ roots, root ∈ domain)
    (hlines : List.Forall₂ Visit.Draws (preorder domain children roots) tree) :
    Lists children roots tree := by
  have hexpanded := expanded_of_forall₂ hlines
  have hplaces : (tree.map fun l => (l.depth, l.handle, l.isBackReference)) =
      (preorder domain children roots).map Visit.place :=
    map_eq_of_forall₂ hlines fun v l h => h.place
  obtain ⟨honce, hreached⟩ := expanded_preorder hclosed hroots
  constructor
  case recursion =>
    rw [hplaces]
    exact descent_preorder hclosed hroots
  case once =>
    rw [hexpanded]
    exact honce
  case reached =>
    rw [hexpanded]
    exact hreached
  case lines =>
    intro l hl
    rw [← hreached, ← hexpanded]
    obtain ⟨i, hi⟩ := List.getElem?_of_mem hl
    cases hisback : l.isBackReference with
    | false => exact List.mem_map_of_mem (List.mem_filter.2 ⟨hl, by rw [hisback]; rfl⟩)
    | true =>
      obtain ⟨j, m, -, hm, hsame, hfirst⟩ := exists_before_of_back hlines hi hisback
      rw [← hsame]
      exact List.mem_map_of_mem
        (List.mem_filter.2 ⟨List.mem_of_getElem? hm, by rw [hfirst]; rfl⟩)
  case back => exact fun i l hl hisback => exists_before_of_back hlines hl hisback
  case length =>
    have hlength := length_visits hclosed (roots.map fun root => (root, [])) [] (by
      intro p hp
      obtain ⟨root, hroot, rfl⟩ := List.mem_map.1 hp
      exact hroots root hroot)
    rw [List.length_map] at hlength
    rw [hexpanded, ← hlines.length_eq]
    exact hlength

end TreeLine

namespace Graph

/-- Where children and roots have nodes, a tree is drawn and lists what the recursion from the roots
lists, whatever parts are shared and whatever cycles there are. -/
theorem lists_draw (graph : Graph) (r : Registry) (charset : Charset)
    (children : Handle → List Handle) (roots : List Handle)
    (hclosed : ∀ h ∈ graph.handles, ∀ c ∈ children h, c ∈ graph.handles)
    (hroots : ∀ root ∈ roots, root ∈ graph.handles) :
    ∃ tree, graph.draw r charset children roots = .ok tree ∧
      TreeLine.Lists children roots tree := by
  obtain ⟨tree, htree, hlines⟩ := draw_spec hclosed hroots r charset
  exact ⟨tree, htree, TreeLine.lists_of_forall₂ hclosed hroots hlines⟩

def bare (context : String) : Node :=
  ⟨.field (some context) none, .field, some context, none, none, none, none, [], none,
    .unsatisfied, 0, []⟩

/-- The last of three nodes leads back to the first one and to itself, the first two share it, and
one root is given twice. -/
theorem lists_draw_cycle :
    let graph : Graph := ⟨[bare "A", bare "B", bare "C"], 5⟩
    let children : Handle → List Handle := fun h =>
      if h = 0 then [1, 2] else if h = 1 then [2] else if h = 2 then [0, 2] else []
    (∀ h ∈ graph.handles, ∀ c ∈ children h, c ∈ graph.handles) ∧
      (∀ root ∈ [0, 1, 0], root ∈ graph.handles) ∧
      ∃ tree, graph.draw .empty .ascii children [0, 1, 0] = .ok tree ∧
        TreeLine.Lists children [0, 1, 0] tree := by
  intro graph children
  have hclosed : ∀ h ∈ graph.handles, ∀ c ∈ children h, c ∈ graph.handles := by decide
  have hroots : ∀ root ∈ [0, 1, 0], root ∈ graph.handles := by decide
  exact ⟨hclosed, hroots, lists_draw graph .empty .ascii children [0, 1, 0] hclosed hroots⟩

end Graph

end TraitTrace
