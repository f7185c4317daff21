import Mathlib
import TraitTrace.Proofs.Graph.Drawing

/-! Leaves and marks. The search for the leaves of a group and the walk that draws its tree keep
different lists and leave out repeated handles at different moments, but both meet the handles first
in one order. So the lines that a tree marks as unsatisfied are those of the leaves, in the order of
the leaves. -/

namespace TraitTrace

namespace Walk

variable {α : Type} [DecidableEq α] {domain : List α} {children : α → List α}

theorem firstMet_nil (seen : List α) : firstMet domain children [] seen = [] := by
  rw [firstMet]

theorem firstMet_of_mem {h : α} {rest seen : List α} (hs : h ∈ seen) :
    firstMet domain children (h :: rest) seen = firstMet domain children rest seen := by
  rw [firstMet, dif_pos (List.contains_iff_mem.2 hs)]

theorem firstMet_of_not_mem {h : α} {rest seen : List α} (hs : h ∉ seen) (hd : h ∈ domain) :
    firstMet domain children (h :: rest) seen =
      h :: firstMet domain children (children h ++ rest) (h :: seen) := by
  rw [firstMet, dif_neg (by rwa [List.contains_iff_mem]), dif_pos hd]

/-- Where all visited handles are in the domain, those that are met first are those that the walk
expands. -/
theorem firstMet_eq_expandedOf (left : List (α × List Bool)) (expanded : List α)
    (hdomain : ∀ v ∈ visits domain children left expanded, v.handle ∈ domain) :
    firstMet domain children (left.map Prod.fst) expanded =
      expandedOf (visits domain children left expanded) := by
  induction left, expanded using visits.induct domain children with
  | case1 expanded =>
    rw [visits_nil]
    exact firstMet_nil expanded
  | case2 h ends rest expanded hb ih =>
    have hmem := List.contains_iff_mem.1 hb
    rw [visits_of_mem hmem] at hdomain ⊢
    rw [List.map_cons, firstMet_of_mem hmem, expandedOf_back _ _ rfl]
    exact ih fun v hv => hdomain v (List.mem_cons_of_mem _ hv)
  | case3 h ends rest expanded hb hd ih =>
    have hnew : h ∉ expanded := fun he => hb (List.contains_iff_mem.2 he)
    rw [visits_of_not_mem hnew hd] at hdomain ⊢
    have hrest := ih fun v hv => hdomain v (List.mem_cons_of_mem _ hv)
    rw [List.map_append, map_fst_below] at hrest
    rw [List.map_cons, firstMet_of_not_mem hnew hd, expandedOf_first _ _ rfl, hrest]
  | case4 h ends rest expanded hb hd ih =>
    rw [visits, dif_neg hb, dif_neg hd] at hdomain
    exact absurd (hdomain _ List.mem_cons_self) hd

/-- No handle is met first twice. -/
theorem nodup_firstMet (left seen : List α) :
    (firstMet domain children left seen).Nodup ∧
      ∀ h ∈ firstMet domain children left seen, h ∉ seen := by
  induction left, seen using firstMet.induct domain children with
  | case1 seen =>
    rw [firstMet_nil]
    exact ⟨.nil, fun h hh => absurd hh List.not_mem_nil⟩
  | case2 h rest seen hb ih =>
    rw [firstMet_of_mem (List.contains_iff_mem.1 hb)]
    exact ih
  | case3 h rest seen hb hd ih =>
    have hnew : h ∉ seen := fun he => hb (List.contains_iff_mem.2 he)
    obtain ⟨hnodup, hfresh⟩ := ih
    rw [firstMet_of_not_mem hnew hd]
    refine ⟨List.nodup_cons.2 ⟨fun hmem => hfresh h hmem List.mem_cons_self, hnodup⟩, ?_⟩
    intro k hk
    rcases List.mem_cons.1 hk with rfl | hk
    · exact hnew
    · exact fun hseen => hfresh k hk (List.mem_cons_of_mem h hseen)
  | case4 h rest seen hb hd ih =>
    rw [firstMet, dif_neg hb, dif_neg hd]
    exact ih

/-- A visit that expands its handle knows whether the handle has children. -/
theorem isLeaf_of_expanded (left : List (α × List Bool)) (expanded : List α) :
    ∀ v ∈ visits domain children left expanded, v.isBackReference = false → v.handle ∈ domain →
      v.isLeaf = (children v.handle).isEmpty := by
  induction left, expanded using visits.induct domain children with
  | case1 expanded =>
    rw [visits_nil]
    exact fun v hv => absurd hv List.not_mem_nil
  | case2 h ends rest expanded hb ih =>
    rw [visits_of_mem (List.contains_iff_mem.1 hb)]
    intro v hv hfirst
    rcases List.mem_cons.1 hv with rfl | hv
    · cases hfirst
    · exact ih v hv hfirst
  | case3 h ends rest expanded hb hd ih =>
    rw [visits_of_not_mem (fun he => hb (List.contains_iff_mem.2 he)) hd]
    intro v hv
    rcases List.mem_cons.1 hv with rfl | hv
    · exact fun _ _ => rfl
    · exact ih v hv
  | case4 h ends rest expanded hb hd ih =>
    rw [visits, dif_neg hb, dif_neg hd]
    intro v hv hfirst hin
    rcases List.mem_cons.1 hv with rfl | hv
    · exact absurd hin hd
    · exact ih v hv hfirst hin

theorem Visit.mark_line (v : Visit Handle) (charset : Charset) (r : Registry) (n : Node) :
    (v.line charset.glyphs r n).mark = some charset.glyphs.unsatisfied ↔
      v.isBackReference = false ∧ v.isLeaf = true ∧ n.status = .unsatisfied := by
  have hglyphs : charset.glyphs.satisfied ≠ charset.glyphs.unsatisfied := by
    cases charset <;> decide
  unfold Visit.line Node.mark?
  cases v.isBackReference <;> cases v.isLeaf <;> cases n.status <;> simp [hglyphs]

end Walk

namespace Graph

theorem mem_handles_of_node? {graph : Graph} {h : Handle} {n : Node}
    (hn : graph.node? h = some n) : h ∈ graph.handles := by
  have hplace : place graph.size h < graph.size := (List.getElem?_eq_some_iff.1 hn).1
  rw [handles, List.mem_append]
  cases h with
  | ofNat k =>
    rw [Int.ofNat_eq_natCast, place, if_pos (Int.natCast_nonneg k), Int.toNat_natCast] at hplace
    exact .inl (List.mem_map_of_mem (List.mem_range.2 hplace))
  | negSucc k =>
    rw [place, if_neg (Int.not_le.2 (Int.negSucc_lt_zero k)), Int.natAbs_negSucc] at hplace
    split at hplace
    · exact .inr (List.mem_map_of_mem (List.mem_range.2 (by omega)))
    · exact absurd hplace (Nat.lt_irrefl _)

theorem forall₂_of_draw {graph : Graph} {r : Registry} {charset : Charset}
    {children : Handle → List Handle} {roots : List Handle} {tree : List TreeLine}
    (h : graph.draw r charset children roots = .ok tree) :
    List.Forall₂ (fun v l => ∃ n, graph.node? v.handle = some n ∧ l = v.line charset.glyphs r n)
      (Walk.preorder graph.handles children roots) tree := by
  refine (forall₂_of_mapM h).imp fun v l hl => ?_
  split at hl
  · rename_i n hn
    exact ⟨n, hn, (Except.ok.inj hl).symm⟩
  · cases hl

/-- Where a tree is drawn, all that is visited has nodes. -/
theorem mem_handles_of_draw {graph : Graph} {r : Registry} {charset : Charset}
    {children : Handle → List Handle} {roots : List Handle} {tree : List TreeLine}
    (h : graph.draw r charset children roots = .ok tree) :
    ∀ v ∈ Walk.preorder graph.handles children roots, v.handle ∈ graph.handles := by
  intro v hv
  obtain ⟨i, hi⟩ := List.getElem?_of_mem hv
  obtain ⟨l, -, n, hn, -⟩ := forall₂_left (forall₂_of_draw h) hi
  exact mem_handles_of_node? hn

end Graph

/-- The nodes of the lines that a tree marks as unsatisfied, line by line. -/
def TreeLine.unsatisfied (charset : Charset) (tree : List TreeLine) : List Handle :=
  (tree.filter fun l => l.mark = some charset.glyphs.unsatisfied).map TreeLine.handle

namespace Graph

def isUnsatisfied (graph : Graph) (h : Handle) : Bool :=
  (graph.node? h).any fun n => n.status = .unsatisfied

/-- Of the handles that the walk expands, a tree marks those without children whose nodes are
unsatisfied. -/
theorem unsatisfied_of_draw {graph : Graph} {r : Registry} {charset : Charset}
    {children : Handle → List Handle} {roots : List Handle} {tree : List TreeLine}
    (h : graph.draw r charset children roots = .ok tree) :
    TreeLine.unsatisfied charset tree =
      (Walk.firstMet graph.handles children roots []).filter fun k =>
        (children k).isEmpty && graph.isUnsatisfied k := by
  have hlines := forall₂_of_draw h
  have hdomain := mem_handles_of_draw h
  have hleaf : ∀ v ∈ Walk.preorder graph.handles children roots, v.isBackReference = false →
      v.isLeaf = (children v.handle).isEmpty := fun v hv hfirst =>
    Walk.isLeaf_of_expanded _ _ v hv hfirst (hdomain v hv)
  have hmet := Walk.firstMet_eq_expandedOf (roots.map fun root => (root, [])) [] hdomain
  have hroots : (roots.map fun root => (root, ([] : List Bool))).map Prod.fst = roots := by
    rw [List.map_map]
    exact List.map_id roots
  rw [hroots, ← Walk.preorder] at hmet
  rw [hmet]
  -- Line by line: a reference back is neither marked nor expanded.
  clear hmet hdomain h
  generalize Walk.preorder graph.handles children roots = vs at hlines hleaf
  induction hlines with
  | nil => rfl
  | @cons v l vs tree hvl _ ih =>
    obtain ⟨n, hn, rfl⟩ := hvl
    have hrest := ih fun w hw => hleaf w (List.mem_cons_of_mem v hw)
    have hmark := v.mark_line charset r n
    have hhandle := (v.draws_line charset.glyphs r n).handle
    unfold TreeLine.unsatisfied at hrest ⊢
    cases hback : v.isBackReference with
    | true =>
      rw [Walk.expandedOf_back _ _ hback, ← hrest, List.filter_cons_of_neg]
      rw [decide_eq_true_eq, hmark, hback]
      exact fun hc => Bool.noConfusion hc.1
    | false =>
      have hkids := hleaf v List.mem_cons_self hback
      rw [Walk.expandedOf_first _ _ hback]
      by_cases hm : (children v.handle).isEmpty = true ∧ n.status = .unsatisfied
      · rw [List.filter_cons_of_pos, List.filter_cons_of_pos, List.map_cons, hhandle, hrest]
        · rw [isUnsatisfied, hn, hm.1, Option.any_some, hm.2]
          rfl
        · rw [decide_eq_true_eq, hmark, hkids]
          exact ⟨hback, hm⟩
      · rw [List.filter_cons_of_neg, List.filter_cons_of_neg, hrest]
        · rw [isUnsatisfied, hn, Option.any_some, Bool.and_eq_true, decide_eq_true_eq]
          exact hm
        · rw [decide_eq_true_eq, hmark, hkids]
          exact fun hc => hm hc.2

end Graph

namespace Group

/-- A group whose roots and edges are between nodes of a graph. -/
structure Over (graph : Graph) (g : Group) : Prop where
  roots : ∀ root ∈ g.roots, root ∈ graph.handles
  edges : ∀ e ∈ g.edges, e.2 ∈ graph.handles

theorem Over.closed {graph : Graph} {g : Group} (hg : g.Over graph) :
    ∀ h ∈ graph.handles, ∀ c ∈ g.children graph h, c ∈ graph.handles := by
  intro h _ c hc
  obtain ⟨e, he, heq⟩ := List.any_eq_true.1 (List.mem_filter.1 hc).2
  obtain ⟨-, rfl⟩ := of_decide_eq_true heq
  exact hg.edges e he

/-- In every drawn tree of a group, the lines marked as unsatisfied are those of its leaves, in
their order and without repetition; a group over a graph has such a tree. -/
theorem leaves_marked (graph : Graph) (g : Group) (r : Registry) (charset : Charset) :
    (g.Over graph → ∃ tree, graph.draw r charset (g.children graph) g.roots = .ok tree) ∧
      ∀ tree, graph.draw r charset (g.children graph) g.roots = .ok tree →
        TreeLine.unsatisfied charset tree = g.unsatisfiedLeaves graph ∧
          (g.unsatisfiedLeaves graph).Nodup := by
  constructor
  · intro hg
    obtain ⟨tree, htree, -⟩ := Graph.draw_spec hg.closed hg.roots r charset
    exact ⟨tree, htree⟩
  · intro tree htree
    exact ⟨Graph.unsatisfied_of_draw htree, (Walk.nodup_firstMet _ _).1.filter _⟩

def unmet (context : String) (children : List Handle) : Node :=
  ⟨.field (some context) none, .field, some context, none, none, none, none, [], none,
    .unsatisfied, 0, children.map fun c => ⟨c, 0, 0⟩⟩

/-- The first and the second node lead to each other and to the third, which leads to the fourth. -/
def knot : Graph := ⟨[unmet "A" [1, 2], unmet "B" [2, 0], unmet "C" [3], unmet "D" []], 5⟩

/-- A group that the edge from the third node to the fourth is no part of. -/
def knotGroup : Group :=
  ⟨[⟨0, .fresh none none 0, [1, 0], [0, 1, 2], [(0, 1), (1, 0), (1, 2), (0, 2)]⟩]⟩

/-- The third node is a leaf in the group, though not in the graph. -/
theorem leaves_marked_knot : knotGroup.Over knot ∧ knotGroup.unsatisfiedLeaves knot = [2] ∧
    ∃ tree, knot.draw .empty .ascii (knotGroup.children knot) knotGroup.roots = .ok tree ∧
      TreeLine.unsatisfied .ascii tree = [2] := by
  have hover : knotGroup.Over knot := ⟨by decide, by decide⟩
  have hleaves : knotGroup.unsatisfiedLeaves knot = [2] := by cbv
  obtain ⟨hdraw, hmarked⟩ := leaves_marked knot knotGroup .empty .ascii
  obtain ⟨tree, htree⟩ := hdraw hover
  exact ⟨hover, hleaves, tree, htree, (hmarked tree htree).1.trans hleaves⟩

end Group

end TraitTrace
