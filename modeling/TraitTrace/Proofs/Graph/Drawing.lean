import TraitTrace.Proofs.Graph.Walk

/-! Drawn trees line by line. A tree is drawn wherever the children of nodes and the roots are nodes;
it has one line for each visit of the walk, with the handle and the depth of the visit, and a
reference back where the visit is one. -/

namespace TraitTrace

namespace Graph

/-- Every handle of a graph addresses a node, those that count back too. -/
theorem exists_node {graph : Graph} {h : Handle} (hh : h ∈ graph.handles) :
    ∃ n, graph.node? h = some n := by
  have hplace : place graph.size h < graph.size := by
    unfold place
    rcases List.mem_append.1 hh with hh | hh
    · obtain ⟨n, hn, rfl⟩ := List.mem_map.1 hh
      have hlt := List.mem_range.1 hn
      rw [Int.ofNat_eq_natCast, if_pos (Int.natCast_nonneg n)]
      exact hlt
    · obtain ⟨n, hn, rfl⟩ := List.mem_map.1 hh
      have hlt := List.mem_range.1 hn
      rw [if_neg (Int.not_le.2 (Int.negSucc_lt_zero n)), Int.natAbs_negSucc,
        if_pos (Nat.succ_le_of_lt hlt)]
      omega
  exact ⟨_, List.getElem?_eq_getElem hplace⟩

end Graph

/-- The nodes of the expanded lines of a drawn tree. -/
def TreeLine.expanded (tree : List TreeLine) : List Handle :=
  (tree.filter fun l => !l.isBackReference).map TreeLine.handle

namespace Walk

/-- A line with the depth, the handle and the kind of a visit. -/
structure Visit.Draws (v : Visit Handle) (l : TreeLine) : Prop where
  depth : l.depth = v.depth
  handle : l.handle = v.handle
  isBackReference : l.isBackReference = v.isBackReference

theorem Visit.draws_line (v : Visit Handle) (glyphs : Glyphs) (r : Registry) (n : Node) :
    v.Draws (v.line glyphs r n) := by
  unfold Visit.line
  cases hb : v.isBackReference with
  | true => exact ⟨rfl, rfl, hb.symm⟩
  | false => exact ⟨rfl, rfl, hb.symm⟩

theorem expanded_of_forall₂ {vs : List (Visit Handle)} {tree : List TreeLine}
    (h : List.Forall₂ Visit.Draws vs tree) : TreeLine.expanded tree = expandedOf vs := by
  induction h with
  | nil => rfl
  | cons hvl _ ih =>
    unfold TreeLine.expanded expandedOf at ih ⊢
    rw [List.filter_cons, List.filter_cons, hvl.isBackReference]
    split
    · rw [List.map_cons, List.map_cons, hvl.handle, ih]
    · exact ih

end Walk

/-- A tree is drawn where all that is visited has nodes. -/
theorem Graph.exists_draw {graph : Graph} {children : Handle → List Handle} {roots : List Handle}
    (hdomain : ∀ v ∈ Walk.preorder graph.handles children roots, v.handle ∈ graph.handles)
    (r : Registry) (charset : Charset) :
    ∃ tree, graph.draw r charset children roots = .ok tree := by
  apply exists_mapM
  intro v hv
  obtain ⟨n, hn⟩ := exists_node (hdomain v hv)
  rw [hn]
  exact ⟨_, rfl⟩

/-- A tree is drawn where children and roots have nodes. -/
theorem Graph.draw_spec {graph : Graph} {children : Handle → List Handle} {roots : List Handle}
    (hclosed : ∀ h ∈ graph.handles, ∀ c ∈ children h, c ∈ graph.handles)
    (hroots : ∀ root ∈ roots, root ∈ graph.handles) (r : Registry) (charset : Charset) :
    ∃ tree, graph.draw r charset children roots = .ok tree ∧
      List.Forall₂ Walk.Visit.Draws (Walk.preorder graph.handles children roots) tree := by
  have hdomain : ∀ v ∈ Walk.preorder graph.handles children roots, v.handle ∈ graph.handles := by
    apply Walk.forall_visits hclosed
    intro p hp
    obtain ⟨root, hroot, rfl⟩ := List.mem_map.1 hp
    exact hroots root hroot
  obtain ⟨tree, htree⟩ := exists_draw hdomain r charset
  refine ⟨tree, htree, (forall₂_of_mapM htree).imp fun v l hl => ?_⟩
  split at hl
  · cases hl
    exact v.draws_line _ r _
  · cases hl

end TraitTrace
