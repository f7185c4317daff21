import TraitTrace.Proofs.Graph.Components
import TraitTrace.Proofs.Graph.Drawing

/-! What the tree of a group shows. A node has one expanded line where edges of the group lead to it
from a root, and none otherwise. Only the first step of a chain is a root, so that a further step
below nothing, and what hangs below it, is shown only where another chain leads to it. -/

namespace TraitTrace

open Relation

namespace Group

/-- A node to which edges of a group lead from one of its roots. -/
def Reached (g : Group) (h : Handle) : Prop :=
  ∃ root ∈ g.roots, ReflTransGen (fun p q => (p, q) ∈ g.edges) root h

/-- A requirement to which the chains of a group lead from the first requirement of one of them. -/
def Leads (g : Group) (r : Registry) (k : NodeKey) : Prop :=
  ∃ first, (∃ e ∈ g.errors, e.Starts r first) ∧
    ReflTransGen (fun k k' => ∃ e ∈ g.errors, e.Leads r k k') first k

def Contributes (g : Group) (c : Chain) : Prop := ∃ e ∈ g.errors, e.Contributes c

/-- The handles of a group are those of the requirements of its errors. -/
structure Represents (graph : Graph) (r : Registry) (g : Group) : Prop where
  sound : graph.Sound
  entries : ∀ e ∈ g.entries, e.Represents graph r
  drawn : ∀ p q, (p, q) ∈ g.edges → q ∈ graph.children p

variable {graph : Graph} {r : Registry} {g : Group}

theorem exists_errors {Q : LogicalError → Prop} :
    (∃ e ∈ g.entries, Q e.error) ↔ ∃ e ∈ g.errors, Q e := by
  simp only [errors, List.mem_map, exists_exists_and_eq_and]

theorem Represents.mem_nodes (hg : g.Represents graph r) {h : Handle} :
    h ∈ g.nodes ↔ ∃ e ∈ g.errors, ∃ k, e.Requires r k ∧ graph.At h k := by
  rw [Group.mem_nodes, ← exists_errors]
  apply exists_congr
  intro e
  exact and_congr_right fun he => (hg.entries e he).nodes h

theorem Represents.mem_roots (hg : g.Represents graph r) {h : Handle} :
    h ∈ g.roots ↔ ∃ e ∈ g.errors, ∃ k, e.Starts r k ∧ graph.At h k := by
  rw [Group.mem_roots, ← exists_errors]
  apply exists_congr
  intro e
  exact and_congr_right fun he => (hg.entries e he).roots h

theorem Represents.mem_edges (hg : g.Represents graph r) {p q : Handle} :
    (p, q) ∈ g.edges ↔
      ∃ e ∈ g.errors, ∃ k k', e.Leads r k k' ∧ graph.At p k ∧ graph.At q k' := by
  rw [Group.mem_edges, ← exists_errors]
  apply exists_congr
  intro e
  exact and_congr_right fun he => (hg.entries e he).edges p q

theorem Represents.exists_at (hg : g.Represents graph r) {c : Chain} (hc : g.Contributes c)
    {k : NodeKey} (hk : c.Requires r k) : ∃ h, graph.At h k := by
  obtain ⟨e, he, hec⟩ := hc
  obtain ⟨o, ho, rfl⟩ := List.mem_map.1 he
  exact (hg.entries o ho).named k ⟨c, hec, hk⟩

theorem Represents.reached_iff (hg : g.Represents graph r) {h : Handle} {k : NodeKey}
    (hk : graph.At h k) : g.Reached h ↔ g.Leads r k := by
  constructor
  · rintro ⟨root, hroot, hpath⟩
    obtain ⟨e, he, first, hfirst, hat⟩ := hg.mem_roots.1 hroot
    refine ⟨first, ⟨e, he, hfirst⟩, ?_⟩
    induction hpath generalizing k with
    | refl =>
      rw [hat.key_unique hk]
    | tail _ hedge ih =>
      obtain ⟨o, ho, k₁, k₂, hleads, hp, hq⟩ := hg.mem_edges.1 hedge
      obtain rfl := hq.key_unique hk
      exact (ih hp).tail ⟨o, ho, hleads⟩
  · rintro ⟨first, ⟨e, he, c, hc, hfirst⟩, hpath⟩
    obtain ⟨root, hroot⟩ := hg.exists_at ⟨e, he, hc⟩ hfirst.requires
    refine ⟨root, hg.mem_roots.2 ⟨e, he, first, ⟨c, hc, hfirst⟩, hroot⟩, ?_⟩
    induction hpath generalizing h with
    | refl =>
      rw [hg.sound.handle_unique hroot hk]
    | tail _ hlast ih =>
      obtain ⟨o, ho, d, hd, hleads⟩ := hlast
      obtain ⟨p, hp⟩ := hg.exists_at ⟨o, ho, hd⟩ hleads.requires_left
      exact (ih hp).tail (hg.mem_edges.2 ⟨o, ho, _, _, ⟨d, hd, hleads⟩, hp, hk⟩)

/-- Where chains lead to every step below nothing, they lead to every step: a step with a parent is
led to from it. -/
theorem leads_of_late {c : Chain} (hc : g.Contributes c)
    (hlate : ∀ (i : Nat) (s : Step) (k : NodeKey), i ≠ 0 → c.steps[i]? = some s →
      s.parent = none → s.nodeKey r = .ok k → g.Leads r k) :
    ∀ k, c.Requires r k → g.Leads r k := by
  obtain ⟨e, he, hec⟩ := hc
  have hordered := hec.shaped.ordered
  rintro k ⟨s, hs, hk⟩
  obtain ⟨i, hi⟩ := List.getElem?_of_mem hs
  induction i using Nat.strongRecOn generalizing s k with
  | ind i ih =>
    cases hp : s.parent with
    | none =>
      by_cases hfirst : i = 0
      · subst hfirst
        rw [← List.head?_eq_getElem?] at hi
        exact ⟨k, ⟨e, he, c, hec, s, hi, hk⟩, .refl⟩
      · exact hlate i s k hfirst hi hp hk
    | some j =>
      have hlt := hordered.parent_lt i j s hi hp
      have hlen : j < c.steps.length := Nat.lt_trans hlt (lt_length_of_getElem? hi)
      have hj := List.getElem?_eq_getElem hlen
      have hmem := List.mem_of_getElem? hj
      obtain ⟨k', hk'⟩ := Step.exists_nodeKey r (hordered.named _ hmem)
      obtain ⟨first, hstart, hpath⟩ := ih j hlt k' _ hmem hk' hj
      by_cases hsame : k' = k
      · rw [← hsame]
        exact ⟨first, hstart, hpath⟩
      · exact ⟨first, hstart, hpath.tail ⟨e, he, c, hec, hsame, s, hs, j, _, hp, hj, hk', hk⟩⟩

theorem Represents.mem_children (hg : g.Represents graph r) {p q : Handle} :
    q ∈ g.children graph p ↔ (p, q) ∈ g.edges := by
  unfold Group.children
  rw [List.mem_filter, List.any_eq_true]
  constructor
  · rintro ⟨-, e, he, heq⟩
    rw [decide_eq_true_eq] at heq
    rw [← heq.1, ← heq.2]
    exact he
  · intro hpq
    exact ⟨hg.drawn p q hpq, (p, q), hpq, by simp⟩

theorem Represents.reached_iff_walk (hg : g.Represents graph r) {h : Handle} :
    g.Reached h ↔ ∃ root ∈ g.roots, Walk.Reaches (g.children graph) root h := by
  have hrel : (fun p q => (p, q) ∈ g.edges) = fun p q => q ∈ g.children graph p := by
    funext p q
    exact propext hg.mem_children.symm
  unfold Reached Walk.Reaches
  rw [hrel]

end Group

namespace Graph

theorem At.mem_handles {graph : Graph} {h : Handle} {k : NodeKey} (hk : graph.At h k) :
    h ∈ graph.handles := by
  obtain ⟨n, rfl, hn⟩ := hk
  have hlt := lt_length_of_getElem? hn
  rw [length_keys] at hlt
  exact List.mem_append_left _ (List.mem_map_of_mem (List.mem_range.2 hlt))

end Graph

namespace Group

variable {graph : Graph} {r : Registry} {g : Group}

/-- The tree of a group is drawn, and it expands the reached nodes, each once. -/
theorem Represents.draw (hg : g.Represents graph r) (charset : Charset) :
    ∃ tree, graph.draw r charset (g.children graph) g.roots = .ok tree ∧
      (TreeLine.expanded tree).Nodup ∧ ∀ h, h ∈ TreeLine.expanded tree ↔ g.Reached h := by
  have hclosed : ∀ h ∈ graph.handles, ∀ c ∈ g.children graph h, c ∈ graph.handles := by
    intro h _ c hc
    obtain ⟨e, -, k, k', -, -, hat⟩ := hg.mem_edges.1 (hg.mem_children.1 hc)
    exact hat.mem_handles
  have hroots : ∀ root ∈ g.roots, root ∈ graph.handles := by
    intro root hroot
    obtain ⟨e, -, k, -, hat⟩ := hg.mem_roots.1 hroot
    exact hat.mem_handles
  obtain ⟨tree, htree, hlines⟩ := Graph.draw_spec hclosed hroots r charset
  obtain ⟨hnodup, hmem⟩ := Walk.expanded_preorder hclosed hroots
  have heq := Walk.expanded_of_forall₂ hlines
  refine ⟨tree, htree, by rw [heq]; exact hnodup, fun h => ?_⟩
  rw [heq, hmem, hg.reached_iff_walk]

end Group

end TraitTrace
