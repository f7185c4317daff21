import Mathlib.Data.List.Permutation
import Mathlib.Order.Bounds.Basic
import Mathlib.Order.MinMax
import TraitTrace.Proofs.Graph.Calls

/-! A graph and the history of its calls. Every part of it can be read off the calls: the keys come
in the order of their first steps, a node tells the worst status, the least number and the first
known names of the steps that met in it, and its children stand in the order of the least numbers of
their edges. -/

namespace TraitTrace

namespace NodeKey

def component : NodeKey → Option String
  | consumer _ component => component
  | provider _ component _ _ => component
  | _ => none

end NodeKey

namespace Step

theorem component_nodeKey {s : Step} {r : Registry} {k : NodeKey} (h : s.nodeKey r = .ok k) :
    s.component r = .ok k.component := by
  unfold nodeKey at h
  split at h <;> rename_i hkind
  · cases h
    simp only [component, hkind, NodeKey.component]
  · cases h
    simp only [component, hkind, NodeKey.component]
  · obtain ⟨c, hc, rfl⟩ := map_ok.1 h
    exact hc
  · obtain ⟨c, hc, rfl⟩ := map_ok.1 h
    exact hc
  · cases h
    simp only [component, hkind, NodeKey.component]

theorem component_of_marker {s : Step} (r : Registry) {marker : String}
    (hkind : s.kind = .consumer ∨ s.kind = .provider) (hmarker : s.marker = some marker) :
    s.component r = .ok (some marker) := by
  unfold component
  rcases hkind with hkind | hkind <;> simp only [hkind, hmarker]

end Step

namespace Graph

/-- A call that met no fault, with the handle that it gave. -/
inductive Call where
  | intern (s : Step) (seq : Int) (h : Handle)
  | link (parent child : Handle) (seq : Int)

namespace Call

def key? (r : Registry) : Call → Option NodeKey
  | intern s _ _ => (s.nodeKey r).toOption
  | link .. => none

/-- The step that a call brought to a handle, and its number. -/
def met? (h : Handle) : Call → Option (Step × Int)
  | intern s seq i => if i = h then some (s, seq) else none
  | link .. => none

def links (parent child : Handle) : Call → Bool
  | intern .. => false
  | link p c _ => p = parent && c = child

end Call

/-- A handle that an earlier call gave. -/
def Given (calls : List Call) (h : Handle) : Prop := ∃ s seq, .intern s seq h ∈ calls

/-- The graph after some calls on an empty one. Edges join handles that were given before. -/
inductive Follows (r : Registry) : List Call → Graph → Prop
  | nil : Follows r [] empty
  | intern {calls : List Call} {g g' : Graph} {s : Step} {seq : Int} {h : Handle} :
      Follows r calls g → g.intern r s seq = .ok (g', h) → Follows r (calls ++ [.intern s seq h]) g'
  | link {calls : List Call} {g g' : Graph} {parent child : Handle} {seq : Int} :
      Follows r calls g → Given calls parent → Given calls child →
        g.link parent child seq = .ok g' → Follows r (calls ++ [.link parent child seq]) g'

/-- The steps that met in a node, in the order of the calls. -/
def meetings (calls : List Call) (h : Handle) : List (Step × Int) := calls.filterMap (Call.met? h)

def keysOf (r : Registry) (calls : List Call) : List NodeKey := calls.filterMap (Call.key? r)

/-- The numbers that an edge came with. -/
def numbers (calls : List Call) (parent child : Handle) : Set Int :=
  {seq | .link parent child seq ∈ calls}

/-- The place of the first call for an edge. -/
def firstLink (calls : List Call) (parent child : Handle) : Nat :=
  calls.findIdx (Call.links parent child)

/-- Of two children, the one whose edge has the smaller least number, or else the one that was
linked first. -/
def Precedes (calls : List Call) (parent a b : Handle) : Prop :=
  ∃ p q, IsLeast (numbers calls parent a) p ∧ IsLeast (numbers calls parent b) q ∧
    (p < q ∨ p = q ∧ firstLink calls parent a < firstLink calls parent b)

end Graph

open TraitTrace.Graph

/-- A node as the steps that met in it leave it. -/
structure Node.Recalls (n : Node) (steps : List (Step × Int)) : Prop where
  worst : ∃ m ∈ steps, m.1.status = n.status
  rank_le : ∀ m ∈ steps, m.1.status.rank ≤ n.status.rank
  seq : IsLeast {seq | ∃ m ∈ steps, m.2 = seq} n.seq
  marker : n.marker = steps.findSome? fun m => m.1.marker
  contract : n.contract = steps.findSome? fun m => m.1.contract
  named : n.kind = .consumer ∨ n.kind = .provider → n.marker = none ∨ n.marker = n.component

namespace Node

variable {n : Node} {r : Registry} {s : Step} {seq : Int} {steps : List (Step × Int)}

theorem Begins.recalls (h : n.Begins r s seq) : n.Recalls [(s, seq)] := by
  have hseq : {q | ∃ m ∈ [(s, seq)], m.2 = q} = {seq} := by
    ext q
    simp [eq_comm]
  refine ⟨⟨_, List.mem_singleton.2 rfl, h.status.symm⟩, fun m hm => ?_, ?_, ?_, ?_, fun hkind => ?_⟩
  · rw [List.mem_singleton.1 hm, h.status]
  · rw [hseq, h.seq]
    exact isLeast_singleton
  · rw [h.marker, List.findSome?_singleton]
  · rw [h.contract, List.findSome?_singleton]
  · cases hmarker : s.marker with
    | none => exact .inl (h.marker.trans hmarker)
    | some marker =>
      rw [h.kind] at hkind
      have hcomponent := h.component
      rw [s.component_of_marker r hkind hmarker] at hcomponent
      rw [h.marker, hmarker]
      exact .inr (Except.ok.inj hcomponent)

/-- A step of the node's key has the node's component, so that its marker can only be that. -/
theorem Recalls.meet (h : n.Recalls steps) (seq : Int) (hkey : s.nodeKey r = .ok n.key)
    (hkind : n.kind = n.key.kind) (hcomponent : n.component = n.key.component) :
    (n.meet s seq).Recalls (steps ++ [(s, seq)]) := by
  have hlast : (s, seq) ∈ steps ++ [(s, seq)] := List.mem_append_right _ List.mem_cons_self
  have hrank : (n.meet s seq).status.rank = max n.status.rank s.status.rank :=
    Status.rank_worse n.status s.status
  refine ⟨?_, fun m hm => ?_, ⟨?_, ?_⟩, ?_, ?_, fun hrole => ?_⟩
  · rcases Status.worse_eq n.status s.status with hold | hnew
    · obtain ⟨m, hm, hworst⟩ := h.worst
      exact ⟨m, List.mem_append_left _ hm, hworst.trans hold.symm⟩
    · exact ⟨_, hlast, hnew.symm⟩
  · rw [hrank]
    rcases List.mem_append.1 hm with hm | hm
    · exact Nat.le_trans (h.rank_le m hm) (Nat.le_max_left _ _)
    · rw [List.mem_singleton.1 hm]
      exact Nat.le_max_right _ _
  · rcases min_choice n.seq seq with hold | hnew
    · obtain ⟨m, hm, hseq⟩ := h.seq.1
      exact ⟨m, List.mem_append_left _ hm, hseq.trans hold.symm⟩
    · exact ⟨_, hlast, hnew.symm⟩
  · rintro q ⟨m, hm, rfl⟩
    rcases List.mem_append.1 hm with hm | hm
    · exact Int.le_trans (Int.min_le_left _ _) (h.seq.2 ⟨m, hm, rfl⟩)
    · rw [List.mem_singleton.1 hm]
      exact Int.min_le_right _ _
  · rw [List.findSome?_append, List.findSome?_singleton, ← h.marker]
    rfl
  · rw [List.findSome?_append, List.findSome?_singleton, ← h.contract]
    rfl
  · have hsame : s.marker = none ∨ s.marker = n.component := by
      cases hmarker : s.marker with
      | none => exact .inl rfl
      | some marker =>
        have hstep : s.kind = .consumer ∨ s.kind = .provider := by
          rw [← Step.kind_nodeKey hkey, ← hkind]
          exact hrole
        have hnamed := Step.component_nodeKey hkey
        rw [s.component_of_marker r hstep hmarker, ← hcomponent] at hnamed
        exact .inr (Except.ok.inj hnamed)
    change n.marker.or s.marker = none ∨ n.marker.or s.marker = n.component
    cases hold : n.marker with
    | none => exact hsame
    | some marker =>
      have hknown := h.named hrole
      rw [hold] at hknown
      exact hknown

/-- The edges of a node at a handle as the calls leave them: one for each linked child, in the order
of their first calls and so of their ranks, with the least number that it came with. -/
structure Linked (calls : List Call) (h : Handle) (count : Nat) (n : Node) : Prop where
  child : ∀ c, (∃ l ∈ n.links, l.child = c) ↔ ∃ seq, .link h c seq ∈ calls
  least : ∀ l ∈ n.links, IsLeast (numbers calls h l.child) l.seq
  ranked : n.links.Pairwise fun a b => a.child ≠ b.child ∧ a.rank < b.rank ∧
    firstLink calls h a.child < firstLink calls h b.child
  rank_lt : ∀ l ∈ n.links, l.rank < count

end Node

namespace Graph

theorem links_iff {c : Call} {parent child : Handle} :
    c.links parent child = true ↔ ∃ seq, c = .link parent child seq := by
  cases c <;> simp [Call.links]

theorem firstLink_lt {calls : List Call} {parent child : Handle} {seq : Int}
    (h : .link parent child seq ∈ calls) : firstLink calls parent child < calls.length :=
  List.findIdx_lt_length_of_exists ⟨_, h, links_iff.2 ⟨seq, rfl⟩⟩

/-- Later calls do not move the first one. -/
theorem firstLink_append {calls : List Call} {parent child : Handle} {seq : Int}
    (h : .link parent child seq ∈ calls) (more : List Call) :
    firstLink (calls ++ more) parent child = firstLink calls parent child := by
  have hlt := firstLink_lt h
  unfold firstLink at hlt ⊢
  rw [List.findIdx_append, if_pos hlt]

theorem firstLink_new {calls : List Call} {parent child : Handle}
    (h : ∀ seq, .link parent child seq ∉ calls) (seq : Int) :
    firstLink (calls ++ [.link parent child seq]) parent child = calls.length := by
  have hnone : calls.findIdx (Call.links parent child) = calls.length := by
    refine List.findIdx_eq_length_of_false fun c hc => ?_
    rw [← Bool.not_eq_true, links_iff]
    rintro ⟨q, rfl⟩
    exact h q hc
  have hnew : Call.links parent child (.link parent child seq) = true := links_iff.2 ⟨seq, rfl⟩
  unfold firstLink
  rw [List.findIdx_append, hnone, if_neg (Nat.lt_irrefl _), List.findIdx_singleton, if_pos hnew,
    Nat.zero_add]

theorem numbers_concat {calls : List Call} {parent child : Handle} {c : Call}
    (h : ∀ seq, c ≠ .link parent child seq) :
    numbers (calls ++ [c]) parent child = numbers calls parent child := by
  ext seq
  change _ ∈ calls ++ [c] ↔ _ ∈ calls
  rw [List.mem_append, List.mem_singleton]
  exact or_iff_left fun heq => h seq heq.symm

theorem isLeast_numbers_concat {calls : List Call} {parent child : Handle} {q : Int}
    (h : IsLeast (numbers calls parent child) q) (seq : Int) :
    IsLeast (numbers (calls ++ [.link parent child seq]) parent child) (min seq q) := by
  constructor
  · rcases min_choice seq q with hnew | hold
    · rw [hnew]
      exact List.mem_append_right _ List.mem_cons_self
    · rw [hold]
      exact List.mem_append_left _ h.1
  · intro p hp
    rcases List.mem_append.1 hp with hp | hp
    · exact Int.le_trans (Int.min_le_right _ _) (h.2 hp)
    · cases List.mem_singleton.1 hp
      exact Int.min_le_left _ _

end Graph

namespace Node.Linked

variable {calls : List Call} {h : Handle} {count count' : Nat} {n : Node}

theorem firstLink_append (hn : n.Linked calls h count) {l : Link} (hl : l ∈ n.links)
    (more : List Call) :
    firstLink (calls ++ more) h l.child = firstLink calls h l.child := by
  obtain ⟨seq, hseq⟩ := (hn.child l.child).1 ⟨l, hl, rfl⟩
  exact Graph.firstLink_append hseq more

theorem firstLink_lt (hn : n.Linked calls h count) {l : Link} (hl : l ∈ n.links) :
    firstLink calls h l.child < calls.length := by
  obtain ⟨seq, hseq⟩ := (hn.child l.child).1 ⟨l, hl, rfl⟩
  exact Graph.firstLink_lt hseq

/-- Edges in their order keep it when further calls come. -/
theorem ranked_append (hn : n.Linked calls h count) (more : List Call) :
    n.links.Pairwise fun a b => a.child ≠ b.child ∧ a.rank < b.rank ∧
      firstLink (calls ++ more) h a.child < firstLink (calls ++ more) h b.child := by
  refine hn.ranked.imp_of_mem fun ha hb hab => ?_
  rw [hn.firstLink_append ha, hn.firstLink_append hb]
  exact hab

/-- A call that is no edge of this node leaves its edges. -/
theorem other (hn : n.Linked calls h count) {c : Call} (hc : ∀ child seq, c ≠ .link h child seq)
    (hcount : count ≤ count') : n.Linked (calls ++ [c]) h count' := by
  refine ⟨fun child => ?_, fun l hl => ?_, hn.ranked_append _, fun l hl => ?_⟩
  · rw [hn.child]
    refine exists_congr fun seq => ?_
    rw [List.mem_append, List.mem_singleton]
    exact (or_iff_left fun heq => hc child seq heq.symm).symm
  · rw [numbers_concat (hc l.child)]
    exact hn.least l hl
  · exact Nat.lt_of_lt_of_le (hn.rank_lt l hl) hcount

theorem of_no_links (hlinks : n.links = []) (hcalls : ∀ c seq, .link h c seq ∉ calls) :
    n.Linked calls h count := by
  refine ⟨fun c => ?_, ?_, ?_, ?_⟩ <;> rw [hlinks]
  · exact ⟨fun ⟨_, hl, _⟩ => absurd hl List.not_mem_nil, fun ⟨seq, hc⟩ => absurd hc (hcalls c seq)⟩
  · exact fun _ hl => absurd hl List.not_mem_nil
  · exact .nil
  · exact fun _ hl => absurd hl List.not_mem_nil

theorem child_concat (hn : n.Linked calls h count) (child : Handle) (seq : Int) (rank : Nat)
    (c : Handle) : (∃ l ∈ (n.link child seq rank).links, l.child = c) ↔
      ∃ q, .link h c q ∈ calls ++ [.link h child seq] := by
  rw [← mem_children, mem_children_link, mem_children, hn.child]
  simp only [List.mem_append, List.mem_singleton, exists_or, Call.link.injEq, true_and,
    exists_and_left, exists_eq, and_true]

/-- An edge that is there takes the smaller number and keeps its rank. -/
theorem known (hn : n.Linked calls h count) {child : Handle} (seq : Int)
    (hknown : n.links.any (fun l => l.child = child) = true) :
    (n.link child seq count).Linked (calls ++ [.link h child seq]) h count := by
  have hlinks : (n.link child seq count).links = n.links.map fun l =>
      if l.child = child ∧ seq < l.seq then { l with seq := seq } else l := by
    rw [Node.link, if_pos hknown]
  refine ⟨hn.child_concat child seq count, ?_, ?_, ?_⟩ <;> rw [hlinks]
  · intro l' hl'
    obtain ⟨l, hl, rfl⟩ := List.mem_map.1 hl'
    have hleast := hn.least l hl
    by_cases hchild : l.child = child
    · subst hchild
      have hmin := isLeast_numbers_concat hleast seq
      split
      · rename_i hlt
        rwa [min_eq_left (Int.le_of_lt hlt.2)] at hmin
      · rename_i hge
        rwa [min_eq_right (Int.not_lt.1 fun hlt => hge ⟨rfl, hlt⟩)] at hmin
    · rw [if_neg fun h => hchild h.1, numbers_concat]
      · exact hleast
      · exact fun q hq => hchild (Call.link.inj hq).2.1.symm
  · rw [List.pairwise_map]
    refine (hn.ranked_append [.link h child seq]).imp fun {a b} hab => ?_
    split <;> split <;> exact hab
  · intro l' hl'
    obtain ⟨l, hl, rfl⟩ := List.mem_map.1 hl'
    split <;> exact hn.rank_lt l hl

/-- A new edge comes last and takes the next rank. -/
theorem fresh (hn : n.Linked calls h count) {child : Handle} (seq : Int)
    (hnew : ¬n.links.any (fun l => l.child = child) = true) :
    (n.link child seq count).Linked (calls ++ [.link h child seq]) h (count + 1) := by
  have hlinks : (n.link child seq count).links = n.links ++ [⟨child, seq, count⟩] := by
    rw [Node.link, if_neg hnew]
  have hother : ∀ l ∈ n.links, l.child ≠ child := by
    intro l hl heq
    exact hnew (List.any_eq_true.2 ⟨l, hl, decide_eq_true heq⟩)
  have hcalls : ∀ q, .link h child q ∉ calls := by
    intro q hq
    obtain ⟨l, hl, heq⟩ := (hn.child child).2 ⟨q, hq⟩
    exact hother l hl heq
  refine ⟨hn.child_concat child seq count, ?_, ?_, ?_⟩ <;> rw [hlinks]
  · intro l hl
    rcases List.mem_append.1 hl with hl | hl
    · rw [numbers_concat]
      · exact hn.least l hl
      · exact fun q hq => hother l hl (Call.link.inj hq).2.1.symm
    · cases List.mem_singleton.1 hl
      refine ⟨List.mem_append_right _ List.mem_cons_self, fun q hq => ?_⟩
      rcases List.mem_append.1 hq with hq | hq
      · exact absurd hq (hcalls q)
      · cases List.mem_singleton.1 hq
        exact Int.le_refl _
  · refine List.pairwise_append.2 ⟨hn.ranked_append _, List.pairwise_singleton _ _, ?_⟩
    intro l hl new hmem
    rw [List.mem_singleton.1 hmem]
    refine ⟨hother l hl, hn.rank_lt l hl, ?_⟩
    rw [firstLink_new hcalls, hn.firstLink_append hl]
    exact hn.firstLink_lt hl
  · intro l hl
    rcases List.mem_append.1 hl with hl | hl
    · exact Nat.lt_succ_of_lt (hn.rank_lt l hl)
    · rw [List.mem_singleton.1 hl]
      exact Nat.lt_succ_self count

theorem nodup_children (hn : n.Linked calls h count) : n.children.Nodup := by
  have hlinks : (n.links.map Link.child).Nodup :=
    List.pairwise_map.2 (hn.ranked.imp fun hab => hab.1)
  exact ((List.mergeSort_perm n.links _).map Link.child).nodup_iff.2 hlinks

theorem mem_children (hn : n.Linked calls h count) {c : Handle} :
    c ∈ n.children ↔ ∃ seq, .link h c seq ∈ calls := by
  rw [Node.mem_children, hn.child]

/-- Ranks tell the order of the first calls, so that sorting by number and rank is sorting by number
and first call. -/
theorem pairwise_children (hn : n.Linked calls h count) :
    n.children.Pairwise (Precedes calls h) := by
  have hapart : n.links.Pairwise fun a b =>
      (a.rank < b.rank ∧ firstLink calls h a.child < firstLink calls h b.child) ∨
        (b.rank < a.rank ∧ firstLink calls h b.child < firstLink calls h a.child) :=
    hn.ranked.imp fun hab => .inl hab.2
  have hsorted := @List.pairwise_mergeSort Link
    (fun a b => a.seq < b.seq || (a.seq == b.seq && a.rank ≤ b.rank))
    (by
      intro a b c hab hbc
      simp only [Bool.or_eq_true, Bool.and_eq_true, decide_eq_true_eq, beq_iff_eq] at hab hbc ⊢
      omega)
    (by
      intro a b
      simp only [Bool.or_eq_true, Bool.and_eq_true, decide_eq_true_eq, beq_iff_eq]
      omega) n.links
  have hperm := List.mergeSort_perm n.links fun a b =>
    a.seq < b.seq || (a.seq == b.seq && a.rank ≤ b.rank)
  have hboth := hsorted.and ((hperm.pairwise_iff fun hab => hab.symm).2 hapart)
  refine List.pairwise_map.2 (hboth.imp_of_mem fun {a b} ha hb hab => ?_)
  obtain ⟨hle, hfirst⟩ := hab
  simp only [Bool.or_eq_true, Bool.and_eq_true, decide_eq_true_eq, beq_iff_eq] at hle
  refine ⟨a.seq, b.seq, hn.least a (List.mem_mergeSort.1 ha), hn.least b (List.mem_mergeSort.1 hb),
    ?_⟩
  rcases hle with hlt | ⟨heq, hrank⟩
  · exact .inl hlt
  · refine .inr ⟨heq, ?_⟩
    rcases hfirst with hfirst | hfirst
    · exact hfirst.2
    · exact absurd hfirst.1 (Nat.not_lt.2 hrank)

end Node.Linked

namespace Graph

variable {r : Registry} {calls : List Call} {g g' : Graph}

theorem link_natCast {n : Nat} {node : Node} {child : Handle} {seq : Int}
    (hnode : g.nodes[n]? = some node) (hl : g.link n child seq = .ok g') :
    g' = ⟨g.nodes.modify n fun o => o.link child seq g.edgeCount,
      if node.links.any (fun l => l.child = child) then g.edgeCount else g.edgeCount + 1⟩ := by
  unfold link at hl
  rw [node?_natCast, hnode, place_natCast] at hl
  cases hl
  cases node.links.any fun l => l.child = child <;> rfl

namespace Call

def given? : Call → Option (Step × Handle)
  | intern s _ h => some (s, h)
  | link .. => none

end Call

namespace Follows

theorem takes (h : Follows r calls g) : Takes r empty (calls.filterMap Call.given?) g := by
  induction h with
  | nil => exact .nil
  | intern _ hi ih =>
    rw [List.filterMap_append]
    exact ih.step hi
  | link _ _ _ hl ih =>
    rw [List.filterMap_append, List.filterMap_cons_none rfl, List.filterMap_nil, List.append_nil]
    exact ih.edge hl

theorem mem_given {s : Step} {seq : Int} {i : Handle} (hmem : .intern s seq i ∈ calls) :
    (s, i) ∈ calls.filterMap Call.given? :=
  List.mem_filterMap.2 ⟨_, hmem, rfl⟩

theorem placed (h : Follows r calls g) {s : Step} {seq : Int} {i : Handle}
    (hmem : .intern s seq i ∈ calls) : ∃ k, s.nodeKey r = .ok k ∧ g.At i k :=
  h.takes.collected.placed _ (mem_given hmem)

theorem exists_node (h : Follows r calls g) {i : Handle} (hi : Given calls i) :
    ∃ (n : Nat) (node : Node), i = n ∧ g.nodes[n]? = some node := by
  obtain ⟨s, seq, hmem⟩ := hi
  obtain ⟨k, -, n, rfl, hn⟩ := h.placed hmem
  obtain ⟨node, hnode, -⟩ := getElem?_keys.1 hn
  exact ⟨n, node, rfl, hnode⟩

theorem given_parent (h : Follows r calls g) {parent child : Handle} {seq : Int}
    (hmem : .link parent child seq ∈ calls) : Given calls parent := by
  have hmono : ∀ {calls : List Call} {i : Handle} (c : Call), Given calls i →
      Given (calls ++ [c]) i := by
    rintro calls i c ⟨s, q, hi⟩
    exact ⟨s, q, List.mem_append_left _ hi⟩
  induction h with
  | nil => exact absurd hmem List.not_mem_nil
  | intern _ _ ih =>
    rcases List.mem_append.1 hmem with hmem | hmem
    · exact hmono _ (ih hmem)
    · cases List.mem_singleton.1 hmem
  | link _ hparent _ _ ih =>
    rcases List.mem_append.1 hmem with hmem | hmem
    · exact hmono _ (ih hmem)
    · cases List.mem_singleton.1 hmem
      exact hmono _ hparent

/-- No call has the handle of the node that would come next. -/
theorem not_given_size (h : Follows r calls g) : ¬Given calls (g.nodes.length : Handle) := by
  intro hi
  obtain ⟨n, node, heq, hnode⟩ := h.exists_node hi
  exact absurd (lt_length_of_getElem? hnode) (Nat.not_lt.2 (Int.natCast_inj.1 heq).le)

end Follows

theorem meetings_concat (calls : List Call) (c : Call) (h : Handle) :
    meetings (calls ++ [c]) h = meetings calls h ++ (c.met? h).toList := by
  unfold meetings
  rw [List.filterMap_append]
  cases hmet : c.met? h with
  | none => rw [List.filterMap_cons_none hmet]; rfl
  | some m => rw [List.filterMap_cons_some hmet]; rfl

theorem meetings_eq_nil {h : Handle} (hnew : ¬Given calls h) : meetings calls h = [] := by
  refine List.filterMap_eq_nil_iff.2 fun c hc => ?_
  cases c with
  | link => rfl
  | intern s seq i =>
    refine if_neg fun heq => hnew ?_
    subst heq
    exact ⟨s, seq, hc⟩

theorem keysOf_intern {s : Step} {k : NodeKey} (hk : s.nodeKey r = .ok k) (calls : List Call)
    (seq : Int) (h : Handle) : keysOf r (calls ++ [.intern s seq h]) = keysOf r calls ++ [k] := by
  have hkey : Call.key? r (.intern s seq h) = some k := by
    rw [Call.key?, hk]
    rfl
  unfold keysOf
  rw [List.filterMap_append, List.filterMap_cons_some hkey]
  rfl

theorem keysOf_link (r : Registry) (calls : List Call) (parent child : Handle) (seq : Int) :
    keysOf r (calls ++ [.link parent child seq]) = keysOf r calls := by
  unfold keysOf
  rw [List.filterMap_append, List.filterMap_cons_none rfl, List.filterMap_nil, List.append_nil]

end Graph

/-- A node at a handle that has kept up with the calls. -/
structure Node.Tracked (calls : List Call) (h : Handle) (count : Nat) (n : Node) : Prop where
  component : n.component = n.key.component
  recalls : n.Recalls (meetings calls h)
  linked : n.Linked calls h count

namespace Node.Tracked

variable {calls : List Call} {h : Handle} {count : Nat} {n : Node} {r : Registry} {s : Step}

theorem meet (hn : n.Tracked calls h count) (seq : Int) (hk : s.nodeKey r = .ok n.key)
    (hkind : n.kind = n.key.kind) :
    (n.meet s seq).Tracked (calls ++ [.intern s seq h]) h count := by
  have hmet : Call.met? h (.intern s seq h) = some (s, seq) := if_pos rfl
  have hlinked := hn.linked.other (c := .intern s seq h) (fun _ _ => nofun) (Nat.le_refl count)
  refine ⟨hn.component, ?_, ⟨hlinked.child, hlinked.least, hlinked.ranked, hlinked.rank_lt⟩⟩
  rw [meetings_concat, hmet]
  exact hn.recalls.meet seq hk hkind hn.component

theorem other_step (hn : n.Tracked calls h count) {i : Handle} (hi : i ≠ h) (s : Step) (seq : Int) :
    n.Tracked (calls ++ [.intern s seq i]) h count := by
  have hmet : Call.met? h (.intern s seq i) = none := if_neg hi
  refine ⟨hn.component, ?_, hn.linked.other (fun _ _ => nofun) (Nat.le_refl count)⟩
  rw [meetings_concat, hmet, Option.toList_none, List.append_nil]
  exact hn.recalls

theorem of_begins {seq : Int} (hn : n.Begins r s seq) (hk : s.nodeKey r = .ok n.key)
    (hgiven : ¬Given calls h) (hlinks : ∀ c q, .link h c q ∉ calls) :
    n.Tracked (calls ++ [.intern s seq h]) h count := by
  have hmet : Call.met? h (.intern s seq h) = some (s, seq) := if_pos rfl
  refine ⟨?_, ?_, .of_no_links hn.links fun c q hc => ?_⟩
  · exact Except.ok.inj (hn.component.symm.trans (Step.component_nodeKey hk))
  · rw [meetings_concat, meetings_eq_nil hgiven, hmet]
    exact hn.recalls
  · rcases List.mem_append.1 hc with hc | hc
    · exact hlinks c q hc
    · cases List.mem_singleton.1 hc

theorem link (hn : n.Tracked calls h count) (child : Handle) (seq : Int) :
    (n.link child seq count).Tracked (calls ++ [.link h child seq]) h
      (if n.links.any (fun l => l.child = child) then count else count + 1) := by
  refine ⟨?_, ?_, ?_⟩
  · have hcomponent := hn.component
    unfold Node.link
    split <;> exact hcomponent
  · have hrecalls := hn.recalls
    rw [meetings_concat, Call.met?, Option.toList_none, List.append_nil]
    unfold Node.link
    split <;> exact ⟨hrecalls.worst, hrecalls.rank_le, hrecalls.seq, hrecalls.marker,
      hrecalls.contract, hrecalls.named⟩
  · split
    · rename_i hknown
      exact hn.linked.known seq hknown
    · rename_i hnew
      exact hn.linked.fresh seq hnew

theorem other_edge (hn : n.Tracked calls h count) {parent : Handle} (hparent : parent ≠ h)
    (child : Handle) (seq : Int) {count' : Nat} (hcount : count ≤ count') :
    n.Tracked (calls ++ [.link parent child seq]) h count' := by
  refine ⟨hn.component, ?_, hn.linked.other (fun c q heq => ?_) hcount⟩
  · rw [meetings_concat, Call.met?, Option.toList_none, List.append_nil]
    exact hn.recalls
  · exact hparent (Call.link.inj heq).1

end Node.Tracked

namespace Graph

variable {r : Registry} {calls : List Call} {g g' : Graph} {s : Step} {seq : Int}

/-- A graph that has kept up with the calls: its keys in the order of their first steps, and its
nodes. -/
structure Tracks (r : Registry) (calls : List Call) (g : Graph) : Prop where
  keys : g.keys = (keysOf r calls).eraseDups
  nodes : ∀ (n : Nat) (node : Node), g.nodes[n]? = some node → node.Tracked calls n g.edgeCount

theorem tracks_empty (r : Registry) : empty.Tracks r [] :=
  ⟨rfl, fun n node hn => by simp [empty] at hn⟩

/-- A step that finds its node meets it, and leaves every other node. -/
theorem Tracks.known {i : Nat} {n : Node} (ht : g.Tracks r calls) (hg : g.Sound)
    (hn : g.nodes[i]? = some n) (hk : s.nodeKey r = .ok n.key) :
    Tracks r (calls ++ [.intern s seq i])
      ⟨g.nodes.modify i fun n => n.meet s seq, g.edgeCount⟩ := by
  obtain ⟨-, hkeys⟩ := hg.modify i g.edgeCount (f := fun n => n.meet s seq)
    (fun _ => rfl) (fun _ => rfl)
  have hmem : n.key ∈ keysOf r calls := by
    rw [← List.mem_eraseDups, ← ht.keys]
    exact List.mem_map_of_mem (List.mem_of_getElem? hn)
  refine ⟨?_, fun j o hj => ?_⟩
  · have hremoved : [n.key].removeAll (keysOf r calls) = [] := by
      simpa [List.removeAll] using hmem
    rw [hkeys, keysOf_intern hk, List.eraseDups_append, ← ht.keys, hremoved, List.eraseDups_nil,
      List.append_nil]
  · rcases getElem?_modified hj with ⟨rfl, m, hm, rfl⟩ | ⟨hne, hold⟩
    · rw [hn] at hm
      cases hm
      exact (ht.nodes j n hn).meet seq hk (hg.kinds n (List.mem_of_getElem? hn))
    · exact (ht.nodes j o hold).other_step (fun h => hne (Int.natCast_inj.1 h).symm) s seq

/-- A step of a new key puts its node last. -/
theorem Tracks.fresh {n : Node} (ht : g.Tracks r calls) (hf : Follows r calls g)
    (hnew : ∀ o ∈ g.nodes, o.key ≠ n.key) (hk : s.nodeKey r = .ok n.key)
    (hbegins : n.Begins r s seq) :
    Tracks r (calls ++ [.intern s seq (g.nodes.length : Handle)])
      ⟨g.nodes ++ [n], g.edgeCount⟩ := by
  have hmem : n.key ∉ keysOf r calls := by
    rw [← List.mem_eraseDups, ← ht.keys]
    intro hkey
    obtain ⟨o, ho, heq⟩ := List.mem_map.1 hkey
    exact hnew o ho heq
  refine ⟨?_, fun j o hj => ?_⟩
  · have hkeys : Graph.keys ⟨g.nodes ++ [n], g.edgeCount⟩ = g.keys ++ [n.key] := List.map_append
    have hremoved : [n.key].removeAll (keysOf r calls) = [n.key] := by
      simpa [List.removeAll] using hmem
    rw [hkeys, keysOf_intern hk, List.eraseDups_append, ← ht.keys, hremoved]
    rfl
  · rcases getElem?_concat hj with hold | ⟨rfl, rfl⟩
    · refine (ht.nodes j o hold).other_step (fun h => ?_) s seq
      exact Nat.ne_of_gt (lt_length_of_getElem? hold) (Int.natCast_inj.1 h)
    · exact .of_begins hbegins hk hf.not_given_size
        fun c q hc => hf.not_given_size (hf.given_parent hc)

/-- An edge changes only its parent. -/
theorem Tracks.link {parent : Nat} {node : Node} {child : Handle} (ht : g.Tracks r calls)
    (hg : g.Sound) (hnode : g.nodes[parent]? = some node) (hl : g.link parent child seq = .ok g') :
    g'.Tracks r (calls ++ [.link parent child seq]) := by
  rw [link_natCast hnode hl]
  obtain ⟨-, hkeys⟩ := hg.modify parent
    (if node.links.any (fun l => l.child = child) then g.edgeCount else g.edgeCount + 1)
    (f := fun n => n.link child seq g.edgeCount)
    (fun n => n.key_link child seq _) (fun n => n.kind_link child seq _)
  refine ⟨?_, fun j o hj => ?_⟩
  · rw [hkeys, keysOf_link]
    exact ht.keys
  · rcases getElem?_modified hj with ⟨rfl, m, hm, rfl⟩ | ⟨hne, hold⟩
    · rw [hnode] at hm
      cases hm
      exact (ht.nodes j node hnode).link child seq
    · refine (ht.nodes j o hold).other_edge (fun h => hne (Int.natCast_inj.1 h).symm) child seq ?_
      dsimp only
      split <;> omega

theorem Follows.tracks (h : Follows r calls g) : g.Tracks r calls := by
  induction h with
  | nil => exact tracks_empty r
  | intern hf hi ih =>
    obtain ⟨k, hk, ⟨i, n, rfl, hn, rfl, rfl⟩ | ⟨hnew, rfl, n, rfl, rfl, hbegins⟩⟩ := intern_cases hi
    · exact ih.known hf.takes.collected.sound hn hk
    · exact ih.fresh hf hnew hk hbegins
  | link hf hparent _ hl ih =>
    obtain ⟨n, node, rfl, hnode⟩ := hf.exists_node hparent
    exact ih.link hf.takes.collected.sound hnode hl

/-- A graph that can be read off its calls. -/
structure Reflects (r : Registry) (calls : List Call) (g : Graph) : Prop where
  keys : g.keys = (keysOf r calls).eraseDups
  handles : ∀ s seq h, .intern s seq h ∈ calls → ∃ k, s.nodeKey r = .ok k ∧ g.At h k
  shared : ∀ s seq h t seq' i, .intern s seq h ∈ calls → .intern t seq' i ∈ calls →
    (h = i ↔ s.nodeKey r = t.nodeKey r)
  nodes : ∀ (n : Nat) (node : Node), g.nodes[n]? = some node → node.Recalls (meetings calls n)
  nodup : ∀ n : Nat, (g.children n).Nodup
  children : ∀ (n : Nat) (c : Handle), c ∈ g.children n ↔ ∃ seq, .link n c seq ∈ calls
  ordered : ∀ n : Nat, (g.children n).Pairwise (Precedes calls n)

/-- Whatever calls are made and in whatever order, the graph tells of them all: its handles number
the keys by their first steps, its nodes gather what met in them, and the children of a node are
those linked to it, by their least numbers and then by their first calls. -/
theorem Follows.reflects (h : Follows r calls g) : g.Reflects r calls := by
  have ht := h.tracks
  have hnone : ∀ {n : Nat}, g.nodes[n]? = none → g.children n = [] := by
    intro n hn
    rw [Graph.children, node?_natCast, hn]
    rfl
  have hsome : ∀ {n : Nat} {node : Node}, g.nodes[n]? = some node →
      g.children n = node.children := by
    intro n node hn
    rw [Graph.children, node?_natCast, hn]
    rfl
  refine ⟨ht.keys, fun s seq i hi => h.placed hi, ?_,
    fun n node hn => (ht.nodes n node hn).recalls, fun n => ?_, fun n c => ?_,
    fun n => ?_⟩
  · intro s seq i t seq' j hi hj
    exact h.takes.collected.handle_eq_iff (mem_given hi) (mem_given hj)
  · cases hn : g.nodes[n]? with
    | none => rw [hnone hn]; exact .nil
    | some node => rw [hsome hn]; exact (ht.nodes n node hn).linked.nodup_children
  · cases hn : g.nodes[n]? with
    | some node => rw [hsome hn]; exact (ht.nodes n node hn).linked.mem_children
    | none =>
      rw [hnone hn]
      refine ⟨fun hc => absurd hc List.not_mem_nil, ?_⟩
      rintro ⟨seq, hc⟩
      obtain ⟨m, node, heq, hnode⟩ := h.exists_node (h.given_parent hc)
      cases Int.natCast_inj.1 heq
      cases hn.symm.trans hnode
  · cases hn : g.nodes[n]? with
    | none => rw [hnone hn]; exact .nil
    | some node => rw [hsome hn]; exact (ht.nodes n node hn).linked.pairwise_children

/-- A consumer that two diagnostics name in part, with two requirements below it. The edge to the
second one comes with the smaller number until the edge to the first one is written again. -/
def areaCalls : List Call :=
  [.intern (Step.consumerUse "App" "AreaComponent") 5 0,
    .intern { Step.check "App" "HasArea" with status := .unsatisfied } 5 1,
    .intern { Step.getter "App" "HasName" with status := .satisfied } 4 2,
    .link 0 1 5,
    .link 0 2 4,
    .intern { Step.consumerUse "App" "AreaComponent" with
      contract := some "CanCalculateArea", status := .unsatisfied } 3 0,
    .link 0 1 3]

theorem reflects_area : ∃ g, Follows .empty areaCalls g ∧ g.Reflects .empty areaCalls ∧
    g.children 0 = [1, 2] := by
  obtain ⟨a, b, c, d, e, f, g, ha, hb, hc, hd, he, hf, hg, hchildren⟩ : ∃ a b c d e f g,
      empty.intern .empty (Step.consumerUse "App" "AreaComponent") 5 = .ok (a, 0) ∧
      a.intern .empty { Step.check "App" "HasArea" with status := .unsatisfied } 5 = .ok (b, 1) ∧
      b.intern .empty { Step.getter "App" "HasName" with status := .satisfied } 4 = .ok (c, 2) ∧
      c.link 0 1 5 = .ok d ∧ d.link 0 2 4 = .ok e ∧
      e.intern .empty { Step.consumerUse "App" "AreaComponent" with
        contract := some "CanCalculateArea", status := .unsatisfied } 3 = .ok (f, 0) ∧
      f.link 0 1 3 = .ok g ∧ g.children 0 = [1, 2] :=
    ⟨_, _, _, _, _, _, _, rfl, rfl, rfl, rfl, rfl, rfl, rfl, by cbv⟩
  have hfollows : Follows .empty areaCalls g :=
    ((((((Follows.nil.intern ha).intern hb).intern hc).link ⟨_, _, .head _⟩
      ⟨_, _, .tail _ (.head _)⟩ hd).link ⟨_, _, .head _⟩
      ⟨_, _, .tail _ (.tail _ (.head _))⟩ he).intern hf).link ⟨_, _, .head _⟩
      ⟨_, _, .tail _ (.head _)⟩ hg
  exact ⟨g, hfollows, hfollows.reflects, hchildren⟩

end Graph

end TraitTrace
