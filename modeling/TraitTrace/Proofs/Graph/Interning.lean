import Mathlib.Data.List.Nodup
import TraitTrace.Graph.Basic
import TraitTrace.Proofs.Chain.Growth
import TraitTrace.Proofs.Places

/-! Interning. A step finds the node of its key or puts one at the end, and an edge only adds a
child to its parent, so that handles keep their keys for good and no two nodes have one key. -/

namespace TraitTrace

/-- The role of a requirement, by its key. -/
def NodeKey.kind : NodeKey → StepKind
  | check .. => .check
  | getter .. => .getter
  | consumer .. => .consumer
  | provider .. => .provider
  | field .. => .field

namespace Step

theorem exists_nodeKey {s : Step} (r : Registry) (h : s.IsNamed) : ∃ k, s.nodeKey r = .ok k := by
  unfold IsNamed at h
  unfold nodeKey component
  cases hk : s.kind with
  | check => exact ⟨_, rfl⟩
  | getter => exact ⟨_, rfl⟩
  | field => exact ⟨_, rfl⟩
  | provider => cases s.marker <;> exact ⟨_, rfl⟩
  | consumer =>
    cases hm : s.marker with
    | some marker => exact ⟨_, rfl⟩
    | none =>
      cases hc : s.contract with
      | some contract => exact ⟨_, rfl⟩
      | none => exact absurd (h hk) (by simp [hm, hc])

theorem kind_nodeKey {s : Step} {r : Registry} {k : NodeKey} (h : s.nodeKey r = .ok k) :
    k.kind = s.kind := by
  unfold nodeKey at h
  split at h <;> rename_i hs
  · cases h
    exact hs.symm
  · cases h
    exact hs.symm
  · obtain ⟨c, -, rfl⟩ := map_ok.1 h
    exact hs.symm
  · obtain ⟨c, -, rfl⟩ := map_ok.1 h
    exact hs.symm
  · cases h
    exact hs.symm

theorem exists_component {s : Step} {r : Registry} {k : NodeKey} (h : s.nodeKey r = .ok k) :
    ∃ c, s.component r = .ok c := by
  unfold nodeKey at h
  split at h <;> rename_i hs
  · exact ⟨none, by simp [component, hs]⟩
  · exact ⟨none, by simp [component, hs]⟩
  · obtain ⟨c, hc, -⟩ := map_ok.1 h
    exact ⟨c, hc⟩
  · obtain ⟨c, hc, -⟩ := map_ok.1 h
    exact ⟨c, hc⟩
  · exact ⟨none, by simp [component, hs]⟩

end Step

namespace Node

theorem mem_children {n : Node} {c : Handle} : c ∈ n.children ↔ ∃ l ∈ n.links, l.child = c := by
  unfold children
  rw [List.mem_map]
  constructor <;> rintro ⟨l, hl, rfl⟩
  · exact ⟨l, List.mem_mergeSort.1 hl, rfl⟩
  · exact ⟨l, List.mem_mergeSort.2 hl, rfl⟩

theorem key_link (n : Node) (child : Handle) (seq : Int) (rank : Nat) :
    (n.link child seq rank).key = n.key := by
  unfold link
  split <;> rfl

theorem kind_link (n : Node) (child : Handle) (seq : Int) (rank : Nat) :
    (n.link child seq rank).kind = n.kind := by
  unfold link
  split <;> rfl

theorem mem_children_link {n : Node} {child c : Handle} {seq : Int} {rank : Nat} :
    c ∈ (n.link child seq rank).children ↔ c ∈ n.children ∨ c = child := by
  simp only [mem_children]
  unfold link
  split
  · rename_i hknown
    obtain ⟨known, hmem, hchild⟩ := List.any_eq_true.1 hknown
    constructor
    · rintro ⟨l, hl, rfl⟩
      obtain ⟨l', hl', rfl⟩ := List.mem_map.1 hl
      refine .inl ⟨l', hl', ?_⟩
      split <;> rfl
    · intro h
      have hold : ∃ l ∈ n.links, l.child = c := by
        rcases h with h | rfl
        · exact h
        · exact ⟨known, hmem, of_decide_eq_true hchild⟩
      obtain ⟨l, hl, rfl⟩ := hold
      refine ⟨_, List.mem_map_of_mem hl, ?_⟩
      split <;> rfl
  · constructor
    · rintro ⟨l, hl, rfl⟩
      rcases List.mem_append.1 hl with hl | hl
      · exact .inl ⟨l, hl, rfl⟩
      · rw [List.mem_singleton.1 hl]
        exact .inr rfl
    · rintro (⟨l, hl, rfl⟩ | rfl)
      · exact ⟨l, List.mem_append_left _ hl, rfl⟩
      · exact ⟨_, List.mem_append_right _ (List.mem_singleton.2 rfl), rfl⟩

end Node

namespace Graph

theorem place_natCast (size n : Nat) : place size (n : Handle) = n := by
  unfold place
  rw [if_pos (Int.natCast_nonneg n), Int.toNat_natCast]

theorem node?_natCast (g : Graph) (n : Nat) : g.node? (n : Handle) = g.nodes[n]? := by
  rw [node?, place_natCast]

theorem getElem?_keys {g : Graph} {n : Nat} {k : NodeKey} :
    g.keys[n]? = some k ↔ ∃ node, g.nodes[n]? = some node ∧ node.key = k := by
  rw [keys, List.getElem?_map, Option.map_eq_some_iff]

theorem length_keys (g : Graph) : g.keys.length = g.size := List.length_map _

theorem mem_children {g : Graph} {n : Nat} {c : Handle} :
    c ∈ g.children (n : Handle) ↔ ∃ node, g.nodes[n]? = some node ∧ c ∈ node.children := by
  rw [children, node?_natCast]
  cases g.nodes[n]? with
  | none => simp
  | some node => simp

/-- A handle addresses the node of a key. -/
def At (g : Graph) (h : Handle) (k : NodeKey) : Prop := ∃ n : Nat, h = n ∧ g.keys[n]? = some k

/-- No two nodes have one key, and the role of a node is that of its key. -/
structure Sound (g : Graph) : Prop where
  nodup : g.keys.Nodup
  kinds : ∀ n ∈ g.nodes, n.kind = n.key.kind

theorem sound_empty : empty.Sound := ⟨.nil, by simp [empty]⟩

theorem Sound.handle_unique {g : Graph} (hg : g.Sound) {h h' : Handle} {k : NodeKey}
    (hh : g.At h k) (hh' : g.At h' k) : h = h' := by
  obtain ⟨n, rfl, hn⟩ := hh
  obtain ⟨m, rfl, hm⟩ := hh'
  have hlt := lt_length_of_getElem? hn
  rw [(List.getElem?_inj hlt hg.nodup).1 (hn.trans hm.symm)]

theorem At.key_unique {g : Graph} {h : Handle} {k k' : NodeKey} (hk : g.At h k)
    (hk' : g.At h k') : k = k' := by
  obtain ⟨n, rfl, hn⟩ := hk
  obtain ⟨m, hm, hm'⟩ := hk'
  cases Int.natCast_inj.1 hm
  exact Option.some.inj (hn.symm.trans hm')

theorem Sound.isCheck_iff {g : Graph} (hg : g.Sound) {h : Handle} {k : NodeKey} (hh : g.At h k) :
    g.isCheck h = true ↔ k.kind = .check := by
  obtain ⟨n, rfl, hn⟩ := hh
  obtain ⟨node, hnode, rfl⟩ := getElem?_keys.1 hn
  rw [isCheck, node?_natCast, hnode, Option.any_some, decide_eq_true_eq,
    hg.kinds node (List.mem_of_getElem? hnode)]

/-- A graph with further nodes at its end and some further edges. -/
structure Extends (g g' : Graph) (edges : List (Handle × Handle)) : Prop where
  keys : g.keys <+: g'.keys
  children : ∀ (n : Nat) (c : Handle),
    c ∈ g'.children n ↔ c ∈ g.children n ∨ ((n : Handle), c) ∈ edges

theorem Extends.refl (g : Graph) : g.Extends g [] := ⟨List.prefix_rfl, by simp⟩

theorem Extends.trans {g g' g'' : Graph} {old new all : List (Handle × Handle)}
    (h : g.Extends g' old) (h' : g'.Extends g'' new)
    (hall : ∀ e, e ∈ all ↔ e ∈ old ∨ e ∈ new) : g.Extends g'' all := by
  refine ⟨h.keys.trans h'.keys, fun n c => ?_⟩
  rw [h'.children, h.children, hall, or_assoc]

theorem At.mono {g g' : Graph} (hk : g.keys <+: g'.keys) {h : Handle} {k : NodeKey}
    (hh : g.At h k) : g'.At h k := by
  obtain ⟨n, rfl, hn⟩ := hh
  obtain ⟨more, hmore⟩ := hk
  refine ⟨n, rfl, ?_⟩
  rw [← hmore, List.getElem?_append_left (lt_length_of_getElem? hn)]
  exact hn

theorem Sound.modify {g : Graph} (hg : g.Sound) (i count : Nat) {f : Node → Node}
    (hkey : ∀ n, (f n).key = n.key) (hkind : ∀ n, (f n).kind = n.kind) :
    Sound ⟨g.nodes.modify i f, count⟩ ∧ keys ⟨g.nodes.modify i f, count⟩ = g.keys := by
  have hkeys : keys ⟨g.nodes.modify i f, count⟩ = g.keys := by
    unfold keys
    apply List.ext_getElem?
    intro j
    rw [List.getElem?_map, List.getElem?_map, List.getElem?_modify, Option.map_eq_map,
      Option.map_map]
    congr 1
    funext n
    rw [Function.comp_apply]
    split
    · exact hkey n
    · rfl
  refine ⟨⟨by rw [hkeys]; exact hg.nodup, ?_⟩, hkeys⟩
  intro n hn
  obtain ⟨j, hj⟩ := List.getElem?_of_mem hn
  rcases getElem?_modified hj with ⟨-, o, ho, rfl⟩ | ⟨-, ho⟩
  · rw [hkey, hkind, hg.kinds o (List.mem_of_getElem? ho)]
  · exact hg.kinds n (List.mem_of_getElem? ho)

theorem Sound.extends_modify {g : Graph} (hg : g.Sound) (i : Nat) {f : Node → Node}
    (hkey : ∀ n, (f n).key = n.key) (hkind : ∀ n, (f n).kind = n.kind)
    (hlinks : ∀ n, (f n).links = n.links) : g.Extends ⟨g.nodes.modify i f, g.edgeCount⟩ [] := by
  obtain ⟨-, hkeys⟩ := hg.modify i g.edgeCount hkey hkind
  have hchildren : ∀ n c, c ∈ (f n).children ↔ c ∈ n.children := by
    intro n c
    rw [Node.mem_children, Node.mem_children, hlinks]
  refine ⟨?_, ?_⟩
  · exact ⟨[], (List.append_nil _).trans hkeys.symm⟩
  · intro n c
    simp only [mem_children, List.not_mem_nil, or_false]
    rw [List.getElem?_modify, Option.map_eq_map]
    constructor
    · rintro ⟨node, hnode, hc⟩
      obtain ⟨o, ho, rfl⟩ := Option.map_eq_some_iff.1 hnode
      refine ⟨o, ho, ?_⟩
      split at hc
      · exact (hchildren o c).1 hc
      · exact hc
    · rintro ⟨o, ho, hc⟩
      refine ⟨_, Option.map_eq_some_iff.2 ⟨o, ho, rfl⟩, ?_⟩
      split
      · exact (hchildren o c).2 hc
      · exact hc

theorem Sound.append {g : Graph} (hg : g.Sound) {node : Node}
    (hnew : ∀ n ∈ g.nodes, n.key ≠ node.key) (hkind : node.kind = node.key.kind) :
    Sound ⟨g.nodes ++ [node], g.edgeCount⟩ := by
  constructor
  · rw [keys, List.map_append, List.nodup_append]
    refine ⟨hg.nodup, List.nodup_singleton _, ?_⟩
    intro a ha b hb hab
    obtain ⟨n, hn, rfl⟩ := List.mem_map.1 ha
    simp only [List.map_cons, List.map_nil, List.mem_singleton] at hb
    exact hnew n hn (hab.trans hb)
  · intro n hn
    rcases List.mem_append.1 hn with hn | hn
    · exact hg.kinds n hn
    · rw [List.mem_singleton.1 hn]
      exact hkind

theorem extends_append (g : Graph) {node : Node} (hlinks : node.links = []) :
    g.Extends ⟨g.nodes ++ [node], g.edgeCount⟩ [] := by
  constructor
  · rw [keys, keys, List.map_append]
    exact List.prefix_append _ _
  · intro n c
    simp only [mem_children, List.not_mem_nil, or_false]
    constructor
    · rintro ⟨o, ho, hc⟩
      rcases getElem?_concat ho with ho | ⟨-, rfl⟩
      · exact ⟨o, ho, hc⟩
      · obtain ⟨l, hl, -⟩ := Node.mem_children.1 hc
        rw [hlinks] at hl
        cases hl
    · rintro ⟨o, ho, hc⟩
      refine ⟨o, ?_, hc⟩
      rw [List.getElem?_append_left (lt_length_of_getElem? ho)]
      exact ho

/-- Bringing in a step yields the handle of its key; a node that was not there is the step's. -/
theorem intern_spec {g : Graph} (hg : g.Sound) {r : Registry} {s : Step} (seq : Int) {k : NodeKey}
    (hk : s.nodeKey r = .ok k) :
    ∃ g' h, g.intern r s seq = .ok (g', h) ∧ g'.Sound ∧ g.Extends g' [] ∧ g'.At h k ∧
      ∀ n : Nat, g.size ≤ n → n < g'.size → h = n := by
  unfold intern
  simp only [hk, bind, Except.bind]
  cases hfind : g.nodes.findIdx? fun n => n.key = k with
  | some i =>
    obtain ⟨hlt, hkey, -⟩ := List.findIdx?_eq_some_iff_getElem.1 hfind
    obtain ⟨hsound, hkeys⟩ :=
      hg.modify i g.edgeCount (f := fun n => n.meet s seq) (fun _ => rfl) (fun _ => rfl)
    have hextends :=
      hg.extends_modify i (f := fun n => n.meet s seq) (fun _ => rfl) (fun _ => rfl) (fun _ => rfl)
    refine ⟨_, i, rfl, hsound, hextends, ⟨i, rfl, ?_⟩, ?_⟩
    · rw [hkeys]
      exact getElem?_keys.2 ⟨_, List.getElem?_eq_getElem hlt, of_decide_eq_true hkey⟩
    · intro n hle hlt
      rw [size, List.length_modify] at hlt
      exact absurd hlt (Nat.not_lt.2 hle)
  | none =>
    obtain ⟨component, hcomponent⟩ := s.exists_component hk
    have hnew : ∀ n ∈ g.nodes, n.key ≠ k := by
      intro n hn
      exact of_decide_eq_false (List.findIdx?_eq_none_iff.1 hfind n hn)
    simp only [hcomponent]
    refine ⟨_, g.nodes.length, rfl, hg.append hnew (Step.kind_nodeKey hk).symm,
      g.extends_append rfl, ⟨g.nodes.length, rfl, ?_⟩, ?_⟩
    · exact getElem?_keys.2 ⟨_, List.getElem?_concat_length, rfl⟩
    · intro n hle hlt
      rw [size] at hle
      rw [size, List.length_append, List.length_singleton] at hlt
      have heq : g.nodes.length = n := by omega
      rw [heq]

/-- Writing an edge adds it and nothing else. -/
theorem link_spec {g : Graph} (hg : g.Sound) {parent : Handle} {k : NodeKey}
    (hp : g.At parent k) (child : Handle) (seq : Int) :
    ∃ g', g.link parent child seq = .ok g' ∧ g'.Sound ∧ g'.keys = g.keys ∧
      g.Extends g' [(parent, child)] := by
  obtain ⟨i, rfl, hi⟩ := hp
  obtain ⟨node, hnode, -⟩ := getElem?_keys.1 hi
  unfold link
  rw [node?_natCast, hnode, place_natCast]
  dsimp only
  obtain ⟨hsound, hkeys⟩ := hg.modify i
    (if !node.links.any fun l => l.child = child then g.edgeCount + 1 else g.edgeCount)
    (f := fun n => n.link child seq g.edgeCount)
    (fun n => n.key_link child seq g.edgeCount) (fun n => n.kind_link child seq g.edgeCount)
  refine ⟨_, rfl, hsound, hkeys, ?_, ?_⟩
  · exact ⟨[], (List.append_nil _).trans hkeys.symm⟩
  · intro n c
    rw [mem_children, mem_children, List.mem_singleton, Prod.mk.injEq, Int.natCast_inj,
      List.getElem?_modify, Option.map_eq_map]
    constructor
    · rintro ⟨o, ho, hc⟩
      obtain ⟨old, hold, rfl⟩ := Option.map_eq_some_iff.1 ho
      split at hc
      · rename_i hin
        rcases Node.mem_children_link.1 hc with hc | hc
        · exact .inl ⟨old, hold, hc⟩
        · exact .inr ⟨hin.symm, hc⟩
      · exact .inl ⟨old, hold, hc⟩
    · rintro (⟨old, hold, hc⟩ | ⟨rfl, rfl⟩)
      · refine ⟨_, Option.map_eq_some_iff.2 ⟨old, hold, rfl⟩, ?_⟩
        split
        · exact Node.mem_children_link.2 (.inl hc)
        · exact hc
      · refine ⟨_, Option.map_eq_some_iff.2 ⟨node, hnode, rfl⟩, ?_⟩
        rw [if_pos rfl]
        exact Node.mem_children_link.2 (.inr rfl)

end Graph

end TraitTrace
