import Mathlib.Data.List.Induction
import TraitTrace.Proofs.Chain.Shape
import TraitTrace.Proofs.Graph.Interning

/-! Chains in the graph. The steps of a chain are brought in one by one; each gets the handle of its
key, and a step below another one of a different key leaves an edge. No fault can stop a chain whose
parents stand before their children and whose consumers are named. -/

namespace TraitTrace

namespace Chain

/-- A requirement of a chain, by its key. -/
def Requires (r : Registry) (c : Chain) (k : NodeKey) : Prop := ∃ s ∈ c.steps, s.nodeKey r = .ok k

/-- The first requirement of a chain. -/
def Starts (r : Registry) (c : Chain) (k : NodeKey) : Prop :=
  ∃ s, c.root = some s ∧ s.nodeKey r = .ok k

/-- A requirement right below another one. -/
def Leads (r : Registry) (c : Chain) (k k' : NodeKey) : Prop :=
  k ≠ k' ∧ ∃ s ∈ c.steps, ∃ j t, s.parent = some j ∧ c.steps[j]? = some t ∧ t.nodeKey r = .ok k ∧
    s.nodeKey r = .ok k'

theorem Ordered.init {steps more : List Step} (h : Ordered (steps ++ more)) : Ordered steps := by
  have hold : ∀ {i : Nat} {s : Step}, steps[i]? = some s → (steps ++ more)[i]? = some s := by
    intro i s hs
    rw [List.getElem?_append_left (lt_length_of_getElem? hs)]
    exact hs
  refine ⟨?_, ?_, ?_⟩
  · intro i j s hs
    exact h.parent_lt i j s (hold hs)
  · intro i s hs
    exact h.check_first i s (hold hs)
  · intro s hs
    exact h.named s (List.mem_append_left _ hs)

end Chain

namespace Graph

/-- An edge between the handles of a step and of its parent. -/
def EdgeAt (steps : List Step) (hs : List Handle) (p q : Handle) : Prop :=
  p ≠ q ∧ ∃ (i j : Nat) (s : Step),
    steps[i]? = some s ∧ s.parent = some j ∧ hs[i]? = some q ∧ hs[j]? = some p

theorem edgeAt_concat {steps : List Step} {s : Step} {hs : List Handle} {h p q : Handle}
    (ho : Chain.Ordered (steps ++ [s])) (hlen : steps.length = hs.length) :
    EdgeAt (steps ++ [s]) (hs ++ [h]) p q ↔
      EdgeAt steps hs p q ∨ (p ≠ q ∧ q = h ∧ ∃ j, s.parent = some j ∧ hs[j]? = some p) := by
  have hlast : (steps ++ [s])[steps.length]? = some s := List.getElem?_concat_length
  constructor
  · rintro ⟨hne, i, j, t, ht, hp, hq, hj⟩
    have hlt := ho.parent_lt i j t ht hp
    have hi := lt_length_of_getElem? hq
    rw [List.length_append, List.length_singleton] at hi
    rw [List.getElem?_append_left (by omega)] at hj
    rcases getElem?_concat ht with ht' | ⟨rfl, rfl⟩
    · rw [List.getElem?_append_left (by have := lt_length_of_getElem? ht'; omega)] at hq
      exact .inl ⟨hne, i, j, t, ht', hp, hq, hj⟩
    · rw [hlen, List.getElem?_concat_length] at hq
      exact .inr ⟨hne, (Option.some.inj hq).symm, j, hp, hj⟩
  · rintro (⟨hne, i, j, t, ht, hp, hq, hj⟩ | ⟨hne, rfl, j, hp, hj⟩)
    · have hi := lt_length_of_getElem? ht
      have hlt := lt_length_of_getElem? hj
      refine ⟨hne, i, j, t, ?_, hp, ?_, ?_⟩
      · rw [List.getElem?_append_left hi]
        exact ht
      · rw [List.getElem?_append_left (by omega)]
        exact hq
      · rw [List.getElem?_append_left hlt]
        exact hj
    · refine ⟨hne, steps.length, j, s, hlast, hp, ?_, ?_⟩
      · rw [hlen]
        exact List.getElem?_concat_length
      · rw [List.getElem?_append_left (lt_length_of_getElem? hj)]
        exact hj

theorem edgeAt_concat_of_none {steps : List Step} {s : Step} {hs : List Handle} {h p q : Handle}
    (ho : Chain.Ordered (steps ++ [s])) (hlen : steps.length = hs.length) (hp : s.parent = none) :
    EdgeAt (steps ++ [s]) (hs ++ [h]) p q ↔ EdgeAt steps hs p q := by
  rw [edgeAt_concat ho hlen]
  simp [hp]

/-- A step with a parent brings the edge from the parent, unless that is a loop. -/
theorem edgeAt_concat_of_some {steps : List Step} {s : Step} {hs : List Handle}
    {h parent p q : Handle} {j : Nat} (ho : Chain.Ordered (steps ++ [s]))
    (hlen : steps.length = hs.length) (hp : s.parent = some j) (hparent : hs[j]? = some parent) :
    EdgeAt (steps ++ [s]) (hs ++ [h]) p q ↔
      EdgeAt steps hs p q ∨ (parent ≠ h ∧ p = parent ∧ q = h) := by
  rw [edgeAt_concat ho hlen]
  refine or_congr_right ⟨?_, ?_⟩
  · rintro ⟨hne, rfl, i, hi, hpi⟩
    obtain rfl := Option.some.inj (hp.symm.trans hi)
    obtain rfl := Option.some.inj (hparent.symm.trans hpi)
    exact ⟨hne, rfl, rfl⟩
  · rintro ⟨hne, rfl, rfl⟩
    exact ⟨hne, rfl, j, hp, hparent⟩

/-- A graph `g` after the steps so far: all of them have handles, the edges are those between a step
and its parent, and the nodes that came are theirs. -/
structure Adding (g : Graph) (r : Registry) (steps : List Step) (a : Added) : Prop where
  fault : a.fault = none
  sound : a.graph.Sound
  grown : g.Extends a.graph a.edges
  handles : List.Forall₂ (fun s h => ∃ k, s.nodeKey r = .ok k ∧ a.graph.At h k) steps a.handles
  edges : ∀ p q, (p, q) ∈ a.edges ↔ EdgeAt steps a.handles p q
  fresh : ∀ n : Nat, g.size ≤ n → n < a.graph.size → (n : Handle) ∈ a.handles

theorem adding_nil {g : Graph} (hg : g.Sound) (r : Registry) : Adding g r [] ⟨g, [], [], none⟩ := by
  refine ⟨rfl, hg, .refl g, .nil, ?_, ?_⟩
  · simp [EdgeAt]
  · intro n hle hlt
    exact absurd hlt (Nat.not_lt.2 hle)

/-- What a step with a handle of its own leaves, whatever happens to the edges. -/
theorem Adding.concat {g g' : Graph} {r : Registry} {steps : List Step} {s : Step} {a : Added}
    {k : NodeKey} {h : Handle} {edges : List (Handle × Handle)} (new : List (Handle × Handle))
    (ha : Adding g r steps a)
    (hk : s.nodeKey r = .ok k) (hsound : g'.Sound) (hext : a.graph.Extends g' new)
    (hat : g'.At h k) (hfresh : ∀ n : Nat, a.graph.size ≤ n → n < g'.size → h = n)
    (hall : ∀ e, e ∈ edges ↔ e ∈ a.edges ∨ e ∈ new)
    (hedges : ∀ p q, (p, q) ∈ edges ↔ EdgeAt (steps ++ [s]) (a.handles ++ [h]) p q) :
    Adding g r (steps ++ [s]) ⟨g', a.handles ++ [h], edges, none⟩ := by
  refine ⟨rfl, hsound, ha.grown.trans hext hall, ?_, hedges, ?_⟩
  · apply List.rel_append
    · apply ha.handles.imp
      rintro t p ⟨k', hk', hp⟩
      exact ⟨k', hk', hp.mono hext.keys⟩
    · exact .cons ⟨k, hk, hat⟩ .nil
  · intro n hle hlt
    by_cases hn : n < a.graph.size
    · exact List.mem_append_left _ (ha.fresh n hle hn)
    · have heq := hfresh n (Nat.le_of_not_lt hn) hlt
      rw [heq]
      exact List.mem_append_right _ List.mem_cons_self

theorem mem_edges_concat {es : List (Handle × Handle)} {e new : Handle × Handle} :
    e ∈ (if new ∈ es then es else es ++ [new]) ↔ e ∈ es ∨ e ∈ [new] := by
  split
  · rename_i hmem
    rw [List.mem_singleton]
    constructor
    · exact .inl
    · rintro (he | rfl)
      · exact he
      · exact hmem
  · exact List.mem_append

theorem Adding.handle_at {g : Graph} {r : Registry} {steps : List Step} {a : Added}
    (ha : Adding g r steps a) {i : Nat} {s : Step} {k : NodeKey} (hs : steps[i]? = some s)
    (hk : s.nodeKey r = .ok k) : ∃ h, a.handles[i]? = some h ∧ a.graph.At h k := by
  obtain ⟨h, hh, k', hk', hat⟩ := forall₂_left ha.handles hs
  rw [hk] at hk'
  cases hk'
  exact ⟨h, hh, hat⟩

theorem Adding.step {g : Graph} {r : Registry} {steps : List Step} {s : Step} {a : Added}
    (seq : Int) (ha : Adding g r steps a) (ho : Chain.Ordered (steps ++ [s])) :
    Adding g r (steps ++ [s]) (addStep r seq a s) := by
  have hlen := ha.handles.length_eq
  obtain ⟨k, hk⟩ := Step.exists_nodeKey r (ho.named s (List.mem_append_right _ List.mem_cons_self))
  obtain ⟨g', h, hintern, hsound, hext, hat, hfresh⟩ := intern_spec ha.sound seq hk
  have hfault := ha.fault
  unfold addStep
  rw [hfault]
  simp only [Option.isSome_none, Bool.false_eq_true, if_false, hintern]
  cases hp : s.parent with
  | none =>
    refine ha.concat [] hk hsound hext hat hfresh (by simp) fun p q => ?_
    rw [ha.edges, edgeAt_concat_of_none ho hlen hp]
  | some j =>
    have hj : j < steps.length := ho.parent_lt steps.length j s List.getElem?_concat_length hp
    obtain ⟨parent, hparent, k', hk', hpat⟩ := forall₂_left ha.handles (List.getElem?_eq_getElem hj)
    simp only [hparent]
    by_cases hself : parent = h
    · rw [if_pos hself]
      refine ha.concat [] hk hsound hext hat hfresh (by simp) fun p q => ?_
      rw [ha.edges, edgeAt_concat_of_some ho hlen hp hparent]
      -- The only new edge would be a loop.
      exact ⟨.inl, fun hnew => hnew.resolve_right fun hloop => hloop.1 hself⟩
    · rw [if_neg hself]
      obtain ⟨g'', hlink, hsound', hkeys, hext'⟩ :=
        link_spec hsound (hpat.mono hext.keys) h seq
      simp only [hlink]
      have hsize : g''.size = g'.size := by rw [← length_keys, hkeys, length_keys]
      refine ha.concat [(parent, h)] hk hsound' (hext.trans hext' (by simp))
        (hat.mono ⟨[], (List.append_nil _).trans hkeys.symm⟩) (hsize ▸ hfresh)
        (fun e => mem_edges_concat) fun p q => ?_
      rw [mem_edges_concat, ha.edges, edgeAt_concat_of_some ho hlen hp hparent, List.mem_singleton,
        Prod.mk.injEq, and_iff_right hself]

/-- The steps of an ordered chain all come into a sound graph. -/
theorem adding_addSteps {g : Graph} (hg : g.Sound) (r : Registry) (steps : List Step) (seq : Int)
    (ho : Chain.Ordered steps) : Adding g r steps (g.addSteps r steps seq) := by
  induction steps using List.reverseRecOn with
  | nil => exact adding_nil hg r
  | append_singleton steps s ih =>
    have hlast := (ih ho.init).step seq ho
    unfold addSteps
    rw [List.foldl_append]
    exact hlast

theorem Adding.mem_handles {g : Graph} {r : Registry} {c : Chain} {a : Added}
    (ha : Adding g r c.steps a) {h : Handle} :
    h ∈ a.handles ↔ ∃ k, c.Requires r k ∧ a.graph.At h k := by
  constructor
  · intro hmem
    obtain ⟨i, hi⟩ := List.getElem?_of_mem hmem
    obtain ⟨s, hs, k, hk, hat⟩ := forall₂_right ha.handles hi
    exact ⟨k, ⟨s, List.mem_of_getElem? hs, hk⟩, hat⟩
  · rintro ⟨k, ⟨s, hs, hk⟩, hat⟩
    obtain ⟨i, hi⟩ := List.getElem?_of_mem hs
    obtain ⟨h', hh', hat'⟩ := ha.handle_at hi hk
    rw [ha.sound.handle_unique hat hat']
    exact List.mem_of_getElem? hh'

theorem Adding.mem_first {g : Graph} {r : Registry} {c : Chain} {a : Added}
    (ha : Adding g r c.steps a) {h : Handle} :
    h ∈ a.handles.take 1 ↔ ∃ k, c.Starts r k ∧ a.graph.At h k := by
  have hfirst : h ∈ a.handles.take 1 ↔ a.handles[0]? = some h := by
    cases a.handles <;> simp [eq_comm]
  rw [hfirst]
  constructor
  · intro hh
    obtain ⟨s, hs, k, hk, hat⟩ := forall₂_right ha.handles hh
    refine ⟨k, ⟨s, ?_, hk⟩, hat⟩
    rw [Chain.root, List.head?_eq_getElem?]
    exact hs
  · rintro ⟨k, ⟨s, hs, hk⟩, hat⟩
    rw [Chain.root, List.head?_eq_getElem?] at hs
    obtain ⟨h', hh', hat'⟩ := ha.handle_at hs hk
    rw [ha.sound.handle_unique hat hat']
    exact hh'

theorem Adding.mem_edges {g : Graph} {r : Registry} {c : Chain} {a : Added}
    (ha : Adding g r c.steps a) {p q : Handle} :
    (p, q) ∈ a.edges ↔ ∃ k k', c.Leads r k k' ∧ a.graph.At p k ∧ a.graph.At q k' := by
  rw [ha.edges]
  constructor
  · rintro ⟨hne, i, j, s, hs, hp, hq, hj⟩
    obtain ⟨s', hs', k', hk', hatq⟩ := forall₂_right ha.handles hq
    obtain ⟨t, ht, k, hk, hatp⟩ := forall₂_right ha.handles hj
    rw [hs] at hs'
    cases hs'
    refine ⟨k, k', ⟨?_, s, List.mem_of_getElem? hs, j, t, hp, ht, hk, hk'⟩, hatp, hatq⟩
    rintro rfl
    exact hne (ha.sound.handle_unique hatp hatq)
  · rintro ⟨k, k', ⟨hne, s, hs, j, t, hp, ht, hk, hk'⟩, hatp, hatq⟩
    obtain ⟨i, hi⟩ := List.getElem?_of_mem hs
    obtain ⟨q', hq', hatq'⟩ := ha.handle_at hi hk'
    obtain ⟨p', hp', hatp'⟩ := ha.handle_at ht hk
    rw [ha.sound.handle_unique hatp hatp', ha.sound.handle_unique hatq hatq']
    refine ⟨?_, i, j, s, hi, hp, hq', hp'⟩
    rintro rfl
    exact hne (hatp'.key_unique hatq')

end Graph

end TraitTrace
