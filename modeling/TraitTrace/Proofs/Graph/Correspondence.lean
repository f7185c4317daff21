import TraitTrace.Proofs.Graph.Failing

/-! Graphs of errors that correspond. The signature of a graph and its groups are settled by the
requirements of the errors in it, so that two lists of errors whose chains are the same one by one
have graphs that agree, whatever the handles of their nodes. -/

namespace TraitTrace

open Relation

namespace GraphBuild

theorem mem_signature_keys {b : GraphBuild} {k : NodeKey} :
    k ∈ b.signature.1 ↔ k ∈ b.graph.keys := by
  rw [signature, mem_appendNew]
  simp

theorem mem_signature_edges {b : GraphBuild} {k k' : NodeKey} :
    (k, k') ∈ b.signature.2 ↔ ∃ g ∈ b.groups, ∃ p c, (p, c) ∈ g.edges ∧
      b.graph.key? p = some k ∧ b.graph.key? c = some k' := by
  rw [signature, mem_appendNew]
  simp only [List.not_mem_nil, false_or, List.mem_flatMap, List.mem_filterMap, Prod.exists]
  constructor
  · rintro ⟨g, hg, p, c, hpc, hkeys⟩
    obtain ⟨k₁, hp, hkeys⟩ := Option.bind_eq_some_iff.1 hkeys
    obtain ⟨k₂, hc, hkeys⟩ := Option.bind_eq_some_iff.1 hkeys
    cases hkeys
    exact ⟨g, hg, p, c, hpc, hp, hc⟩
  · rintro ⟨g, hg, p, c, hpc, hp, hc⟩
    refine ⟨g, hg, p, c, hpc, ?_⟩
    rw [hp, hc]
    rfl

/-- Two graphs with the same keys and edges between them that leave out the same errors and report
the same ones together, by a relation between the places of the errors. -/
structure Agrees (ρ : Nat → Nat → Prop) (b b' : GraphBuild) : Prop where
  keys : ∀ k, k ∈ b.signature.1 ↔ k ∈ b'.signature.1
  edges : ∀ p, p ∈ b.signature.2 ↔ p ∈ b'.signature.2
  failing : ∀ i i', ρ i i' → (i ∈ b.failing ↔ i' ∈ b'.failing)
  together : ∀ i i' j j', ρ i i' → ρ j j' → (b.Together i j ↔ b'.Together i' j')

end GraphBuild

theorem Graph.At.key? {g : Graph} {h : Handle} {k : NodeKey} (hh : g.At h k) :
    g.key? h = some k := by
  obtain ⟨n, rfl, hn⟩ := hh
  obtain ⟨node, hnode, rfl⟩ := getElem?_keys.1 hn
  rw [Graph.key?, node?_natCast, hnode, Option.map_some]

namespace Construction

variable {errors : List LogicalError} {r : Registry} {b : GraphBuild}

/-- The keys of a graph are those of the requirements of its errors. -/
theorem mem_keys_iff (h : (ofErrors errors r).result = .ok b) {k : NodeKey} :
    k ∈ b.signature.1 ↔ ∃ e ∈ errors, e.Requires r k := by
  obtain ⟨hb, hgraph, -, -⟩ := built_of_result h
  rw [GraphBuild.mem_signature_keys, hgraph]
  constructor
  · intro hk
    obtain ⟨n, hn⟩ := List.getElem?_of_mem hk
    have hlt := lt_length_of_getElem? hn
    rw [Graph.length_keys] at hlt
    obtain ⟨e, he, hmem⟩ := hb.covered n hlt
    obtain ⟨k', hk', hat⟩ := ((hb.represents e he).nodes n).1 hmem
    obtain rfl := hat.key_unique ⟨n, rfl, hn⟩
    exact ⟨e.error, List.mem_of_getElem? (hb.placed he), hk'⟩
  · rintro ⟨e, he, c, hc, hk⟩
    obtain ⟨cs, seq, hcs, -⟩ := id hc
    obtain ⟨i, hi⟩ := List.getElem?_of_mem he
    obtain ⟨o, ho, -, rfl⟩ := hb.exists_entry hi hcs
    obtain ⟨p, n, -, hn⟩ := (hb.represents o ho).named k ⟨c, hc, hk⟩
    exact List.mem_of_getElem? hn

/-- The edges of a graph lead from a requirement of an error to one right below it. -/
theorem mem_edges_iff (h : (ofErrors errors r).result = .ok b) {k k' : NodeKey} :
    (k, k') ∈ b.signature.2 ↔ ∃ e ∈ errors, e.Leads r k k' := by
  obtain ⟨hb, hgraph, hgroups, -⟩ := built_of_result h
  rw [GraphBuild.mem_signature_edges, hgroups, hgraph]
  constructor
  · rintro ⟨g, hg, p, q, hpq, hp, hq⟩
    obtain ⟨e, heg, hedge⟩ := Group.mem_edges.1 hpq
    have he := (Grouping.entries_sublist hg).subset heg
    obtain ⟨k₁, k₂, hleads, hp₁, hq₂⟩ := ((hb.represents e he).edges p q).1 hedge
    rw [hp₁.key?] at hp
    rw [hq₂.key?] at hq
    cases hp
    cases hq
    exact ⟨e.error, List.mem_of_getElem? (hb.placed he), hleads⟩
  · rintro ⟨e, he, c, hc, hleads⟩
    obtain ⟨cs, seq, hcs, -⟩ := id hc
    obtain ⟨i, hi⟩ := List.getElem?_of_mem he
    obtain ⟨o, ho, -, rfl⟩ := hb.exists_entry hi hcs
    have hrep := hb.represents o ho
    obtain ⟨p, hp⟩ := hrep.named k ⟨c, hc, hleads.requires_left⟩
    obtain ⟨q, hq⟩ := hrep.named k' ⟨c, hc, hleads.requires_right⟩
    obtain ⟨j, g, hj, hog⟩ := @Grouping.exists_group (ofErrors errors r).graph _ o ho
    exact ⟨g, List.mem_of_getElem? hj, p, q,
      Group.mem_edges.2 ⟨o, hog, (hrep.edges p q).2 ⟨k, k', ⟨c, hc, hleads⟩, hp, hq⟩⟩,
      hp.key?, hq.key?⟩

end Construction

namespace LogicalError

/-- Errors of one context that have the facts of the same diagnostics, both or neither of which
collided. -/
structure Alike (a b : LogicalError) : Prop where
  context : a.context = b.context
  collided : a.collisions = [] ↔ b.collisions = []
  facts : ∀ fs, fs ∈ a.records.map Record.facts ↔ fs ∈ b.records.map Record.facts

theorem Alike.symm {a b : LogicalError} (h : a.Alike b) : b.Alike a :=
  ⟨h.context.symm, h.collided.symm, fun fs => (h.facts fs).symm⟩

theorem Alike.reads_iff {a b : LogicalError} (h : a.Alike b) {c : Chain} :
    a.Reads c ↔ b.Reads c := by
  simp only [Reads, h.facts, h.context]

theorem Alike.fails_iff {a b : LogicalError} (h : a.Alike b) : a.Fails ↔ b.Fails := by
  simp only [Fails, ne_eq, h.collided, h.reads_iff, h.context]

theorem Alike.isReadable_iff {a b : LogicalError} (h : a.Alike b) :
    a.IsReadable ↔ b.IsReadable := by
  simp only [IsReadable, h.collided, h.facts, h.context]

theorem Alike.contributes_iff {a b : LogicalError} (h : a.Alike b) (ha : ∃ o, a.chains = .ok o)
    (hb : ∃ o, b.chains = .ok o) {c : Chain} : a.Contributes c ↔ b.Contributes c := by
  rw [contributes_iff_reads ha, contributes_iff_reads hb, h.fails_iff, h.reads_iff]

end LogicalError

/-- Errors that correspond one to one: those at related places are alike, and an error that does not
fail has a place related to its own. -/
structure Corresponds (ρ : Nat → Nat → Prop) (es es' : List LogicalError) : Prop where
  right_unique : ∀ i j k, ρ i j → ρ i k → j = k
  left_unique : ∀ i j k, ρ i k → ρ j k → i = j
  alike : ∀ i i', ρ i i' → Option.Rel LogicalError.Alike es[i]? es'[i']?
  total : ∀ i a, es[i]? = some a → ¬ a.Fails → ∃ i', ρ i i'
  onto : ∀ i' a', es'[i']? = some a' → ¬ a'.Fails → ∃ i, ρ i i'

namespace Corresponds

open Construction

variable {ρ : Nat → Nat → Prop} {es es' : List LogicalError} {r r' : Registry} {b b' : GraphBuild}

theorem symm (h : Corresponds ρ es es') : Corresponds (fun i' i => ρ i i') es' es := by
  refine ⟨fun i j k => h.left_unique j k i, fun i j k => h.right_unique k i j, ?_, h.onto, h.total⟩
  intro i' i hi
  have hrel := h.alike i i' hi
  generalize es[i]? = o, es'[i']? = o' at hrel
  cases hrel with
  | some halike => exact .some halike.symm
  | none => exact .none

theorem exists_alike (h : Corresponds ρ es es') {i i' : Nat} (hi : ρ i i') {a : LogicalError}
    (ha : es[i]? = some a) : ∃ a', es'[i']? = some a' ∧ a.Alike a' := by
  have hrel := h.alike i i' hi
  rw [ha] at hrel
  generalize es'[i']? = o at hrel
  cases hrel with
  | some halike => exact ⟨_, rfl, halike⟩

/-- An error that contributes chains corresponds to one that contributes the same. -/
theorem counterpart (h : Corresponds ρ es es') (hb : (ofErrors es r).result = .ok b)
    (hb' : (ofErrors es' r').result = .ok b') {i : Nat} {a : LogicalError} {c : Chain}
    (ha : es[i]? = some a) (hc : a.Contributes c) :
    ∃ i' a', ρ i i' ∧ es'[i']? = some a' ∧ ∀ d, a.Contributes d ↔ a'.Contributes d := by
  have hok := exists_chains_of_result hb ha
  obtain ⟨i', hi'⟩ := h.total i a ha ((LogicalError.contributes_iff_reads hok).1 hc).1
  obtain ⟨a', ha', halike⟩ := h.exists_alike hi' ha
  exact ⟨i', a', hi', ha', fun d => halike.contributes_iff hok (exists_chains_of_result hb' ha')⟩

theorem requires_iff {a a' : LogicalError} (hr : ∀ s : Step, s.nodeKey r = s.nodeKey r')
    (h : ∀ c, a.Contributes c ↔ a'.Contributes c) (k : NodeKey) :
    a.Requires r k ↔ a'.Requires r' k := by
  simp only [LogicalError.Requires, Chain.Requires, h, hr]

theorem leads_iff {a a' : LogicalError} (hr : ∀ s : Step, s.nodeKey r = s.nodeKey r')
    (h : ∀ c, a.Contributes c ↔ a'.Contributes c) (k k' : NodeKey) :
    a.Leads r k k' ↔ a'.Leads r' k k' := by
  simp only [LogicalError.Leads, Chain.Leads, h, hr]

theorem keys_subset (h : Corresponds ρ es es') (hr : ∀ s : Step, s.nodeKey r = s.nodeKey r')
    (hb : (ofErrors es r).result = .ok b) (hb' : (ofErrors es' r').result = .ok b') {k : NodeKey}
    (hk : k ∈ b.signature.1) : k ∈ b'.signature.1 := by
  rw [mem_keys_iff hb] at hk
  obtain ⟨a, ha, hak⟩ := hk
  obtain ⟨c, hc, -⟩ := id hak
  obtain ⟨i, hi⟩ := List.getElem?_of_mem ha
  obtain ⟨i', a', -, ha', hsame⟩ := h.counterpart hb hb' hi hc
  rw [mem_keys_iff hb']
  exact ⟨a', List.mem_of_getElem? ha', (requires_iff hr hsame k).1 hak⟩

theorem edges_subset (h : Corresponds ρ es es') (hr : ∀ s : Step, s.nodeKey r = s.nodeKey r')
    (hb : (ofErrors es r).result = .ok b) (hb' : (ofErrors es' r').result = .ok b')
    {p : NodeKey × NodeKey} (hp : p ∈ b.signature.2) : p ∈ b'.signature.2 := by
  obtain ⟨k, k'⟩ := p
  rw [mem_edges_iff hb] at hp
  obtain ⟨a, ha, hleads⟩ := hp
  obtain ⟨c, hc, -⟩ := id hleads
  obtain ⟨i, hi⟩ := List.getElem?_of_mem ha
  obtain ⟨i', a', -, ha', hsame⟩ := h.counterpart hb hb' hi hc
  rw [mem_edges_iff hb']
  exact ⟨a', List.mem_of_getElem? ha', (leads_iff hr hsame k k').1 hleads⟩

/-- A sequence of errors that meet corresponds to one of errors that meet. -/
theorem joined (h : Corresponds ρ es es') (hr : ∀ s : Step, s.nodeKey r = s.nodeKey r')
    (hb : (ofErrors es r).result = .ok b) (hb' : (ofErrors es' r').result = .ok b')
    {i i' j j' : Nat} (hi : ρ i i') (hj : ρ j j')
    (hpath : ReflTransGen (LogicalError.Neighbours es r) i j) :
    ReflTransGen (LogicalError.Neighbours es' r') i' j' := by
  induction hpath generalizing j' with
  | refl =>
    rw [h.right_unique i i' j' hi hj]
  | tail _ hlast ih =>
    obtain ⟨x, y, hx, hy, k, hkind, hxk, hyk⟩ := hlast
    obtain ⟨c, hc, -⟩ := id hxk
    obtain ⟨d, hd, -⟩ := id hyk
    obtain ⟨m, x', hm, hx', hxsame⟩ := h.counterpart hb hb' hx hc
    obtain ⟨n, y', hn, hy', hysame⟩ := h.counterpart hb hb' hy hd
    obtain rfl := h.right_unique _ n j' hn hj
    exact (ih hm).tail ⟨x', y', hx', hy', k, hkind, (requires_iff hr hxsame k).1 hxk,
      (requires_iff hr hysame k).1 hyk⟩

theorem failing (h : Corresponds ρ es es') {i i' : Nat} (hi : ρ i i')
    (hfails : ∃ a, es[i]? = some a ∧ a.Fails) : ∃ a', es'[i']? = some a' ∧ a'.Fails := by
  obtain ⟨a, ha, haf⟩ := hfails
  obtain ⟨a', ha', halike⟩ := h.exists_alike hi ha
  exact ⟨a', ha', halike.fails_iff.1 haf⟩

theorem remaining (h : Corresponds ρ es es') {i i' : Nat} (hi : ρ i i')
    (hfine : ∃ a, es[i]? = some a ∧ ¬ a.Fails) : ∃ a', es'[i']? = some a' ∧ ¬ a'.Fails := by
  obtain ⟨a, ha, haf⟩ := hfine
  obtain ⟨a', ha', halike⟩ := h.exists_alike hi ha
  exact ⟨a', ha', fun hf => haf (halike.fails_iff.2 hf)⟩

theorem together (h : Corresponds ρ es es') (hr : ∀ s : Step, s.nodeKey r = s.nodeKey r')
    (hb : (ofErrors es r).result = .ok b) (hb' : (ofErrors es' r').result = .ok b')
    {i i' j j' : Nat} (hi : ρ i i') (hj : ρ j j') (htogether : b.Together i j) :
    b'.Together i' j' := by
  rw [together_iff hb] at htogether
  rw [together_iff hb']
  obtain ⟨hfi, hfj, hpath⟩ := htogether
  exact ⟨h.remaining hi hfi, h.remaining hj hfj, h.joined hr hb hb' hi hj hpath⟩

/-- The graphs of errors that correspond agree. -/
theorem agrees (h : Corresponds ρ es es') (hr : ∀ s : Step, s.nodeKey r = s.nodeKey r')
    (hb : (ofErrors es r).result = .ok b) (hb' : (ofErrors es' r').result = .ok b') :
    b.Agrees ρ b' := by
  have hr' : ∀ s : Step, s.nodeKey r' = s.nodeKey r := fun s => (hr s).symm
  constructor
  case keys => exact fun k => ⟨h.keys_subset hr hb hb', h.symm.keys_subset hr' hb' hb⟩
  case edges => exact fun p => ⟨h.edges_subset hr hb hb', h.symm.edges_subset hr' hb' hb⟩
  case failing =>
    intro i i' hi
    rw [mem_failing_iff hb, mem_failing_iff hb']
    exact ⟨h.failing hi, h.symm.failing hi⟩
  case together =>
    intro i i' j j' hi hj
    exact ⟨h.together hr hb hb' hi hj, h.symm.together hr' hb' hb hi hj⟩

end Corresponds

end TraitTrace
