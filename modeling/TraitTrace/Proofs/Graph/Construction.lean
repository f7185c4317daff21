import TraitTrace.Graph.Build
import TraitTrace.Proofs.Graph.Adding
import TraitTrace.Proofs.Graph.Groups

/-! The construction of the graph. Every error is either in the graph or left out; an error in it
has the nodes of its requirements, and all nodes and edges of the graph come from errors in it. -/

namespace TraitTrace

namespace LogicalError

theorem chains_go_spec {e : LogicalError} {rs : List Record} {cs : List (Chain × Int)}
    (h : chains.go e rs = .ok (.ok cs)) :
    List.Forall₂ (fun rec c => Chain.ofFacts rec.facts e.context = .ok c.1 ∧ c.2 = rec.seq)
      rs cs := by
  induction rs generalizing cs with
  | nil =>
    cases h
    exact .nil
  | cons rec rs ih =>
    unfold chains.go at h
    split at h
    · cases h
    · rename_i c hc
      split at h
      · cases h
      · obtain ⟨outcome, hgo, hmap⟩ := map_ok.1 h
        obtain ⟨more, rfl, rfl⟩ := map_ok.1 hmap
        exact .cons ⟨hc, rfl⟩ (ih hgo)

theorem chains_spec {e : LogicalError} {cs : List (Chain × Int)} (h : e.chains = .ok (.ok cs)) :
    List.Forall₂ (fun rec c => Chain.ofFacts rec.facts e.context = .ok c.1 ∧ c.2 = rec.seq)
      e.records cs := by
  unfold chains at h
  split at h
  · cases h
  · exact chains_go_spec h

/-- A chain of one of an error's diagnostics, where none of them makes the error inconsistent. -/
def Contributes (e : LogicalError) (c : Chain) : Prop :=
  ∃ cs seq, e.chains = .ok (.ok cs) ∧ (c, seq) ∈ cs

theorem contributes_iff {e : LogicalError} {cs : List (Chain × Int)} (h : e.chains = .ok (.ok cs))
    {c : Chain} : e.Contributes c ↔ c ∈ cs.map Prod.fst := by
  rw [List.mem_map]
  constructor
  · rintro ⟨cs', seq, hcs, hc⟩
    rw [h] at hcs
    cases hcs
    exact ⟨(c, seq), hc, rfl⟩
  · rintro ⟨⟨c', seq⟩, hc, rfl⟩
    exact ⟨cs, seq, h, hc⟩

theorem Contributes.shaped {e : LogicalError} {c : Chain} (h : e.Contributes c) :
    Chain.Shaped c.checkName c.steps := by
  obtain ⟨cs, seq, hcs, hc⟩ := h
  obtain ⟨i, hi⟩ := List.getElem?_of_mem hc
  obtain ⟨rec, -, hfacts, -⟩ := forall₂_right (chains_spec hcs) hi
  exact Chain.shaped_ofFacts hfacts

end LogicalError

/-- An entry has the handles of the requirements of the chains in it. -/
structure Entry.Interned (g : Graph) (r : Registry) (P : Chain → Prop) (e : Entry) : Prop where
  named : ∀ k, (∃ c, P c ∧ c.Requires r k) → ∃ h, g.At h k
  nodes : ∀ h, h ∈ e.nodes ↔ ∃ k, (∃ c, P c ∧ c.Requires r k) ∧ g.At h k
  roots : ∀ h, h ∈ e.roots ↔ ∃ k, (∃ c, P c ∧ c.Starts r k) ∧ g.At h k
  edges : ∀ p q, (p, q) ∈ e.edges ↔
    ∃ k k', (∃ c, P c ∧ c.Leads r k k') ∧ g.At p k ∧ g.At q k'

namespace Chain

theorem Starts.requires {r : Registry} {c : Chain} {k : NodeKey} (h : c.Starts r k) :
    c.Requires r k := by
  obtain ⟨s, hs, hk⟩ := h
  exact ⟨s, List.mem_of_head? hs, hk⟩

theorem Leads.requires_left {r : Registry} {c : Chain} {k k' : NodeKey} (h : c.Leads r k k') :
    c.Requires r k := by
  obtain ⟨-, s, -, j, t, -, ht, hk, -⟩ := h
  exact ⟨t, List.mem_of_getElem? ht, hk⟩

theorem Leads.requires_right {r : Registry} {c : Chain} {k k' : NodeKey} (h : c.Leads r k k') :
    c.Requires r k' := by
  obtain ⟨-, s, hs, j, t, -, -, -, hk⟩ := h
  exact ⟨s, hs, hk⟩

end Chain

theorem Graph.Sound.at_iff {g g' : Graph} (hg : g'.Sound) (hkeys : g.keys <+: g'.keys) {h : Handle}
    {k : NodeKey} (hk : ∃ h, g.At h k) : g'.At h k ↔ g.At h k := by
  obtain ⟨h', hh'⟩ := hk
  constructor
  · intro hh
    rw [hg.handle_unique hh (hh'.mono hkeys)]
    exact hh'
  · exact fun hh => hh.mono hkeys

theorem Entry.Interned.mono {g g' : Graph} {r : Registry} {P : Chain → Prop} {e : Entry}
    (he : e.Interned g r P) (hg : g'.Sound) (hkeys : g.keys <+: g'.keys) :
    e.Interned g' r P := by
  have hat : ∀ {c h k}, P c → c.Requires r k → (g'.At h k ↔ g.At h k) := by
    intro c h k hc hk
    exact hg.at_iff hkeys (he.named k ⟨c, hc, hk⟩)
  refine ⟨?_, ?_, ?_, ?_⟩
  · intro k hk
    obtain ⟨h, hh⟩ := he.named k hk
    exact ⟨h, hh.mono hkeys⟩
  · intro h
    rw [he.nodes]
    apply exists_congr
    intro k
    apply and_congr_right
    rintro ⟨c, hc, hk⟩
    exact (hat hc hk).symm
  · intro h
    rw [he.roots]
    apply exists_congr
    intro k
    apply and_congr_right
    rintro ⟨c, hc, hk⟩
    exact (hat hc hk.requires).symm
  · intro p q
    rw [he.edges]
    apply exists_congr
    intro k
    apply exists_congr
    intro k'
    apply and_congr_right
    rintro ⟨c, hc, hk⟩
    rw [hat hc hk.requires_left, hat hc hk.requires_right]

theorem Entry.Interned.concat {g : Graph} {r : Registry} {P : Chain → Prop} {c : Chain} {e : Entry}
    {a : Graph.Added} (he : e.Interned g r P) (ha : Graph.Adding g r c.steps a) :
    Entry.Interned a.graph r (fun d => P d ∨ d = c)
      { e with
        roots := appendNew e.roots (a.handles.take 1)
        nodes := appendNew e.nodes a.handles
        edges := appendNew e.edges a.edges } := by
  have hold := he.mono ha.sound ha.grown.keys
  refine ⟨?_, ?_, ?_, ?_⟩
  · rintro k ⟨d, hd | rfl, hk⟩
    · exact hold.named k ⟨d, hd, hk⟩
    · obtain ⟨s, hs, hsk⟩ := hk
      obtain ⟨i, hi⟩ := List.getElem?_of_mem hs
      obtain ⟨h, -, hh⟩ := ha.handle_at hi hsk
      exact ⟨h, hh⟩
  · intro h
    rw [mem_appendNew, hold.nodes, ha.mem_handles]
    simp only [or_and_right, exists_or, exists_eq_left]
  · intro h
    rw [mem_appendNew, hold.roots, ha.mem_first]
    simp only [or_and_right, exists_or, exists_eq_left]
  · intro p q
    rw [mem_appendNew, hold.edges, ha.mem_edges]
    simp only [or_and_right, exists_or, exists_eq_left]

theorem Entry.Interned.congr {g : Graph} {r : Registry} {P Q : Chain → Prop} {e : Entry}
    (he : e.Interned g r P) (h : ∀ c, P c ↔ Q c) : e.Interned g r Q := by
  have hPQ : P = Q := by
    funext c
    exact propext (h c)
  rw [← hPQ]
  exact he

/-- An entry has the handles of the requirements of its error. -/
def Entry.Represents (g : Graph) (r : Registry) (e : Entry) : Prop :=
  e.Interned g r e.error.Contributes

namespace Construction

/-- What bringing the chains of an entry into a graph leaves. -/
structure Brings (r : Registry) (g : Graph) (e : Entry) (P : Chain → Prop) (g' : Graph)
    (e' : Entry) : Prop where
  sound : g'.Sound
  index : e'.index = e.index
  error : e'.error = e.error
  interned : e'.Interned g' r P
  kept : ∀ h ∈ e.nodes, h ∈ e'.nodes
  fresh : ∀ n : Nat, g.size ≤ n → n < g'.size → (n : Handle) ∈ e'.nodes
  grown : ∃ new, g.Extends g' new ∧ ∀ p, p ∈ e'.edges ↔ p ∈ e.edges ∨ p ∈ new

theorem addChains_spec (r : Registry) {g : Graph} {e : Entry} {P : Chain → Prop}
    (rest : List (Chain × Int)) (hg : g.Sound) (he : e.Interned g r P)
    (ho : ∀ c ∈ rest, Chain.Ordered c.1.steps) :
    ∃ g' e', addChains r g e rest = (g', e', none) ∧
      Brings r g e (fun c => P c ∨ c ∈ rest.map Prod.fst) g' e' := by
  induction rest generalizing g e P with
  | nil =>
    refine ⟨g, e, rfl, hg, rfl, rfl, ?_, fun _ h => h, ?_, [], .refl g, ?_⟩
    · exact he.congr fun c => by simp
    · intro n hle hlt
      exact absurd hlt (Nat.not_lt.2 hle)
    · simp
  | cons c rest ih =>
    obtain ⟨c, seq⟩ := c
    have ha := Graph.adding_addSteps hg r c.steps seq (ho (c, seq) List.mem_cons_self)
    obtain ⟨g', e', hrest, hb⟩ :=
      ih ha.sound (he.concat ha) fun d hd => ho d (List.mem_cons_of_mem _ hd)
    obtain ⟨new, hext, hnew⟩ := hb.grown
    refine ⟨g', e', ?_, hb.sound, hb.index, hb.error, ?_, ?_, ?_,
      (g.addSteps r c.steps seq).edges ++ new, ?_, ?_⟩
    · unfold addChains
      dsimp only
      rw [ha.fault]
      exact hrest
    · exact hb.interned.congr fun d => by rw [List.map_cons, List.mem_cons, or_assoc]
    · intro h hh
      exact hb.kept h (mem_appendNew.2 (.inl hh))
    · intro n hle hlt
      by_cases hn : n < (g.addSteps r c.steps seq).graph.size
      · exact hb.kept _ (mem_appendNew.2 (.inr (ha.fresh n hle hn)))
      · exact hb.fresh n (Nat.le_of_not_lt hn) hlt
    · exact ha.grown.trans hext fun p => List.mem_append
    · intro p
      rw [hnew, mem_appendNew, List.mem_append, or_assoc]

/-- A construction after some errors: each is in it or left out, the errors in it have the handles
of their requirements, and all nodes and edges are theirs. -/
structure Built (r : Registry) (done : List (LogicalError × Nat)) (b : Construction) : Prop where
  fault : b.fault = none
  sound : b.graph.Sound
  conserved : (b.entries.map (fun e => (e.error, e.index)) ++
    b.failures.map fun f => (f.2.1, f.1)).Perm done
  entries : (b.entries.map fun e => (e.error, e.index)).Sublist done
  failed : ∀ f ∈ b.failures, f.2.1.chains = .ok (.error f.2.2)
  consistent : ∀ e ∈ b.entries, ∃ cs, e.error.chains = .ok (.ok cs)
  represents : ∀ e ∈ b.entries, e.Represents b.graph r
  covered : ∀ n : Nat, n < b.graph.size → ∃ e ∈ b.entries, (n : Handle) ∈ e.nodes
  edges : ∀ (n : Nat) (c : Handle),
    c ∈ b.graph.children n ↔ ∃ e ∈ b.entries, ((n : Handle), c) ∈ e.edges

theorem built_start (r : Registry) : Built r [] start := by
  refine ⟨rfl, Graph.sound_empty, .nil, .slnil, ?_, ?_, ?_, ?_, ?_⟩
  · exact fun f hf => absurd hf List.not_mem_nil
  · exact fun e he => absurd he List.not_mem_nil
  · exact fun e he => absurd he List.not_mem_nil
  · exact fun n hn => absurd hn (Nat.not_lt_zero n)
  · intro n c
    rw [Graph.mem_children]
    simp [start, Graph.empty]

/-- An error whose chains contradict it is left out. -/
theorem Built.leave {r : Registry} {done : List (LogicalError × Nat)} {b : Construction}
    (hb : Built r done b) {e : LogicalError × Nat} {failure : Failure}
    (hchains : e.1.chains = .ok (.error failure)) :
    Built r (done ++ [e]) { b with failures := b.failures ++ [(e.2, e.1, failure)] } := by
  refine ⟨hb.fault, hb.sound, ?_, ?_, ?_, hb.consistent, hb.represents, hb.covered, hb.edges⟩
  · rw [List.map_append, ← List.append_assoc]
    exact hb.conserved.append_right _
  · exact hb.entries.trans (List.sublist_append_left _ _)
  · intro f hf
    rcases List.mem_append.1 hf with hf | hf
    · exact hb.failed f hf
    · rw [List.mem_singleton.1 hf]
      exact hchains

/-- An error whose chains are brought in gets the entry with their handles. -/
theorem Built.grow {r : Registry} {done : List (LogicalError × Nat)} {b : Construction}
    (hb : Built r done b) {e : LogicalError × Nat} {cs : List (Chain × Int)} {g : Graph}
    {entry : Entry} (hchains : e.1.chains = .ok (.ok cs))
    (hbr : Brings r b.graph ⟨e.2, e.1, [], [], []⟩ (fun c => False ∨ c ∈ cs.map Prod.fst) g entry) :
    Built r (done ++ [e]) { b with graph := g, entries := b.entries ++ [entry] } := by
  have hpair : (entry.error, entry.index) = e := by
    rw [hbr.error, hbr.index]
  obtain ⟨new, hext, hnew⟩ := hbr.grown
  refine ⟨hb.fault, hbr.sound, ?_, ?_, hb.failed, ?_, ?_, ?_, ?_⟩
  · rw [List.map_append, List.map_singleton, hpair, List.append_assoc]
    have hmiddle : ([e] ++ b.failures.map fun f => (f.2.1, f.1)).Perm
        ((b.failures.map fun f => (f.2.1, f.1)) ++ [e]) := List.perm_append_comm
    refine (hmiddle.append_left _).trans ?_
    rw [← List.append_assoc]
    exact hb.conserved.append_right _
  · rw [List.map_append, List.map_singleton, hpair]
    exact hb.entries.append (List.Sublist.refl _)
  · intro o ho
    rcases List.mem_append.1 ho with ho | ho
    · exact hb.consistent o ho
    · rw [List.mem_singleton.1 ho, hbr.error]
      exact ⟨cs, hchains⟩
  · intro o ho
    rcases List.mem_append.1 ho with ho | ho
    · exact (hb.represents o ho).mono hbr.sound hext.keys
    · rw [List.mem_singleton.1 ho]
      refine hbr.interned.congr fun c => ?_
      rw [false_or, hbr.error, LogicalError.contributes_iff hchains]
  · intro n hn
    by_cases hold : n < b.graph.size
    · obtain ⟨o, ho, hmem⟩ := hb.covered n hold
      exact ⟨o, List.mem_append_left _ ho, hmem⟩
    · exact ⟨entry, List.mem_append_right _ List.mem_cons_self,
        hbr.fresh n (Nat.le_of_not_lt hold) hn⟩
  · intro n c
    have hedges : ((n : Handle), c) ∈ entry.edges ↔ ((n : Handle), c) ∈ new := by
      rw [hnew]
      simp
    rw [hext.children, hb.edges, ← hedges]
    simp only [List.mem_append, List.mem_singleton, or_and_right, exists_or, exists_eq_left]

theorem Built.step {r : Registry} {done : List (LogicalError × Nat)} {b : Construction}
    (hb : Built r done b) {e : LogicalError × Nat} (hok : ∃ o, e.1.chains = .ok o) :
    Built r (done ++ [e]) (add r b e) := by
  obtain ⟨outcome, hchains⟩ := hok
  have hfault : b.fault.isSome = false := by
    rw [hb.fault]
    rfl
  rw [add, if_neg (Bool.eq_false_iff.1 hfault), hchains]
  cases outcome with
  | error failure => exact hb.leave hchains
  | ok cs =>
    have hshaped : ∀ c ∈ cs, Chain.Ordered c.1.steps := by
      intro c hc
      exact (LogicalError.Contributes.shaped ⟨cs, c.2, hchains, hc⟩).ordered
    have hempty : Entry.Interned b.graph r (fun _ => False) ⟨e.2, e.1, [], [], []⟩ := by
      refine ⟨?_, ?_, ?_, ?_⟩ <;> simp
    obtain ⟨g, entry, hadd, hbr⟩ := addChains_spec r cs hb.sound hempty hshaped
    dsimp only
    rw [hadd]
    exact hb.grow hchains hbr

theorem built_foldl {r : Registry} (es : List (LogicalError × Nat))
    (hok : ∀ e ∈ es, ∃ o, e.1.chains = .ok o) : Built r es (es.foldl (add r) start) := by
  induction es using List.reverseRecOn with
  | nil => exact built_start r
  | append_singleton es e ih =>
    have hinit := ih fun d hd => hok d (List.mem_append_left _ hd)
    rw [List.foldl_append]
    exact hinit.step (hok e (List.mem_append_right _ List.mem_cons_self))

theorem foldl_of_fault {r : Registry} {b : Construction} (es : List (LogicalError × Nat))
    (hb : b.fault ≠ none) : es.foldl (add r) b = b := by
  induction es with
  | nil => rfl
  | cons e es ih =>
    have hadd : add r b e = b := by
      unfold add
      rw [if_pos (Option.isSome_iff_ne_none.2 hb)]
    rw [List.foldl_cons, hadd, ih]

/-- An error that meets a fault stops the construction. -/
theorem chains_of_foldl {r : Registry} {b : Construction} {es : List (LogicalError × Nat)}
    (h : (es.foldl (add r) b).fault = none) : ∀ e ∈ es, ∃ o, e.1.chains = .ok o := by
  induction es generalizing b with
  | nil => exact fun e he => absurd he List.not_mem_nil
  | cons e es ih =>
    rw [List.foldl_cons] at h
    intro d hd
    rcases List.mem_cons.1 hd with rfl | hd
    · cases hchains : d.1.chains with
      | ok o => exact ⟨o, rfl⟩
      | error fault =>
        have hfault : (add r b d).fault ≠ none := by
          unfold add
          split
          · rename_i hb
            exact Option.isSome_iff_ne_none.1 hb
          · rw [hchains]
            nofun
        rw [foldl_of_fault es hfault] at h
        exact absurd h hfault
    · exact ih h d hd

theorem result_ok {b : Construction} {g : GraphBuild} :
    b.result = .ok g ↔
      b.fault = none ∧ g = ⟨b.graph, Grouping.groups b.graph b.entries, b.failures⟩ := by
  unfold result
  cases b.fault with
  | none => simp [eq_comm]
  | some fault => simp

/-- The errors of a ledger in the order in which they were first seen. -/
def queue (errors : List LogicalError) : List (LogicalError × Nat) :=
  errors.zipIdx.mergeSort fun a b => a.1.firstSeen ≤ b.1.firstSeen

theorem perm_queue (errors : List LogicalError) : (queue errors).Perm errors.zipIdx :=
  List.mergeSort_perm _ _

theorem mem_queue {errors : List LogicalError} {e : LogicalError} :
    (∃ i, (e, i) ∈ queue errors) ↔ e ∈ errors := by
  simp only [(perm_queue errors).mem_iff, List.mem_zipIdx_iff_getElem?]
  exact List.mem_iff_getElem?.symm

theorem pairwise_queue (errors : List LogicalError) :
    (queue errors).Pairwise fun a b => a.1.firstSeen ≤ b.1.firstSeen :=
  pairwise_sorted _ _

/-- There is a graph exactly when the chains of no error meet a fault. -/
theorem exists_result_iff {errors : List LogicalError} {r : Registry} :
    (∃ b, (ofErrors errors r).result = .ok b) ↔ ∀ e ∈ errors, ∃ o, e.chains = .ok o := by
  constructor
  · rintro ⟨b, hb⟩ e he
    obtain ⟨i, hi⟩ := mem_queue.2 he
    exact chains_of_foldl (result_ok.1 hb).1 (e, i) hi
  · intro hok
    have hbuilt := built_foldl (r := r) (queue errors) fun e he => hok e.1 (mem_queue.1 ⟨e.2, he⟩)
    exact ⟨_, result_ok.2 ⟨hbuilt.fault, rfl⟩⟩

theorem built_of_result {errors : List LogicalError} {r : Registry} {b : GraphBuild}
    (h : (ofErrors errors r).result = .ok b) :
    Built r (queue errors) (ofErrors errors r) ∧ b.graph = (ofErrors errors r).graph ∧
      b.groups = Grouping.groups b.graph (ofErrors errors r).entries ∧
      b.failures = (ofErrors errors r).failures := by
  obtain ⟨hfault, rfl⟩ := result_ok.1 h
  exact ⟨built_foldl _ (chains_of_foldl hfault), rfl, rfl, rfl⟩

theorem Built.sorted {errors : List LogicalError} {r : Registry} {b : Construction}
    (hb : Built r (queue errors) b) :
    b.entries.Pairwise fun e o => e.error.firstSeen ≤ o.error.firstSeen := by
  have hsub := (pairwise_queue errors).sublist hb.entries
  rw [List.pairwise_map] at hsub
  exact hsub

theorem Built.nodup_index {errors : List LogicalError} {r : Registry} {b : Construction}
    (hb : Built r (queue errors) b) : (b.entries.map Entry.index).Nodup := by
  have hqueue : ((queue errors).map Prod.snd).Nodup := by
    have hperm := (perm_queue errors).map Prod.snd
    rw [List.zipIdx_map_snd] at hperm
    exact hperm.nodup_iff.2 List.nodup_range'
  have hsub := hb.entries.map Prod.snd
  rw [List.map_map] at hsub
  exact hqueue.sublist hsub

end Construction

end TraitTrace
