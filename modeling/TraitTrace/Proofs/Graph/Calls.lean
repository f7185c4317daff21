import TraitTrace.Proofs.Graph.Construction

/-! What a graph knows of its steps. A graph takes steps, each for a handle, and edges between
handles. A node is told by the first step of its key and has the worst status of all of them, and
two steps have one handle exactly when they have one key. -/

namespace TraitTrace

namespace Status

theorem rank_worse (a b : Status) : (a.worse b).rank = max a.rank b.rank := by
  cases a <;> cases b <;> rfl

theorem worse_eq (a b : Status) : a.worse b = a ∨ a.worse b = b := by
  unfold worse
  split
  · exact .inr rfl
  · exact .inl rfl

theorem eq_unsatisfied_of_le {s : Status} (h : unsatisfied.rank ≤ s.rank) : s = unsatisfied := by
  cases s <;> simp [rank] at h ⊢

end Status

/-- A node as the step that puts it there leaves it. -/
structure Node.Begins (n : Node) (r : Registry) (s : Step) (seq : Int) : Prop where
  component : s.component r = .ok n.component
  kind : n.kind = s.kind
  context : n.context = s.context
  marker : n.marker = s.marker
  contract : n.contract = s.contract
  field : n.field = s.field
  status : n.status = s.status
  seq : n.seq = seq
  links : n.links = []

/-- A node of the steps that came for its key. -/
structure Node.Gathers (r : Registry) (steps : List Step) (n : Node) : Prop where
  first : ∃ s ∈ steps, s.nodeKey r = .ok n.key ∧ s.kind = n.kind ∧ s.context = n.context ∧
    s.field = n.field
  rank_le : ∀ s ∈ steps, s.nodeKey r = .ok n.key → s.status.rank ≤ n.status.rank
  worst : ∃ s ∈ steps, s.nodeKey r = .ok n.key ∧ s.status = n.status

namespace Node.Gathers

variable {r : Registry} {steps : List Step} {n : Node} {s : Step}

theorem other (h : n.Gathers r steps) (hs : s.nodeKey r ≠ .ok n.key) :
    n.Gathers r (steps ++ [s]) := by
  obtain ⟨t, ht, hfirst⟩ := h.first
  obtain ⟨w, hw, hworst⟩ := h.worst
  refine ⟨⟨t, List.mem_append_left _ ht, hfirst⟩, fun u hu hk => ?_,
    ⟨w, List.mem_append_left _ hw, hworst⟩⟩
  rcases List.mem_append.1 hu with hu | hu
  · exact h.rank_le u hu hk
  · rw [List.mem_singleton.1 hu] at hk
    exact absurd hk hs

theorem meet (h : n.Gathers r steps) (seq : Int) (hs : s.nodeKey r = .ok n.key) :
    (n.meet s seq).Gathers r (steps ++ [s]) := by
  obtain ⟨t, ht, hfirst⟩ := h.first
  have hrank : (n.meet s seq).status.rank = max n.status.rank s.status.rank :=
    Status.rank_worse n.status s.status
  refine ⟨⟨t, List.mem_append_left _ ht, hfirst⟩, fun u hu hk => ?_, ?_⟩
  · rw [hrank]
    rcases List.mem_append.1 hu with hu | hu
    · exact Nat.le_trans (h.rank_le u hu hk) (Nat.le_max_left _ _)
    · rw [List.mem_singleton.1 hu]
      exact Nat.le_max_right _ _
  · rcases Status.worse_eq n.status s.status with hold | hnew
    · obtain ⟨w, hw, hk, hstatus⟩ := h.worst
      exact ⟨w, List.mem_append_left _ hw, hk, hstatus.trans hold.symm⟩
    · exact ⟨s, List.mem_append_right _ List.mem_cons_self, hs, hnew.symm⟩

theorem link (h : n.Gathers r steps) (child : Handle) (seq : Int) (rank : Nat) :
    (n.link child seq rank).Gathers r steps := by
  unfold Node.link
  split <;> exact ⟨h.first, h.rank_le, h.worst⟩

end Node.Gathers

namespace Graph

/-- Bringing in a step leads to the one node of its key or puts a new one at the end. -/
theorem intern_cases {g g' : Graph} {r : Registry} {s : Step} {seq : Int} {h : Handle}
    (hi : g.intern r s seq = .ok (g', h)) :
    ∃ k, s.nodeKey r = .ok k ∧
      ((∃ (i : Nat) (n : Node), h = i ∧ g.nodes[i]? = some n ∧ n.key = k ∧
          g' = ⟨g.nodes.modify i fun n => n.meet s seq, g.edgeCount⟩) ∨
        ((∀ n ∈ g.nodes, n.key ≠ k) ∧ h = (g.nodes.length : Int) ∧
          ∃ n : Node, g' = ⟨g.nodes ++ [n], g.edgeCount⟩ ∧ n.key = k ∧ n.Begins r s seq)) := by
  unfold intern at hi
  obtain ⟨k, hk, hi⟩ := bind_ok.1 hi
  refine ⟨k, hk, ?_⟩
  split at hi
  · rename_i i hfind
    obtain ⟨hlt, hkey, -⟩ := List.findIdx?_eq_some_iff_getElem.1 hfind
    cases hi
    exact .inl ⟨i, _, rfl, List.getElem?_eq_getElem hlt, of_decide_eq_true hkey, rfl⟩
  · rename_i hfind
    obtain ⟨component, hcomponent, hi⟩ := bind_ok.1 hi
    cases hi
    refine .inr ⟨fun n hn => ?_, rfl, _, rfl, rfl,
      ⟨hcomponent, rfl, rfl, rfl, rfl, rfl, rfl, rfl, rfl⟩⟩
    exact of_decide_eq_false (List.findIdx?_eq_none_iff.1 hfind n hn)

theorem link_cases {g g' : Graph} {parent child : Handle} {seq : Int}
    (hl : g.link parent child seq = .ok g') :
    ∃ i rank count, g' = ⟨g.nodes.modify i fun n => n.link child seq rank, count⟩ := by
  unfold link at hl
  split at hl
  · cases hl
  · cases hl
    exact ⟨_, _, _, rfl⟩

/-- A graph after some calls: the steps that it took, with their handles, and edges. -/
inductive Takes (r : Registry) (g : Graph) : List (Step × Handle) → Graph → Prop
  | nil : Takes r g [] g
  | step {calls : List (Step × Handle)} {g' g'' : Graph} {s : Step} {seq : Int} {h : Handle} :
      Takes r g calls g' → g'.intern r s seq = .ok (g'', h) → Takes r g (calls ++ [(s, h)]) g''
  | edge {calls : List (Step × Handle)} {g' g'' : Graph} {parent child : Handle} {seq : Int} :
      Takes r g calls g' → g'.link parent child seq = .ok g'' → Takes r g calls g''

theorem Takes.trans {r : Registry} {g g' g'' : Graph} {calls more : List (Step × Handle)}
    (h : Takes r g calls g') (h' : Takes r g' more g'') : Takes r g (calls ++ more) g'' := by
  induction h' with
  | nil =>
    rw [List.append_nil]
    exact h
  | step _ hi ih =>
    rw [← List.append_assoc]
    exact ih.step hi
  | edge _ hl ih => exact ih.edge hl

/-- A graph that has what its calls gave: a node for each step, and in each node its steps. -/
structure Collected (r : Registry) (calls : List (Step × Handle)) (g : Graph) : Prop where
  sound : g.Sound
  placed : ∀ c ∈ calls, ∃ k, c.1.nodeKey r = .ok k ∧ g.At c.2 k
  nodes : ∀ n ∈ g.nodes, n.Gathers r (calls.map Prod.fst)

theorem collected_empty (r : Registry) : empty.Collected r [] :=
  ⟨sound_empty, fun _ h => absurd h List.not_mem_nil, fun _ h => absurd h List.not_mem_nil⟩

section Intern

variable {r : Registry} {calls : List (Step × Handle)} {g : Graph} {s : Step} {seq : Int}

/-- Handles of earlier steps keep their keys, and the new handle has the key of the new step. -/
theorem Collected.placed_concat {g' : Graph} {h : Handle} {k : NodeKey} (hg : g.Collected r calls)
    (hk : s.nodeKey r = .ok k) (hkeys : g.keys <+: g'.keys) (hat : g'.At h k) :
    ∀ c ∈ calls ++ [(s, h)], ∃ k, c.1.nodeKey r = .ok k ∧ g'.At c.2 k := by
  intro c hc
  rcases List.mem_append.1 hc with hc | hc
  · obtain ⟨k', hk', hat'⟩ := hg.placed c hc
    exact ⟨k', hk', hat'.mono hkeys⟩
  · rw [List.mem_singleton.1 hc]
    exact ⟨k, hk, hat⟩

theorem Collected.known {i : Nat} {n : Node} (hg : g.Collected r calls) (hn : g.nodes[i]? = some n)
    (hk : s.nodeKey r = .ok n.key) :
    Collected r (calls ++ [(s, (i : Handle))])
      ⟨g.nodes.modify i fun n => n.meet s seq, g.edgeCount⟩ := by
  obtain ⟨hsound, hkeys⟩ := hg.sound.modify i g.edgeCount (f := fun n => n.meet s seq)
    (fun _ => rfl) (fun _ => rfl)
  have hplace : g.At (i : Int) n.key := ⟨i, rfl, getElem?_keys.2 ⟨n, hn, rfl⟩⟩
  have hprefix : g.keys <+: keys ⟨g.nodes.modify i fun n => n.meet s seq, g.edgeCount⟩ :=
    ⟨[], (List.append_nil _).trans hkeys.symm⟩
  refine ⟨hsound, hg.placed_concat hk hprefix (hplace.mono hprefix), fun o ho => ?_⟩
  rw [List.map_append, List.map_singleton]
  obtain ⟨j, hj⟩ := List.getElem?_of_mem ho
  rcases getElem?_modified hj with ⟨rfl, m, hm, rfl⟩ | ⟨hne, hm⟩
  · rw [hn] at hm
    cases hm
    exact (hg.nodes n (List.mem_of_getElem? hn)).meet seq hk
  · refine (hg.nodes o (List.mem_of_getElem? hm)).other fun hsame => hne ?_
    rw [hk] at hsame
    have hkey : g.At (j : Int) n.key :=
      ⟨j, rfl, getElem?_keys.2 ⟨o, hm, (Except.ok.inj hsame).symm⟩⟩
    exact Int.natCast_inj.1 (hg.sound.handle_unique hkey hplace)

theorem Collected.fresh {n : Node} (hg : g.Collected r calls)
    (hnew : ∀ o ∈ g.nodes, o.key ≠ n.key) (hk : s.nodeKey r = .ok n.key)
    (hbegins : n.Begins r s seq) :
    Collected r (calls ++ [(s, (g.nodes.length : Handle))]) ⟨g.nodes ++ [n], g.edgeCount⟩ := by
  have hkeys : g.keys <+: keys ⟨g.nodes ++ [n], g.edgeCount⟩ := by
    rw [keys, keys, List.map_append]
    exact List.prefix_append _ _
  refine ⟨hg.sound.append hnew (hbegins.kind.trans (Step.kind_nodeKey hk).symm),
    hg.placed_concat hk hkeys ⟨g.nodes.length, rfl, ?_⟩, fun o ho => ?_⟩
  · exact getElem?_keys.2 ⟨n, List.getElem?_concat_length, rfl⟩
  · rw [List.map_append, List.map_singleton]
    rcases List.mem_append.1 ho with ho | ho
    · refine (hg.nodes o ho).other fun hsame => hnew o ho ?_
      rw [hk] at hsame
      exact (Except.ok.inj hsame).symm
    · have hlast : s ∈ calls.map Prod.fst ++ [s] := List.mem_append_right _ List.mem_cons_self
      rw [List.mem_singleton.1 ho]
      refine ⟨⟨s, hlast, hk, hbegins.kind.symm, hbegins.context.symm, hbegins.field.symm⟩,
        fun t ht hkt => ?_,
        ⟨s, hlast, hk, hbegins.status.symm⟩⟩
      rcases List.mem_append.1 ht with ht | ht
      · -- A step of this key would have a node already.
        obtain ⟨c, hc, rfl⟩ := List.mem_map.1 ht
        obtain ⟨k, hck, j, -, hj⟩ := hg.placed c hc
        obtain ⟨m, hm, rfl⟩ := getElem?_keys.1 hj
        rw [hkt] at hck
        exact absurd (Except.ok.inj hck).symm (hnew m (List.mem_of_getElem? hm))
      · have hsame : t = s := List.mem_singleton.1 ht
        exact Nat.le_of_eq (by rw [hsame, hbegins.status])

theorem Collected.intern {g' : Graph} {h : Handle} (hg : g.Collected r calls)
    (hi : g.intern r s seq = .ok (g', h)) : g'.Collected r (calls ++ [(s, h)]) := by
  obtain ⟨k, hk, ⟨i, n, rfl, hn, rfl, rfl⟩ | ⟨hnew, rfl, n, rfl, rfl, hbegins⟩⟩ := intern_cases hi
  · exact hg.known hn hk
  · exact hg.fresh hnew hk hbegins

end Intern

theorem Collected.link {r : Registry} {calls : List (Step × Handle)} {g g' : Graph}
    {parent child : Handle} {seq : Int} (hg : g.Collected r calls)
    (hl : g.link parent child seq = .ok g') : g'.Collected r calls := by
  obtain ⟨i, rank, count, rfl⟩ := link_cases hl
  obtain ⟨hsound, hkeys⟩ := hg.sound.modify i count (f := fun n => n.link child seq rank)
    (fun n => n.key_link child seq rank) (fun n => n.kind_link child seq rank)
  refine ⟨hsound, fun c hc => ?_, fun o ho => ?_⟩
  · obtain ⟨k, hk, hat⟩ := hg.placed c hc
    exact ⟨k, hk, hat.mono ⟨[], (List.append_nil _).trans hkeys.symm⟩⟩
  · obtain ⟨j, hj⟩ := List.getElem?_of_mem ho
    rcases getElem?_modified hj with ⟨-, n, hn, rfl⟩ | ⟨-, hn⟩
    · exact (hg.nodes n (List.mem_of_getElem? hn)).link child seq rank
    · exact hg.nodes o (List.mem_of_getElem? hn)

/-- Every graph that grew by calls has what they gave. -/
theorem Takes.collected {r : Registry} {calls : List (Step × Handle)} {g : Graph}
    (h : Takes r empty calls g) : g.Collected r calls := by
  induction h with
  | nil => exact collected_empty r
  | step _ hi ih => exact ih.intern hi
  | edge _ hl ih => exact ih.link hl

/-- Steps have one handle exactly when they have one key. -/
theorem Collected.handle_eq_iff {r : Registry} {calls : List (Step × Handle)} {g : Graph}
    (hg : g.Collected r calls) {s t : Step} {h i : Handle} (hs : (s, h) ∈ calls)
    (ht : (t, i) ∈ calls) : h = i ↔ s.nodeKey r = t.nodeKey r := by
  obtain ⟨k, hk, hat⟩ := hg.placed (s, h) hs
  obtain ⟨k', hk', hat'⟩ := hg.placed (t, i) ht
  rw [hk, hk']
  constructor
  · rintro rfl
    rw [hat.key_unique hat']
  · intro heq
    rw [← Except.ok.inj heq] at hat'
    exact hg.sound.handle_unique hat hat'

theorem takes_addStep {r : Registry} {g : Graph} {calls : List (Step × Handle)} {a : Added}
    (h : Takes r g calls a.graph) (seq : Int) (s : Step) :
    ∃ calls', Takes r g calls' (addStep r seq a s).graph ∧ ((addStep r seq a s).fault = none →
      a.fault = none ∧ calls'.map Prod.fst = calls.map Prod.fst ++ [s]) := by
  unfold addStep
  split
  · rename_i hfault
    refine ⟨calls, h, fun hnone => ?_⟩
    rw [hnone] at hfault
    cases hfault
  · rename_i hfault
    have hnone : a.fault = none := Option.not_isSome_iff_eq_none.1 hfault
    split
    · exact ⟨calls, h, nofun⟩
    · rename_i g' i hi
      have hstep := h.step hi
      have hsteps : (calls ++ [(s, i)]).map Prod.fst = calls.map Prod.fst ++ [s] := by
        rw [List.map_append, List.map_singleton]
      dsimp only
      split
      · exact ⟨_, hstep, fun _ => ⟨hnone, hsteps⟩⟩
      · split
        · exact ⟨_, hstep, nofun⟩
        · split
          · exact ⟨_, hstep, fun _ => ⟨hnone, hsteps⟩⟩
          · split
            · exact ⟨_, hstep, nofun⟩
            · rename_i hl
              exact ⟨_, hstep.edge hl, fun _ => ⟨hnone, hsteps⟩⟩

theorem takes_addSteps (g : Graph) (r : Registry) (steps : List Step) (seq : Int) :
    ∃ calls, Takes r g calls (g.addSteps r steps seq).graph ∧
      ((g.addSteps r steps seq).fault = none → calls.map Prod.fst = steps) := by
  induction steps using List.reverseRecOn with
  | nil => exact ⟨[], .nil, fun _ => rfl⟩
  | append_singleton steps s ih =>
    obtain ⟨calls, hcalls, hsteps⟩ := ih
    obtain ⟨calls', hcalls', hlast⟩ := takes_addStep hcalls seq s
    unfold addSteps
    rw [List.foldl_append]
    refine ⟨calls', hcalls', fun hnone => ?_⟩
    obtain ⟨hinit, hmap⟩ := hlast hnone
    rw [hmap, hsteps hinit]

end Graph

namespace Construction

open TraitTrace.Graph

theorem takes_addChains {r : Registry} {g g' : Graph} {e e' : Entry} {cs : List (Chain × Int)}
    (h : addChains r g e cs = (g', e', none)) :
    ∃ calls, Takes r g calls g' ∧ calls.map Prod.fst = cs.flatMap fun c => c.1.steps := by
  induction cs generalizing g e with
  | nil =>
    cases h
    exact ⟨[], .nil, rfl⟩
  | cons c cs ih =>
    obtain ⟨c, seq⟩ := c
    obtain ⟨calls, hcalls, hsteps⟩ := takes_addSteps g r c.steps seq
    unfold addChains at h
    dsimp only at h
    split at h
    · cases h
    · rename_i hnone
      obtain ⟨more, hmore, hrest⟩ := ih h
      refine ⟨calls ++ more, hcalls.trans hmore, ?_⟩
      rw [List.map_append, hsteps hnone, hrest, List.flatMap_cons]

theorem takes_add {r : Registry} {b : Construction} {e : LogicalError × Nat}
    (h : (add r b e).fault = none) :
    b.fault = none ∧ ∃ calls, Takes r b.graph calls (add r b e).graph ∧
      ∀ s, s ∈ calls.map Prod.fst ↔ ∃ c, e.1.Contributes c ∧ s ∈ c.steps := by
  unfold add at h ⊢
  split at h
  · rename_i hfault
    rw [h] at hfault
    cases hfault
  · rename_i hfault
    refine ⟨Option.not_isSome_iff_eq_none.1 hfault, ?_⟩
    rw [if_neg hfault]
    split at h
    · cases h
    · rename_i failure hchains
      refine ⟨[], .nil, fun s => ⟨fun hs => absurd hs List.not_mem_nil, ?_⟩⟩
      rintro ⟨c, ⟨cs, seq, hcs, -⟩, -⟩
      rw [hchains] at hcs
      cases hcs
    · rename_i cs hchains
      split at h
      · cases h
      · rename_i hadd
        obtain ⟨calls, hcalls, hsteps⟩ := takes_addChains hadd
        refine ⟨calls, hcalls, fun s => ?_⟩
        rw [hsteps, List.mem_flatMap]
        constructor
        · rintro ⟨⟨c, seq⟩, hc, hs⟩
          exact ⟨c, ⟨cs, seq, hchains, hc⟩, hs⟩
        · rintro ⟨c, hc, hs⟩
          obtain ⟨p, hp, rfl⟩ := List.mem_map.1 ((LogicalError.contributes_iff hchains).1 hc)
          exact ⟨p, hp, hs⟩

theorem takes_foldl {r : Registry} {es : List (LogicalError × Nat)}
    (h : (es.foldl (add r) start).fault = none) :
    ∃ calls, Takes r empty calls (es.foldl (add r) start).graph ∧
      ∀ s, s ∈ calls.map Prod.fst ↔ ∃ e ∈ es, ∃ c, e.1.Contributes c ∧ s ∈ c.steps := by
  induction es using List.reverseRecOn with
  | nil =>
    refine ⟨[], .nil, fun s => ⟨fun hs => absurd hs List.not_mem_nil, ?_⟩⟩
    rintro ⟨e, he, -⟩
    exact absurd he List.not_mem_nil
  | append_singleton es e ih =>
    rw [List.foldl_append] at h ⊢
    obtain ⟨hinit, more, hmore, hlast⟩ := takes_add h
    obtain ⟨calls, hcalls, hsteps⟩ := ih hinit
    refine ⟨calls ++ more, hcalls.trans hmore, fun s => ?_⟩
    rw [List.map_append, List.mem_append, hsteps, hlast]
    simp only [List.mem_append, List.mem_singleton, or_and_right, exists_or, exists_eq_left]

/-- The graph of errors took the steps of their chains and no others. -/
theorem takes_of_result {errors : List LogicalError} {r : Registry} {b : GraphBuild}
    (h : (ofErrors errors r).result = .ok b) :
    ∃ calls, Takes r empty calls b.graph ∧
      ∀ s, s ∈ calls.map Prod.fst ↔ ∃ e ∈ errors, ∃ c, e.Contributes c ∧ s ∈ c.steps := by
  obtain ⟨hfault, rfl⟩ := result_ok.1 h
  have hqueue : ((queue errors).foldl (add r) start).fault = none := hfault
  obtain ⟨calls, hcalls, hsteps⟩ := takes_foldl hqueue
  refine ⟨calls, hcalls, fun s => ?_⟩
  rw [hsteps]
  constructor
  · rintro ⟨e, he, hc⟩
    exact ⟨e.1, mem_queue.1 ⟨e.2, he⟩, hc⟩
  · rintro ⟨e, he, hc⟩
    obtain ⟨i, hi⟩ := mem_queue.2 he
    exact ⟨(e, i), hi, hc⟩

end Construction

end TraitTrace
