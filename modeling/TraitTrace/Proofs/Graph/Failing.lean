import TraitTrace.Proofs.Graph.Components

/-! Errors that are left out of the graph. They are those that collided with another error and those
of which a chain has a consumer or provider step of another context. Neither depends on the order or
the numbers of an error's records. -/

namespace TraitTrace

namespace Chain

/-- A chain with a consumer or provider step of known context that differs from the context of its
error, up to blanks. -/
def Disagrees (c : Chain) (context : Option String) : Prop :=
  ∃ expected, context = some expected ∧ ∃ s ∈ c.steps, (s.kind = .consumer ∨ s.kind = .provider) ∧
    ∃ found, s.context = some found ∧ Text.squeeze found.toList ≠ Text.squeeze expected.toList

theorem disagreeing?_eq_some {expected found : String} {s : Step} :
    disagreeing? expected s = some found ↔ (s.kind = .consumer ∨ s.kind = .provider) ∧
      s.context = some found ∧ Text.squeeze found.toList ≠ Text.squeeze expected.toList := by
  unfold disagreeing?
  split
  · rename_i hk
    rw [Option.filter_eq_some_iff, TypeExpr.sameType, Bool.not_eq_true', beq_eq_false_iff_ne]
    exact (and_iff_right hk).symm
  · rename_i hk
    constructor
    · exact nofun
    · exact fun h => absurd h.1 hk

theorem inconsistency?_eq_none {c : Chain} {context : Option String} {place : String} :
    c.inconsistency? context place = none ↔ ¬ c.Disagrees context := by
  cases context with
  | none =>
    refine ⟨fun _ => ?_, fun _ => rfl⟩
    rintro ⟨expected, hexpected, -⟩
    cases hexpected
  | some expected =>
    have hnone : c.inconsistency? (some expected) place = none ↔
        ∀ s ∈ c.steps, disagreeing? expected s = none := by
      rw [inconsistency?, Option.bind_some, Option.map_eq_none_iff, List.findSome?_eq_none_iff]
    rw [hnone]
    constructor
    · rintro hall ⟨expected', heq, s, hs, hk, found, hfound, hne⟩
      cases heq
      have hsome := disagreeing?_eq_some.2 ⟨hk, hfound, hne⟩
      rw [hall s hs] at hsome
      cases hsome
    · intro hagrees s hs
      cases hd : disagreeing? expected s with
      | none => rfl
      | some found =>
        obtain ⟨hk, hfound, hne⟩ := disagreeing?_eq_some.1 hd
        exact absurd ⟨expected, rfl, s, hs, hk, found, hfound, hne⟩ hagrees

end Chain

namespace LogicalError

/-- The chains of an error's diagnostics that can be read. -/
def Reads (e : LogicalError) (c : Chain) : Prop :=
  ∃ fs ∈ e.records.map Record.facts, Chain.ofFacts fs e.context = .ok c

/-- An error that collided, or one of which a chain disagrees with its context. -/
def Fails (e : LogicalError) : Prop :=
  e.collisions ≠ [] ∨ ∃ c, e.Reads c ∧ c.Disagrees e.context

/-- An error that collided, or one of which all chains can be read. -/
def IsReadable (e : LogicalError) : Prop :=
  e.collisions = [] → ∀ fs ∈ e.records.map Record.facts, ∃ c, Chain.ofFacts fs e.context = .ok c

theorem chains_go_agree {e : LogicalError} {rs : List Record} {cs : List (Chain × Int)}
    (h : chains.go e rs = .ok (.ok cs)) :
    ∀ rec ∈ rs, ∀ c, Chain.ofFacts rec.facts e.context = .ok c → ¬ c.Disagrees e.context := by
  induction rs generalizing cs with
  | nil => exact fun rec hrec => absurd hrec List.not_mem_nil
  | cons first rs ih =>
    unfold chains.go at h
    split at h
    · cases h
    · rename_i c hc
      split at h
      · cases h
      · rename_i hnone
        obtain ⟨outcome, hgo, hmap⟩ := map_ok.1 h
        obtain ⟨more, rfl, -⟩ := map_ok.1 hmap
        intro rec hrec d hd
        rcases List.mem_cons.1 hrec with rfl | hrec
        · rw [hc] at hd
          cases hd
          exact Chain.inconsistency?_eq_none.1 hnone
        · exact ih hgo rec hrec d hd

theorem chains_go_disagree {e : LogicalError} {rs : List Record} {failure : Failure}
    (h : chains.go e rs = .ok (.error failure)) :
    ∃ rec ∈ rs, ∃ c, Chain.ofFacts rec.facts e.context = .ok c ∧ c.Disagrees e.context := by
  induction rs with
  | nil => cases h
  | cons first rs ih =>
    unfold chains.go at h
    split at h
    · cases h
    · rename_i c hc
      split at h
      · rename_i hsome
        refine ⟨first, List.mem_cons_self, c, hc, ?_⟩
        by_contra hagrees
        rw [Chain.inconsistency?_eq_none.2 hagrees] at hsome
        cases hsome
      · obtain ⟨outcome, hgo, hmap⟩ := map_ok.1 h
        cases outcome with
        | ok more => cases hmap
        | error failure' =>
          cases hmap
          obtain ⟨rec, hrec, hfound⟩ := ih hgo
          exact ⟨rec, List.mem_cons_of_mem first hrec, hfound⟩

theorem exists_chains_go {e : LogicalError} {rs : List Record}
    (h : ∀ rec ∈ rs, ∃ c, Chain.ofFacts rec.facts e.context = .ok c) :
    ∃ o, chains.go e rs = .ok o := by
  induction rs with
  | nil => exact ⟨_, rfl⟩
  | cons first rs ih =>
    obtain ⟨c, hc⟩ := h first List.mem_cons_self
    obtain ⟨o, ho⟩ := ih fun rec hrec => h rec (List.mem_cons_of_mem first hrec)
    unfold chains.go
    rw [hc]
    dsimp only
    split
    · exact ⟨_, rfl⟩
    · rw [ho]
      exact ⟨_, rfl⟩

/-- An error without a fault is left out exactly when it fails. -/
theorem fails_iff {e : LogicalError} {o : Except Failure (List (Chain × Int))}
    (h : e.chains = .ok o) : e.Fails ↔ ∃ failure, o = .error failure := by
  unfold chains at h
  split at h
  · rename_i key keys hcollisions
    cases h
    refine ⟨fun _ => ⟨_, rfl⟩, fun _ => .inl ?_⟩
    rw [hcollisions]
    exact List.cons_ne_nil _ _
  · rename_i hcollisions
    constructor
    · rintro (hne | ⟨c, ⟨fs, hfs, hc⟩, hdisagrees⟩)
      · exact absurd hcollisions hne
      · cases o with
        | error failure => exact ⟨failure, rfl⟩
        | ok cs =>
          obtain ⟨rec, hrec, rfl⟩ := List.mem_map.1 hfs
          exact absurd hdisagrees (chains_go_agree h rec hrec c hc)
    · rintro ⟨failure, rfl⟩
      obtain ⟨rec, hrec, c, hc, hdisagrees⟩ := chains_go_disagree h
      exact .inr ⟨c, ⟨_, List.mem_map_of_mem hrec, hc⟩, hdisagrees⟩

theorem IsReadable.exists_chains {e : LogicalError} (h : e.IsReadable) :
    ∃ o, e.chains = .ok o := by
  unfold chains
  split
  · exact ⟨_, rfl⟩
  · rename_i hcollisions
    exact exists_chains_go fun rec hrec => h hcollisions _ (List.mem_map_of_mem hrec)

/-- What an error without a fault brings into the graph: nothing if it fails, else all its
chains. -/
theorem contributes_iff_reads {e : LogicalError} (h : ∃ o, e.chains = .ok o) {c : Chain} :
    e.Contributes c ↔ ¬ e.Fails ∧ e.Reads c := by
  obtain ⟨o, ho⟩ := h
  rw [fails_iff ho]
  constructor
  · rintro ⟨cs, seq, hcs, hc⟩
    rw [ho] at hcs
    cases hcs
    refine ⟨nofun, ?_⟩
    obtain ⟨i, hi⟩ := List.getElem?_of_mem hc
    obtain ⟨rec, hrec, hread, -⟩ := forall₂_right (chains_spec ho) hi
    exact ⟨rec.facts, List.mem_map_of_mem (List.mem_of_getElem? hrec), hread⟩
  · rintro ⟨hfine, fs, hfs, hc⟩
    obtain ⟨rec, hrec, rfl⟩ := List.mem_map.1 hfs
    cases o with
    | error failure => exact absurd ⟨failure, rfl⟩ hfine
    | ok cs =>
      obtain ⟨i, hi⟩ := List.getElem?_of_mem hrec
      obtain ⟨⟨d, seq⟩, hd, hread, -⟩ := forall₂_left (chains_spec ho) hi
      rw [hc] at hread
      cases hread
      exact ⟨cs, seq, ho, List.mem_of_getElem? hd⟩

end LogicalError

namespace GraphBuild

/-- The places of the errors that were left out. -/
def failing (b : GraphBuild) : List Nat := b.failures.map Prod.fst

/-- Places of two errors that are reported in one group. -/
def Together (b : GraphBuild) (i j : Nat) : Prop :=
  ∃ g ∈ b.groups, i ∈ g.entries.map Entry.index ∧ j ∈ g.entries.map Entry.index

end GraphBuild

namespace Construction

open Relation

variable {errors : List LogicalError} {r : Registry} {b : GraphBuild}

theorem exists_chains_of_result (h : (ofErrors errors r).result = .ok b) {i : Nat}
    {e : LogicalError} (hi : errors[i]? = some e) : ∃ o, e.chains = .ok o :=
  exists_result_iff.1 ⟨b, h⟩ e (List.mem_of_getElem? hi)

/-- A failure is that of the error at its place. -/
theorem failure_spec (h : (ofErrors errors r).result = .ok b) {f : Nat × LogicalError × Failure}
    (hf : f ∈ b.failures) : errors[f.1]? = some f.2.1 ∧ f.2.1.Fails := by
  obtain ⟨hb, -, -, hfailures⟩ := built_of_result h
  rw [hfailures] at hf
  have hqueue : (f.2.1, f.1) ∈ queue errors :=
    hb.conserved.mem_iff.1 (List.mem_append_right _ (List.mem_map_of_mem hf))
  rw [(perm_queue errors).mem_iff, List.mem_zipIdx_iff_getElem?] at hqueue
  exact ⟨hqueue, (LogicalError.fails_iff (hb.failed f hf)).2 ⟨f.2.2, rfl⟩⟩

theorem fine_of_entry (h : (ofErrors errors r).result = .ok b) {x : Entry}
    (hx : x ∈ (ofErrors errors r).entries) : errors[x.index]? = some x.error ∧ ¬ x.error.Fails := by
  obtain ⟨hb, -⟩ := built_of_result h
  refine ⟨hb.placed hx, fun hfails => ?_⟩
  obtain ⟨cs, hcs⟩ := hb.consistent x hx
  obtain ⟨failure, hfailure⟩ := (LogicalError.fails_iff hcs).1 hfails
  cases hfailure

theorem mem_failing_iff (h : (ofErrors errors r).result = .ok b) {i : Nat} :
    i ∈ b.failing ↔ ∃ e, errors[i]? = some e ∧ e.Fails := by
  obtain ⟨hb, -, -, hfailures⟩ := built_of_result h
  constructor
  · intro hi
    obtain ⟨f, hf, rfl⟩ := List.mem_map.1 hi
    exact ⟨f.2.1, failure_spec h hf⟩
  · rintro ⟨e, hi, hfails⟩
    have hqueue : (e, i) ∈ queue errors := by
      rw [(perm_queue errors).mem_iff, List.mem_zipIdx_iff_getElem?]
      exact hi
    rcases List.mem_append.1 (hb.conserved.mem_iff.2 hqueue) with hmem | hmem
    · obtain ⟨x, hx, heq⟩ := List.mem_map.1 hmem
      cases heq
      exact absurd hfails (fine_of_entry h hx).2
    · obtain ⟨f, hf, heq⟩ := List.mem_map.1 hmem
      cases heq
      rw [GraphBuild.failing, hfailures]
      exact List.mem_map_of_mem hf

/-- Two errors stand in one group exactly when neither fails and a sequence of errors that meet
joins them. -/
theorem together_iff (h : (ofErrors errors r).result = .ok b) {i j : Nat} :
    b.Together i j ↔ (∃ a, errors[i]? = some a ∧ ¬ a.Fails) ∧
      (∃ o, errors[j]? = some o ∧ ¬ o.Fails) ∧
      ReflTransGen (LogicalError.Neighbours errors r) i j := by
  obtain ⟨hb, hgraph, hgroups, -⟩ := built_of_result h
  rw [hgraph] at hgroups
  have hentry : ∀ {g : Group} {e : Entry}, g ∈ b.groups → e ∈ g.entries →
      e ∈ (ofErrors errors r).entries := by
    intro g e hg he
    rw [hgroups] at hg
    exact (Grouping.entries_sublist hg).subset he
  have hexists : ∀ {k : Nat} {e : LogicalError}, errors[k]? = some e → ¬ e.Fails →
      ∃ x ∈ (ofErrors errors r).entries, x.index = k := by
    intro k e hk hfails
    obtain ⟨o, ho⟩ := exists_chains_of_result h hk
    cases o with
    | error failure => exact absurd ((LogicalError.fails_iff ho).2 ⟨failure, rfl⟩) hfails
    | ok cs =>
      obtain ⟨x, hx, hindex, -⟩ := hb.exists_entry hk ho
      exact ⟨x, hx, hindex⟩
  constructor
  · rintro ⟨g, hg, hi, hj⟩
    obtain ⟨x, hx, rfl⟩ := List.mem_map.1 hi
    obtain ⟨y, hy, rfl⟩ := List.mem_map.1 hj
    have hxe := hentry hg hx
    have hye := hentry hg hy
    refine ⟨⟨_, fine_of_entry h hxe⟩, ⟨_, fine_of_entry h hye⟩, ?_⟩
    rw [hgroups] at hg
    rw [← hb.joined_iff hxe hye, ← Grouping.same_group_iff hb.nodup_index hxe hye]
    exact ⟨g, hg, hx, hy⟩
  · rintro ⟨⟨a, ha, haf⟩, ⟨o, ho, hof⟩, hpath⟩
    obtain ⟨x, hx, rfl⟩ := hexists ha haf
    obtain ⟨y, hy, rfl⟩ := hexists ho hof
    rw [← hb.joined_iff hx hy, ← Grouping.same_group_iff hb.nodup_index hx hy, ← hgroups] at hpath
    obtain ⟨g, hg, hxg, hyg⟩ := hpath
    exact ⟨g, hg, List.mem_map_of_mem hxg, List.mem_map_of_mem hyg⟩

end Construction

end TraitTrace
