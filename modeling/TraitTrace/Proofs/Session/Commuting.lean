import Mathlib
import TraitTrace.Proofs.Session.Arrival

/-! The graphs of two orders of arrival. Diagnostics that can be read in one order can be read in
every order; where places and contexts leave no choice of an owner and the lessons do not contradict
each other, the graphs have one signature and divide the diagnostics alike. -/

namespace TraitTrace

namespace GraphBuild

/-- Two diagnostics, by their numbers, that are reported in one group. -/
def Joins (b : GraphBuild) (k l : Int) : Prop :=
  ∃ g ∈ b.groups, (∃ e ∈ g.errors, k ∈ e.records.map Record.seq) ∧
    ∃ e ∈ g.errors, l ∈ e.records.map Record.seq

/-- A diagnostic, by its number, whose error was left out. -/
def LeavesOut (b : GraphBuild) (k : Int) : Prop :=
  ∃ f ∈ b.failures, k ∈ f.2.1.records.map Record.seq

/-- Two graphs with the same keys and edges between them that leave out the same diagnostics and
report the same ones together, each under its number in one of two orders. -/
structure Divides (σ : Equiv.Perm Nat) (b b' : GraphBuild) : Prop where
  keys : ∀ k, k ∈ b.signature.1 ↔ k ∈ b'.signature.1
  edges : ∀ p, p ∈ b.signature.2 ↔ p ∈ b'.signature.2
  leavesOut : ∀ k : Nat, b.LeavesOut k ↔ b'.LeavesOut (σ k)
  joins : ∀ k l : Nat, b.Joins k l ↔ b'.Joins (σ k) (σ l)

end GraphBuild

namespace Construction

variable {es : List LogicalError} {r : Registry} {b : GraphBuild}

theorem joins_iff (h : (ofErrors es r).result = .ok b) {k l : Int} :
    b.Joins k l ↔ ∃ (i j : Nat) (e o : LogicalError), es[i]? = some e ∧ es[j]? = some o ∧
      k ∈ e.records.map Record.seq ∧ l ∈ o.records.map Record.seq ∧ b.Together i j := by
  obtain ⟨hb, hgraph, hgroups, -⟩ := built_of_result h
  have hplaced : ∀ {g : Group} {x : Entry}, g ∈ b.groups → x ∈ g.entries →
      es[x.index]? = some x.error := by
    intro g x hg hx
    rw [hgroups, hgraph] at hg
    exact hb.placed ((Grouping.entries_sublist hg).subset hx)
  constructor
  · rintro ⟨g, hg, ⟨e, he, hk⟩, o, ho, hl⟩
    obtain ⟨x, hx, rfl⟩ := List.mem_map.1 he
    obtain ⟨y, hy, rfl⟩ := List.mem_map.1 ho
    exact ⟨x.index, y.index, x.error, y.error, hplaced hg hx, hplaced hg hy, hk, hl, g, hg,
      List.mem_map_of_mem hx, List.mem_map_of_mem hy⟩
  · rintro ⟨i, j, e, o, hi, hj, hk, hl, g, hg, hig, hjg⟩
    obtain ⟨x, hx, rfl⟩ := List.mem_map.1 hig
    obtain ⟨y, hy, rfl⟩ := List.mem_map.1 hjg
    rw [hplaced hg hx] at hi
    rw [hplaced hg hy] at hj
    cases hi
    cases hj
    exact ⟨g, hg, ⟨_, List.mem_map_of_mem hx, hk⟩, _, List.mem_map_of_mem hy, hl⟩

theorem leavesOut_iff (h : (ofErrors es r).result = .ok b) {k : Int} :
    b.LeavesOut k ↔ ∃ (i : Nat) (e : LogicalError), es[i]? = some e ∧
      k ∈ e.records.map Record.seq ∧ i ∈ b.failing := by
  constructor
  · rintro ⟨f, hf, hk⟩
    exact ⟨f.1, f.2.1, (failure_spec h hf).1, hk, List.mem_map_of_mem hf⟩
  · rintro ⟨i, e, hi, hk, hfails⟩
    obtain ⟨f, hf, rfl⟩ := List.mem_map.1 hfails
    rw [(failure_spec h hf).1] at hi
    cases hi
    exact ⟨f, hf, hk⟩

end Construction

namespace Session

open Construction

variable {σ : Equiv.Perm Nat} {ds ds' : List Diagnostic} {es es' : List LogicalError}
  {r r' : Registry} {b b' : GraphBuild}

theorem Shuffled.readable (h : Shuffled σ ds ds') (hds : Readable ds) : Readable ds' :=
  fun d hd => hds d (h.mem_iff.2 hd)

theorem Readable.ofFacts (h : Readable ds) {rec : Record} (hrec : rec ∈ heldRecords 0 ds) :
    ∃ c, Chain.ofFacts rec.facts none = .ok c := by
  obtain ⟨k, d, hk, hheld, rfl⟩ := mem_heldRecords.1 hrec
  rw [facts_recordOf]
  exact h d (List.mem_of_getElem? hk) hheld

/-- The errors of a run over diagnostics that can be read have a graph. -/
theorem Leaves.exists_result (h : Leaves ds es) (hds : Readable ds) (r : Registry) :
    ∃ b, (ofErrors es r).result = .ok b := by
  refine exists_result_iff.2 fun e he => LogicalError.IsReadable.exists_chains fun _ fs hfs => ?_
  obtain ⟨i, hi⟩ := List.getElem?_of_mem he
  obtain ⟨rec, hrec, rfl⟩ := List.mem_map.1 hfs
  have hcontext : rootContext rec.facts = none ∨ e.context = rootContext rec.facts :=
    ((h.owns e he).context rec hrec).imp id Eq.symm
  obtain ⟨c, hc⟩ := hds.ofFacts (h.mem_held hi hrec)
  obtain ⟨c', hc', -⟩ := exists_of_map_eq (Chain.lessons_ofFacts hcontext).symm hc
  exact ⟨c', hc'⟩

/-- An error that owns a diagnostic has a counterpart that owns it under its other number. -/
theorem Leaves.counterpart (h : Leaves ds es) (h' : Leaves ds' es') (hds : Shuffled σ ds ds')
    {i k : Nat} {e : LogicalError} (hi : es[i]? = some e)
    (hk : (k : Int) ∈ e.records.map Record.seq) :
    ∃ (i' : Nat) (e' : LogicalError), es'[i']? = some e' ∧
      ((σ k : Nat) : Int) ∈ e'.records.map Record.seq ∧ Shares σ es es' i i' := by
  obtain ⟨rec, hrec, hseq⟩ := List.mem_map.1 hk
  obtain ⟨i', e', rec', hi', hrec', himage, hshares⟩ := h.exists_shares h' hds hi hrec
  refine ⟨i', e', hi', ?_, hshares⟩
  obtain ⟨d, m, rfl, rfl⟩ := himage
  obtain rfl : m = k := Int.natCast_inj.1 hseq
  exact List.mem_map_of_mem hrec'

theorem Leaves.joins (h : Leaves ds es) (h' : Leaves ds' es') (hds : Shuffled σ ds ds')
    (hb : (ofErrors es r).result = .ok b) (hb' : (ofErrors es' r').result = .ok b')
    (hagrees : b.Agrees (Shares σ es es') b') {k l : Nat} (hjoins : b.Joins k l) :
    b'.Joins (σ k) (σ l) := by
  obtain ⟨i, j, e, o, hi, hj, hk, hl, htogether⟩ := (joins_iff hb).1 hjoins
  obtain ⟨i', e', hi', hk', hshares⟩ := h.counterpart h' hds hi hk
  obtain ⟨j', o', hj', hl', hshares'⟩ := h.counterpart h' hds hj hl
  exact (joins_iff hb').2 ⟨i', j', e', o', hi', hj', hk', hl',
    (hagrees.together i i' j j' hshares hshares').1 htogether⟩

theorem Leaves.leavesOut (h : Leaves ds es) (h' : Leaves ds' es') (hds : Shuffled σ ds ds')
    (hb : (ofErrors es r).result = .ok b) (hb' : (ofErrors es' r').result = .ok b')
    (hagrees : b.Agrees (Shares σ es es') b') {k : Nat} (hout : b.LeavesOut k) :
    b'.LeavesOut (σ k) := by
  obtain ⟨i, e, hi, hk, hfails⟩ := (leavesOut_iff hb).1 hout
  obtain ⟨i', e', hi', hk', hshares⟩ := h.counterpart h' hds hi hk
  exact (leavesOut_iff hb').2 ⟨i', e', hi', hk', (hagrees.failing i i' hshares).1 hfails⟩

/-- The graphs of two runs over the same diagnostics, with registries that name components alike. -/
theorem Leaves.divides (h : Leaves ds es) (h' : Leaves ds' es') (hds : Shuffled σ ds ds')
    (hp : Record.Placeable (heldRecords 0 ds)) (hr : ∀ s : Step, s.nodeKey r = s.nodeKey r')
    (hb : (ofErrors es r).result = .ok b) (hb' : (ofErrors es' r').result = .ok b') :
    b.Divides σ b' := by
  have hagrees := (h.corresponds h' hds hp).agrees hr hb hb'
  have hback := (h'.corresponds h hds.symm (hds.placeable hp)).agrees (fun s => (hr s).symm) hb' hb
  constructor
  case keys => exact hagrees.keys
  case edges => exact hagrees.edges
  case leavesOut =>
    intro k
    refine ⟨h.leavesOut h' hds hb hb' hagrees, fun hout => ?_⟩
    have hout' := h'.leavesOut h hds.symm hb' hb hback hout
    rwa [σ.symm_apply_apply] at hout'
  case joins =>
    intro k l
    refine ⟨h.joins h' hds hb hb' hagrees, fun hjoins => ?_⟩
    have hjoins' := h'.joins h hds.symm hb' hb hback hjoins
    rwa [σ.symm_apply_apply, σ.symm_apply_apply] at hjoins'

/-- Diagnostics that are taken in without a fault in one order are so in every order. Where each
held one that tells no context has a place at which one context is told at most, and the lessons are
unambiguous, the graphs of the two runs have one signature, leave out the same diagnostics and
report the same ones together. -/
theorem divides_of_shuffled {id id' : String} {cs : List Classification} {s : Session}
    (h : Ingests (start id) ds cs s) (hds : Shuffled σ ds ds')
    (hplaces : Record.Placeable (heldRecords 0 ds))
    (hlessons : Lesson.Unambiguous (ds.flatMap taught)) :
    ∃ cs' s' b b', Ingests (start id') ds' cs' s' ∧ s.build.2.2 = .ok b ∧ s'.build.2.2 = .ok b' ∧
      b.Divides σ b' := by
  obtain ⟨hkeeps, hreadable⟩ := h.keeps keeps_empty
  obtain ⟨cs', s', h'⟩ := exists_ingests (s := start id') rfl (hds.readable hreadable)
  obtain ⟨hkeeps', hreadable'⟩ := h'.keeps keeps_empty
  obtain ⟨b, hb⟩ := h.leaves.exists_result hreadable s.ledger.registry
  obtain ⟨b', hb'⟩ := h'.leaves.exists_result hreadable' s'.ledger.registry
  have hsame : ∀ l, l ∈ [] ++ ds.flatMap taught ↔ l ∈ [] ++ ds'.flatMap taught := by
    intro l
    simp only [List.nil_append, List.mem_flatMap, hds.mem_iff]
  have hkeys : ∀ t : Step, t.nodeKey s.ledger.registry = t.nodeKey s'.ledger.registry :=
    Step.nodeKey_congr (hkeeps.taught.markerFor_congr hkeeps'.taught hsame hlessons)
  exact ⟨cs', s', b, b', h', hb, hb', h.leaves.divides h'.leaves hds hplaces hkeys hb hb'⟩

def useSpan : Span := ⟨"lib.rs", 1, 1, 1, 2, true, 0, 1, none, []⟩

def noteOf (message : String) : Diagnostic := ⟨"note", message, none, [], [], none, none⟩

def served : Fact :=
  .required ⟨"P", "IsProviderFor<M, A>", "required for `P` to implement `IsProviderFor<M, A>`"⟩

def wanted : Fact := .required ⟨"A", "CanX", "required for `A` to implement `CanX`"⟩

def used : Fact :=
  .required ⟨"A", "CanUseComponent<N>", "required for `A` to implement `CanUseComponent<N>`"⟩

/-- A provider below a consumer trait of a context that uses another component. -/
def placedUse : Diagnostic :=
  ⟨"error", "", none, [useSpan],
    [noteOf "required for `P` to implement `IsProviderFor<M, A>`",
      noteOf "required for `A` to implement `CanX`",
      noteOf "required for `A` to implement `CanUseComponent<N>`"], none, none⟩

/-- The provider on its own, at the same place. -/
def loneProvider : Diagnostic :=
  ⟨"error", "", none, [useSpan], [noteOf "required for `P` to implement `IsProviderFor<M, A>`"],
    none, none⟩

theorem classified_placedUse :
    Classification.ofDiagnostic placedUse = ⟨true, [served, wanted, used]⟩ := by cbv

theorem classified_loneProvider :
    Classification.ofDiagnostic loneProvider = ⟨true, [served]⟩ := by cbv

theorem context_placedUse : rootContext [served, wanted, used] = some "A" := by cbv

theorem context_loneProvider : rootContext [served] = none := by cbv

def usePath : Path :=
  [{ Step.providerUse "P" "M" (some "A") [] with parent := some 1 },
    { Step.consumerTrait "A" "CanX" with parent := some 0 }, Step.consumerUse "A" "N"]

theorem path_placedUse : Chain.addRequirements none none none []
    ([served, wanted, used].filterMap Fact.required?).reverse = .ok usePath := by
  have hserved : Contract.classify "IsProviderFor<M, A>" = .providerUse "M" (some "A") [] := by cbv
  have hwanted : Contract.classify "CanX" = .plainTrait "CanX" [] := by cbv
  have hused : Contract.classify "CanUseComponent<N>" = .consumerUse "N" := by cbv
  have hrequired : ([served, wanted, used].filterMap Fact.required?).reverse =
      [⟨"A", "CanUseComponent<N>", "required for `A` to implement `CanUseComponent<N>`"⟩,
        ⟨"A", "CanX", "required for `A` to implement `CanX`"⟩,
        ⟨"P", "IsProviderFor<M, A>", "required for `P` to implement `IsProviderFor<M, A>`"⟩] := rfl
  rw [hrequired]
  simp only [Chain.addRequirements, hserved, hwanted, hused]
  rfl

theorem chain_placedUse : Chain.ofFacts [served, wanted, used] none =
    .ok ⟨some "A", none, usePath.markUnsatisfied.reverse⟩ := by
  have hcontext : (Chain.nonempty? none).or (rootContext [served, wanted, used]) = some "A" :=
    context_placedUse
  have hcheck : ([served, wanted, used].filterMap Fact.requiredBy?).getLast? = none := rfl
  have hsteps : Chain.stepsOf [served, wanted, used] (some "A") none =
      .ok usePath.markUnsatisfied.reverse := by
    change (do
      let p ← Chain.addRequirements none none none []
        ([served, wanted, used].filterMap Fact.required?).reverse
      return p.markUnsatisfied.reverse) = _
    rw [path_placedUse]
    rfl
  rw [Chain.ofFacts, hcontext, hcheck, hsteps]
  rfl

theorem taught_placedUse : taught placedUse = [⟨.consumer, "M", "CanX", .high⟩] := by
  have hlessons : Chain.lessons ⟨some "A", none, usePath.markUnsatisfied.reverse⟩ =
      [⟨.consumer, "M", "CanX", .high⟩] := by cbv
  unfold taught
  rw [classified_placedUse, if_pos rfl, chain_placedUse]
  exact hlessons

theorem chain_loneProvider : (Chain.ofFacts [served] none).map Chain.lessons = .ok [] := by cbv

theorem taught_loneProvider : taught loneProvider = [] := by
  obtain ⟨c, hc, hlessons⟩ := map_ok.1 chain_loneProvider
  unfold taught
  rw [classified_loneProvider, if_pos rfl, hc]
  exact hlessons

theorem readable_example : Readable [placedUse, loneProvider] := by
  intro d hd _
  rcases List.mem_cons.1 hd with rfl | hd
  · rw [classified_placedUse]
    exact ⟨_, chain_placedUse⟩
  · rw [List.mem_singleton.1 hd, classified_loneProvider]
    obtain ⟨c, hc, -⟩ := map_ok.1 chain_loneProvider
    exact ⟨c, hc⟩

theorem placeable_example : Record.Placeable (heldRecords 0 [placedUse, loneProvider]) := by
  have hall : ∀ r ∈ heldRecords 0 [placedUse, loneProvider],
      r.span = some useSpan.location ∧ (r.context = none ∨ r.context = some "A") := by
    intro r hr
    obtain ⟨k, d, hk, -, rfl⟩ := mem_heldRecords.1 hr
    unfold Record.context
    rw [facts_recordOf]
    rcases List.mem_cons.1 (List.mem_of_getElem? hk) with rfl | hd
    · rw [classified_placedUse]
      exact ⟨rfl, .inr context_placedUse⟩
    · obtain rfl := List.mem_singleton.1 hd
      rw [classified_loneProvider]
      exact ⟨rfl, .inl context_loneProvider⟩
  exact .of_one_place hall

theorem unambiguous_example : Lesson.Unambiguous ([placedUse, loneProvider].flatMap taught) := by
  have hlessons : [placedUse, loneProvider].flatMap taught = [⟨.consumer, "M", "CanX", .high⟩] := by
    rw [List.flatMap_cons, List.flatMap_cons, taught_placedUse, taught_loneProvider]
    rfl
  rw [hlessons]
  constructor
  · intro l o hl ho _ _
    rw [List.mem_singleton.1 hl.1, List.mem_singleton.1 ho.1]
  · intro l o hl ho _ _
    rw [List.mem_singleton.1 hl.1.1, List.mem_singleton.1 ho.1.1]

/-- Two diagnostics at one place, of which the second tells no context and the first teaches a
name, in both orders. -/
theorem divides_placedUse_loneProvider : ∃ cs s,
    Ingests (start "run") [placedUse, loneProvider] cs s ∧
    Shuffled (Equiv.swap 0 1) [placedUse, loneProvider] [loneProvider, placedUse] ∧
    Record.Placeable (heldRecords 0 [placedUse, loneProvider]) ∧
    Lesson.Unambiguous ([placedUse, loneProvider].flatMap taught) ∧
    ∃ cs' s' b b', Ingests (start "again") [loneProvider, placedUse] cs' s' ∧
      s.build.2.2 = .ok b ∧ s'.build.2.2 = .ok b' ∧ b.Divides (Equiv.swap 0 1) b' := by
  obtain ⟨cs, s, h⟩ := exists_ingests (s := start "run") rfl readable_example
  have hds : Shuffled (Equiv.swap 0 1) [placedUse, loneProvider] [loneProvider, placedUse] := by
    intro k
    match k with
    | 0 => rw [Equiv.swap_apply_left]; rfl
    | 1 => rw [Equiv.swap_apply_right]; rfl
    | k + 2 => rw [Equiv.swap_apply_of_ne_of_ne (by omega) (by omega)]; rfl
  exact ⟨cs, s, h, hds, placeable_example, unambiguous_example,
    divides_of_shuffled h hds placeable_example unambiguous_example⟩

end Session

end TraitTrace
