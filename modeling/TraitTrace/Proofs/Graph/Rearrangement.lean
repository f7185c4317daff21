import Mathlib.Logic.Equiv.Defs
import TraitTrace.Proofs.Graph.Correspondence

/-! Errors in another order. The order of the errors, their numbers and the order of their records
settle the handles and the order of what is reported, but not which errors are left out, the
signature of the graph or its groups; and an error that is left out leaves no trace. -/

namespace TraitTrace

namespace LogicalError

/-- The same error with its records in another order and under any numbers. -/
structure Reordered (a b : LogicalError) : Prop where
  context : a.context = b.context
  collisions : a.collisions = b.collisions
  facts : (a.records.map Record.facts).Perm (b.records.map Record.facts)

theorem Reordered.refl (a : LogicalError) : a.Reordered a := ⟨rfl, rfl, .refl _⟩

theorem Reordered.alike {a b : LogicalError} (h : a.Reordered b) : a.Alike b :=
  ⟨h.context, by rw [h.collisions], fun _ => h.facts.mem_iff⟩

instance (e : LogicalError) : Decidable e.Fails :=
  decidable_of_iff (e.collisions ≠ [] ∨ ∃ fs ∈ e.records.map Record.facts,
      ∃ c, (Chain.ofFacts fs e.context).toOption = some c ∧ c.inconsistency? e.context "" ≠ none) (by
    have hsome : ∀ {fs : List Fact} {c : Chain}, (Chain.ofFacts fs e.context).toOption = some c ↔
        Chain.ofFacts fs e.context = .ok c := by
      intro fs c
      cases Chain.ofFacts fs e.context <;> simp [Except.toOption]
    simp only [Fails, Reads, hsome, ne_eq, Chain.inconsistency?_eq_none, not_not]
    apply or_congr_right
    constructor
    · rintro ⟨fs, hfs, c, hc, hd⟩
      exact ⟨c, ⟨fs, hfs, hc⟩, hd⟩
    · rintro ⟨c, ⟨fs, hfs, hc⟩, hd⟩
      exact ⟨fs, hfs, c, hc, hd⟩)

end LogicalError

namespace Construction

/-- Errors in another order, each with its records in another order: `σ` says where each went. -/
def Rearranged (σ : Equiv.Perm Nat) (es es' : List LogicalError) : Prop :=
  ∀ i, Option.Rel LogicalError.Reordered es[i]? es'[σ i]?

variable {es es' : List LogicalError} {σ : Equiv.Perm Nat}

theorem Rearranged.corresponds (h : Rearranged σ es es') :
    Corresponds (fun i i' => σ i = i') es es' := by
  have halike : ∀ i, Option.Rel LogicalError.Alike es[i]? es'[σ i]? := by
    intro i
    have hrel := h i
    generalize es[i]? = o, es'[σ i]? = o' at hrel
    cases hrel with
    | some hreordered => exact .some hreordered.alike
    | none => exact .none
  refine ⟨?_, ?_, ?_, fun i _ _ _ => ⟨σ i, rfl⟩, fun i' _ _ _ => ⟨σ.symm i', σ.apply_symm_apply i'⟩⟩
  · rintro i j k rfl rfl
    rfl
  · rintro i j k rfl hj
    exact (σ.injective hj).symm
  · rintro i i' rfl
    exact halike i

/-- The places of the errors that do not fail. -/
def remaining (es : List LogicalError) : List Nat :=
  (es.zipIdx.filter fun p => ¬ p.1.Fails).map Prod.snd

theorem getElem?_remaining {i j : Nat} : (remaining es)[j]? = some i ↔
    ∃ e, (es.zipIdx.filter fun p => ¬ p.1.Fails)[j]? = some (e, i) := by
  rw [remaining, List.getElem?_map, Option.map_eq_some_iff]
  constructor
  · rintro ⟨⟨e, i⟩, hj, rfl⟩
    exact ⟨e, hj⟩
  · rintro ⟨e, hj⟩
    exact ⟨(e, i), hj, rfl⟩

theorem filter_eq_map_fst (es : List LogicalError) :
    (es.filter fun e => ¬ e.Fails) = (es.zipIdx.filter fun p => ¬ p.1.Fails).map Prod.fst := by
  conv_lhs => rw [← List.zipIdx_map_fst 0 es, List.filter_map]
  rfl

theorem corresponds_remaining (es : List LogicalError) :
    Corresponds (fun i j => (remaining es)[j]? = some i) es (es.filter fun e => ¬ e.Fails) := by
  have hnodup : (remaining es).Nodup := by
    have hsub := (List.filter_sublist (l := es.zipIdx) (p := fun p => ¬ p.1.Fails)).map Prod.snd
    rw [List.zipIdx_map_snd] at hsub
    exact List.Nodup.sublist hsub List.nodup_range'
  refine ⟨?_, ?_, ?_, ?_, ?_⟩
  · intro i j k hj hk
    exact (List.getElem?_inj (lt_length_of_getElem? hj) hnodup).1 (hj.trans hk.symm)
  · intro i j k hi hj
    rw [hi] at hj
    exact Option.some.inj hj
  · intro i j hij
    obtain ⟨e, he⟩ := getElem?_remaining.1 hij
    have hmem := (List.mem_filter.1 (List.mem_of_getElem? he)).1
    rw [List.mem_zipIdx_iff_getElem?.1 hmem, filter_eq_map_fst, List.getElem?_map, he]
    exact .some (LogicalError.Reordered.refl e).alike
  · intro i e hi hfine
    have hmem : (e, i) ∈ es.zipIdx.filter fun p => ¬ p.1.Fails :=
      List.mem_filter.2 ⟨List.mem_zipIdx_iff_getElem?.2 hi, decide_eq_true hfine⟩
    obtain ⟨j, hj⟩ := List.getElem?_of_mem hmem
    exact ⟨j, getElem?_remaining.2 ⟨e, hj⟩⟩
  · intro j e hj _
    rw [filter_eq_map_fst, List.getElem?_map, Option.map_eq_some_iff] at hj
    obtain ⟨⟨e, i⟩, hj, rfl⟩ := hj
    exact ⟨i, getElem?_remaining.2 ⟨e, hj⟩⟩

variable {r : Registry} {b : GraphBuild}

theorem together_self_iff (h : (ofErrors es r).result = .ok b) {i : Nat} :
    b.Together i i ↔ ∃ e, es[i]? = some e ∧ ¬ e.Fails := by
  rw [together_iff h]
  exact ⟨fun hi => hi.1, fun hi => ⟨hi, hi, .refl⟩⟩

theorem Rearranged.isReadable (h : Rearranged σ es es') (hes : ∀ e ∈ es, e.IsReadable) :
    ∀ e ∈ es', e.IsReadable := by
  intro e' he'
  obtain ⟨i', hi'⟩ := List.getElem?_of_mem he'
  have hrel := h (σ.symm i')
  rw [σ.apply_symm_apply, hi'] at hrel
  cases hi : es[σ.symm i']? with
  | none =>
    rw [hi] at hrel
    cases hrel
  | some e =>
    rw [hi] at hrel
    cases hrel with
    | some hreordered =>
      exact hreordered.alike.isReadable_iff.1 (hes e (List.mem_of_getElem? hi))

/-- An error that does not read is stopped by the record that does not, once that comes first. -/
theorem isReadable_of_rearranged {e : LogicalError} {i : Nat} (hi : es[i]? = some e)
    (h : ∀ σ es', Rearranged σ es es' → ∃ b, (ofErrors es' r).result = .ok b) : e.IsReadable := by
  intro hcollisions fs hfs
  obtain ⟨rec, hrec, rfl⟩ := List.mem_map.1 hfs
  obtain ⟨before, after, hsplit⟩ := List.append_of_mem hrec
  have hmoved : Rearranged (Equiv.refl Nat) es
      (es.set i { e with records := rec :: (before ++ after), facts := _, facts_eq := rfl }) := by
    intro j
    rw [Equiv.refl_apply]
    by_cases hj : i = j
    · subst hj
      rw [hi, List.getElem?_set_self (lt_length_of_getElem? hi)]
      refine .some ⟨rfl, rfl, ?_⟩
      rw [hsplit]
      exact List.perm_middle.map Record.facts
    · rw [List.getElem?_set_ne hj]
      cases es[j]? with
      | none => exact .none
      | some o => exact .some (.refl o)
  obtain ⟨o, ho⟩ := exists_result_iff.1 (h _ _ hmoved) _ (List.mem_set (lt_length_of_getElem? hi) _)
  unfold LogicalError.chains at ho
  simp only [hcollisions] at ho
  unfold LogicalError.chains.go at ho
  cases hread : Chain.ofFacts rec.facts e.context with
  | ok c => exact ⟨c, rfl⟩
  | error fault =>
    rw [hread] at ho
    cases ho

/-- For any names of components, whatever the order of errors and of their records is, and whatever
their numbers are: the same errors are left out, namely those that fail, the signature is the same
and the other errors are in the same groups, with or without the ones that fail. Every order has a
graph exactly when the chains of all errors without a collision can be read. -/
theorem result_of_rearranged (es : List LogicalError) (r : Registry) :
    (∀ b, (ofErrors es r).result = .ok b →
      (∀ i, i ∈ b.failing ↔ ∃ e, es[i]? = some e ∧ e.Fails) ∧
      (∀ i, b.Together i i ↔ ∃ e, es[i]? = some e ∧ ¬ e.Fails) ∧
      (∀ σ es' b', Rearranged σ es es' → (ofErrors es' r).result = .ok b' →
        b.Agrees (fun i i' => σ i = i') b') ∧
      ∃ b', (ofErrors (es.filter fun e => ¬ e.Fails) r).result = .ok b' ∧ b'.failures = [] ∧
        b.Agrees (fun i j => (remaining es)[j]? = some i) b') ∧
    ((∀ σ es', Rearranged σ es es' → ∃ b, (ofErrors es' r).result = .ok b) ↔
      ∀ e ∈ es, e.IsReadable) := by
  constructor
  · intro b hb
    refine ⟨fun i => mem_failing_iff hb, fun i => together_self_iff hb, ?_, ?_⟩
    · intro σ es' b' hrearranged hb'
      exact hrearranged.corresponds.agrees (fun _ => rfl) hb hb'
    · obtain ⟨b', hb'⟩ := exists_result_iff.2 fun e he =>
        exists_result_iff.1 ⟨b, hb⟩ e (List.mem_filter.1 he).1
      refine ⟨b', hb', ?_, (corresponds_remaining es).agrees (fun _ => rfl) hb hb'⟩
      rw [List.eq_nil_iff_forall_not_mem]
      intro f hf
      obtain ⟨e, he, hfails⟩ := (mem_failing_iff hb').1 (List.mem_map_of_mem hf)
      exact of_decide_eq_true (List.mem_filter.1 (List.mem_of_getElem? he)).2 hfails
  · constructor
    · intro h e he
      obtain ⟨i, hi⟩ := List.getElem?_of_mem he
      exact isReadable_of_rearranged hi h
    · intro h σ es' hrearranged
      exact exists_result_iff.2 fun e he => (hrearranged.isReadable h e he).exists_chains

end Construction

end TraitTrace
