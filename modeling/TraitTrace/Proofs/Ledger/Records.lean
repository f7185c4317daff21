import Mathlib.Data.List.Perm.Basic
import TraitTrace.Proofs.Ledger.Basic
import TraitTrace.Proofs.Places

/-! Records of logical errors. A merge adds one record and loses none, and it never leaves an error
without a record. -/

namespace TraitTrace.Ledger

/-- The records of all errors. -/
def records (es : List LogicalError) : List Record := es.flatMap LogicalError.records

@[simp] theorem records_nil : records [] = [] := rfl

@[simp] theorem records_cons (e : LogicalError) (es : List LogicalError) :
    records (e :: es) = e.records ++ records es := rfl

@[simp] theorem records_append (es es' : List LogicalError) :
    records (es ++ es') = records es ++ records es' := List.flatMap_append

theorem records_set {es : List LogicalError} {i : Nat} {e e' : LogicalError}
    (hi : es[i]? = some e) (h : e'.records = e.records) : records (es.set i e') = records es := by
  induction es generalizing i with
  | nil => rfl
  | cons o es ih =>
    cases i with
    | zero =>
      cases hi
      simp only [List.set_cons_zero, records_cons, h]
    | succ i => simp only [List.set_cons_succ, records_cons, ih hi]

theorem perm_records_absorb {es : List LogicalError} {i : Nat} (r : Record) (hi : i < es.length) :
    (records (absorb es i r)).Perm (r :: records es) := by
  induction es generalizing i with
  | nil => exact absurd hi (Nat.not_lt_zero i)
  | cons e es ih =>
    cases i with
    | zero =>
      change ((e.records ++ [r]) ++ records es).Perm (r :: (e.records ++ records es))
      rw [List.append_assoc, List.singleton_append]
      exact List.perm_middle
    | succ i =>
      have hrest := ih (Nat.lt_of_succ_lt_succ hi)
      exact (hrest.append_left e.records).trans List.perm_middle

theorem Placed.records_eq {es es' : List LogicalError} {span : Option Location}
    {context : Option String} {seq : Int} {i : Nat} (hp : Placed es span context seq es' i) :
    records es' = records es ∧ i < es'.length := by
  cases hp with
  | known hi => exact ⟨rfl, (List.getElem?_eq_some_iff.1 hi).1⟩
  | enriched _ hi =>
    refine ⟨records_set hi rfl, ?_⟩
    rw [List.length_set]
    exact (List.getElem?_eq_some_iff.1 hi).1
  | opened =>
    refine ⟨?_, ?_⟩
    · rw [records_append, records_cons, records_nil]
      exact List.append_nil _
    · rw [List.length_append]
      exact Nat.lt_succ_self _

/-- A merge adds one record. -/
theorem perm_records_merge (l : Ledger) (d : Diagnostic) (facts : List Fact) (seq : Int) :
    (records (l.merge d facts seq).ledger.errors).Perm (⟨d, facts, seq⟩ :: records l.errors) := by
  obtain ⟨es, i, hp, he⟩ := errors_merge l d facts seq
  obtain ⟨hsame, hi⟩ := hp.records_eq
  rw [he, ← hsame]
  exact perm_records_absorb _ hi

/-- Finding the error of a place and a context leaves no error without a record, but for the one
found. -/
theorem Placed.records_ne_nil {es es' : List LogicalError} {span : Option Location}
    {context : Option String} {seq : Int} {i : Nat} (hp : Placed es span context seq es' i)
    (h : ∀ e ∈ es, e.records ≠ []) : ∀ j e, j ≠ i → es'[j]? = some e → e.records ≠ [] := by
  intro j e hj he
  cases hp with
  | known => exact h e (List.mem_of_getElem? he)
  | enriched =>
    rw [List.getElem?_set_ne (Ne.symm hj)] at he
    exact h e (List.mem_of_getElem? he)
  | opened =>
    have hlt : j < es.length := by
      have := (List.getElem?_eq_some_iff.1 he).1
      simp only [List.length_append, List.length_singleton] at this
      omega
    rw [List.getElem?_append_left hlt] at he
    exact h e (List.mem_of_getElem? he)

theorem records_ne_nil_merge {l : Ledger} (d : Diagnostic) (facts : List Fact) (seq : Int)
    (h : ∀ e ∈ l.errors, e.records ≠ []) :
    ∀ e ∈ (l.merge d facts seq).ledger.errors, e.records ≠ [] := by
  obtain ⟨es, i, hp, he⟩ := errors_merge l d facts seq
  have hother := hp.records_ne_nil h
  rw [he]
  intro e hmem
  obtain ⟨j, hj⟩ := List.getElem?_of_mem hmem
  rcases getElem?_modified hj with ⟨-, o, -, rfl⟩ | ⟨hne, hold⟩
  · exact List.append_ne_nil_of_right_ne_nil _ (List.cons_ne_nil _ _)
  · exact hother j e hne hold

end TraitTrace.Ledger
