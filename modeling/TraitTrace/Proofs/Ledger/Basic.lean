import Mathlib.Data.List.Basic
import TraitTrace.Ledger

/-! What one merge does to the errors of a ledger. A diagnostic joins an error that is there, gives
a known context to one that had none, or opens an error at the end; then its record is added to that
error and every other error stays as it is. -/

namespace TraitTrace

/-- A held diagnostic with its facts and its number, as it is given to a merge. -/
structure Held where
  diagnostic : Diagnostic
  facts : List Fact
  seq : Int

namespace Ledger

/-- The ledger after some merges, those included whose chains met a fault. -/
def mergeAll (l : Ledger) (hs : List Held) : Ledger :=
  hs.foldl (fun l h => (l.merge h.diagnostic h.facts h.seq).ledger) l

/-- What finding the error of a place and a context may do: the errors and the index it yields. -/
inductive Placed (es : List LogicalError) (span : Option Location) (context : Option String)
    (seq : Int) : List LogicalError → Nat → Prop
  | known {i : Nat} {e : LogicalError} : es[i]? = some e → e.span = span →
      (e.context = context ∨ context = none) → Placed es span context seq es i
  | enriched {i : Nat} {e : LogicalError} {name : String} : context = some name →
      es[i]? = some e → e.span = span → e.context = none →
      (∀ o ∈ es, o.key ≠ (span, some name)) →
      Placed es span context seq (es.set i { e with context := some name }) i
  | opened : ((span = none ∧ context = none) ∨
        ∀ o ∈ es, o.span = span → context ≠ none ∧ o.context ≠ none ∧ o.context ≠ context) →
      Placed es span context seq (es ++ [.fresh span context seq]) es.length

theorem getElem?_of_findIdx? {es : List LogicalError} {p : LogicalError → Bool} {i : Nat}
    (h : es.findIdx? p = some i) : ∃ e, es[i]? = some e ∧ p e = true := by
  obtain ⟨hlt, hp, -⟩ := List.findIdx?_eq_some_iff_getElem.1 h
  exact ⟨es[i], List.getElem?_eq_getElem hlt, hp⟩

/-- No error has the new key, so that an enriched error keeps its collisions. -/
theorem enrich_of_fresh {es : List LogicalError} {i : Nat} {e : LogicalError} (name : String)
    (hi : es[i]? = some e) (hk : ∀ o ∈ es, o.key ≠ (e.span, some name)) :
    (enrich es i (some name)).1 = es.set i { e with context := some name } := by
  have hnone : ∀ q : LogicalError × Nat → Bool,
      (∀ o j, q (o, j) = (j ≠ i && o.key = { e with context := some name }.key)) →
        es.zipIdx.filter q = [] := by
    intro q hq
    rw [List.filter_eq_nil_iff]
    rintro ⟨o, j⟩ ho
    have hmem : o ∈ es := List.mem_of_getElem? (List.mem_zipIdx_iff_getElem?.1 ho)
    have hne := hk o hmem
    rw [hq]
    simp only [LogicalError.key] at hne ⊢
    simp [hne]
  simp only [enrich, hi]
  rw [hnone _ fun _ _ => rfl]
  simp

theorem placed_place (es : List LogicalError) (span : Option Location) (context : Option String)
    (seq : Int) :
    Placed es span context seq (place es span context seq).1 (place es span context seq).2.1 := by
  unfold place
  split
  · rename_i hnone
    exact .opened (.inl hnone)
  · split
    · rename_i i hi
      obtain ⟨e, he, hp⟩ := getElem?_of_findIdx? hi
      simp only [decide_eq_true_eq] at hp
      exact .known he hp.1 (.inl hp.2)
    · rename_i hexact
      simp only [List.findIdx?_eq_none_iff, decide_eq_false_iff_not, not_and] at hexact
      cases context with
      | none =>
        dsimp only
        split
        · rename_i i hi
          obtain ⟨e, he, hp⟩ := getElem?_of_findIdx? hi
          exact .known he (by simpa using hp) (.inr rfl)
        · rename_i habsent
          simp only [List.findIdx?_eq_none_iff, decide_eq_false_iff_not] at habsent
          exact .opened (.inr fun o ho hs => absurd hs (habsent o ho))
      | some name =>
        dsimp only
        split
        · rename_i i hi
          obtain ⟨e, he, hp⟩ := getElem?_of_findIdx? hi
          simp only [decide_eq_true_eq] at hp
          have hkeys : ∀ o ∈ es, o.key ≠ (span, some name) := by
            intro o ho hk
            simp only [LogicalError.key, Prod.mk.injEq] at hk
            exact hexact o ho hk.1 hk.2
          have henrich := enrich_of_fresh name he (by simpa only [hp.1] using hkeys)
          simp only [henrich]
          exact .enriched rfl he hp.1 hp.2 hkeys
        · rename_i habsent
          simp only [List.findIdx?_eq_none_iff, decide_eq_false_iff_not, not_and] at habsent
          refine .opened (.inr fun o ho hs => ⟨by simp, habsent o ho hs, hexact o ho hs⟩)

/-- The errors after a merge are those that the place and the context come to, with one record
more. -/
theorem errors_merge (l : Ledger) (d : Diagnostic) (facts : List Fact) (seq : Int) :
    ∃ es i, Placed l.errors (d.primarySpan.map Span.location) (rootContext facts) seq es i ∧
      (l.merge d facts seq).ledger.errors = absorb es i ⟨d, facts, seq⟩ := by
  refine ⟨_, _, placed_place l.errors (d.primarySpan.map Span.location) (rootContext facts) seq, ?_⟩
  unfold merge
  dsimp only
  split <;> rfl

/-- What every merge keeps holds of every ledger that merges lead to. -/
theorem mergeAll_induction {P : List LogicalError → Prop} (l : Ledger) (hs : List Held)
    (start : P l.errors)
    (step : ∀ (l : Ledger) (h : Held), P l.errors →
      P (l.merge h.diagnostic h.facts h.seq).ledger.errors) :
    P (l.mergeAll hs).errors := by
  induction hs generalizing l with
  | nil => exact start
  | cons h hs ih => exact ih _ (step l h start)

end Ledger

end TraitTrace
