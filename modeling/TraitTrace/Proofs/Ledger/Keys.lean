import TraitTrace.Graph.Build
import TraitTrace.Proofs.Ledger.Basic
import TraitTrace.Proofs.Places

/-! Keys of logical errors. Merges never make two errors of one key, unless neither place nor
context is known, and an error of known place and unknown context is alone at its place. Hence
giving an error its context never collides with another error. -/

namespace TraitTrace

namespace LogicalError

/-- Two errors that merges keep apart: at one place they differ in their contexts, and neither
context is unknown unless the place is. -/
def Apart (a b : LogicalError) : Prop :=
  a.span = b.span →
    (a.context = b.context → a.span = none ∧ a.context = none) ∧
      (a.span ≠ none → a.context ≠ none ∧ b.context ≠ none)

theorem Apart.symm {a b : LogicalError} (h : a.Apart b) : b.Apart a := by
  intro hs
  obtain ⟨hkey, halone⟩ := h hs.symm
  refine ⟨fun hc => ?_, fun hb => ?_⟩
  · have hnone := hkey hc.symm
    exact ⟨hs.trans hnone.1, hc.trans hnone.2⟩
  · have hknown := halone (by rw [← hs]; exact hb)
    exact ⟨hknown.2, hknown.1⟩

theorem Apart.congr {a b a' b' : LogicalError} (h : a.Apart b) (ha : a'.key = a.key)
    (hb : b'.key = b.key) : a'.Apart b' := by
  simp only [key, Prod.mk.injEq] at ha hb
  unfold Apart at h ⊢
  rw [ha.1, ha.2, hb.1, hb.2]
  exact h

end LogicalError

namespace Ledger

/-- Errors that merges lead to: any two are apart and none has a collision. -/
structure Distinct (es : List LogicalError) : Prop where
  apart : ∀ (i j : Nat) (a b : LogicalError),
    es[i]? = some a → es[j]? = some b → i ≠ j → a.Apart b
  settled : ∀ e ∈ es, e.collisions = []

theorem Distinct.nil : Distinct [] := ⟨by simp, by simp⟩

theorem Distinct.modify {es : List LogicalError} {f : LogicalError → LogicalError}
    (h : Distinct es) (hkey : ∀ e, (f e).key = e.key)
    (hf : ∀ e, (f e).collisions = e.collisions) (i : Nat) : Distinct (es.modify i f) := by
  have hsame : ∀ {j : Nat} {a : LogicalError}, (es.modify i f)[j]? = some a →
      ∃ b, es[j]? = some b ∧ a.key = b.key ∧ a.collisions = b.collisions := by
    intro j a ha
    rcases getElem?_modified ha with ⟨-, b, hb, rfl⟩ | ⟨-, hb⟩
    · exact ⟨b, hb, hkey b, hf b⟩
    · exact ⟨a, hb, rfl, rfl⟩
  constructor
  · intro j k a b ha hb hne
    obtain ⟨a', ha', hka, -⟩ := hsame ha
    obtain ⟨b', hb', hkb, -⟩ := hsame hb
    exact (h.apart j k a' b' ha' hb' hne).congr hka hkb
  · intro e he
    obtain ⟨j, hj⟩ := List.getElem?_of_mem he
    obtain ⟨b, hb, -, hc⟩ := hsame hj
    rw [hc]
    exact h.settled b (List.mem_of_getElem? hb)

theorem Distinct.append {es : List LogicalError} {e : LogicalError} (h : Distinct es)
    (hnew : ∀ o ∈ es, o.Apart e) (hc : e.collisions = []) : Distinct (es ++ [e]) := by
  constructor
  · intro i j a b ha hb hne
    rcases getElem?_concat ha with ha' | ⟨hi, rfl⟩ <;>
      rcases getElem?_concat hb with hb' | ⟨hj, rfl⟩
    · exact h.apart i j a b ha' hb' hne
    · exact hnew a (List.mem_of_getElem? ha')
    · exact (hnew b (List.mem_of_getElem? hb')).symm
    · exact absurd (hi.trans hj.symm) hne
  · intro o ho
    rcases List.mem_append.1 ho with ho | ho
    · exact h.settled o ho
    · rw [List.mem_singleton.1 ho]
      exact hc

/-- An error of unknown context that takes one which no error at its place has. -/
theorem Distinct.enriched {es : List LogicalError} {i : Nat} {e : LogicalError} {name : String}
    (h : Distinct es) (hi : es[i]? = some e) (hnone : e.context = none)
    (hfree : ∀ o ∈ es, o.key ≠ (e.span, some name)) :
    Distinct (es.set i { e with context := some name }) := by
  -- Against the changed error: no other error has the new key, and at a known place there is none.
  have hnew : ∀ j o, es[j]? = some o → j ≠ i →
      LogicalError.Apart { e with context := some name } o := by
    intro j o ho hne hs
    have hold := h.apart i j e o hi ho (Ne.symm hne) hs
    have hfresh := hfree o (List.mem_of_getElem? ho)
    refine ⟨fun hc => absurd ?_ hfresh, fun hknown => absurd hnone (hold.2 hknown).1⟩
    change e.span = o.span at hs
    change some name = o.context at hc
    rw [LogicalError.key, ← hs, ← hc]
  constructor
  · intro j k a b ha hb hne
    rcases getElem?_replaced ha with ⟨hj, rfl⟩ | ⟨hj, ha'⟩ <;>
      rcases getElem?_replaced hb with ⟨hk, rfl⟩ | ⟨hk, hb'⟩
    · exact absurd (hj.trans hk.symm) hne
    · exact hnew k b hb' hk
    · exact (hnew j a ha' hj).symm
    · exact h.apart j k a b ha' hb' hne
  · intro o ho
    rcases List.mem_or_eq_of_mem_set ho with ho | rfl
    · exact h.settled o ho
    · exact h.settled e (List.mem_of_getElem? hi)

theorem Distinct.placed {es es' : List LogicalError} {span : Option Location}
    {context : Option String} {seq : Int} {i : Nat} (h : Distinct es)
    (hp : Placed es span context seq es' i) : Distinct es' := by
  cases hp with
  | known => exact h
  | enriched hc hi hs hnone hfree =>
    subst hs
    exact h.enriched hi hnone hfree
  | opened hfree =>
    refine h.append (fun o ho hs => ?_) rfl
    change o.span = span at hs
    rcases hfree with ⟨hspan, hcontext⟩ | hfree
    · exact ⟨fun hc => ⟨hs.trans hspan, hc.trans hcontext⟩, fun hk => absurd (hs.trans hspan) hk⟩
    · obtain ⟨hcontext, hknown, hother⟩ := hfree o ho hs
      exact ⟨fun hc => absurd hc hother, fun _ => ⟨hknown, hcontext⟩⟩

theorem Distinct.merge {l : Ledger} (h : Distinct l.errors) (d : Diagnostic) (facts : List Fact)
    (seq : Int) : Distinct (l.merge d facts seq).ledger.errors := by
  obtain ⟨es, i, hp, he⟩ := errors_merge l d facts seq
  rw [he]
  exact (h.placed hp).modify (f := fun e => e.absorb ⟨d, facts, seq⟩) (fun _ => rfl)
    (fun _ => rfl) i

theorem distinct_mergeAll (hs : List Held) : Distinct (empty.mergeAll hs).errors :=
  mergeAll_induction empty hs .nil fun _ h hl => hl.merge h.diagnostic h.facts h.seq

/-- After any merges into an empty ledger, two errors have one key only where neither place nor
context is known, an error of known place and unknown context is the only one at its place, and no
error has a collision, so that the chains of an error are always those of its records. -/
theorem keys_of_merges (hs : List Held) :
    (∀ (i j : Nat) (a b : LogicalError), (empty.mergeAll hs).errors[i]? = some a →
      (empty.mergeAll hs).errors[j]? = some b → i ≠ j → a.key = b.key →
        a.span = none ∧ a.context = none) ∧
    (∀ (i j : Nat) (a b : LogicalError), (empty.mergeAll hs).errors[i]? = some a →
      (empty.mergeAll hs).errors[j]? = some b → a.span ≠ none → a.context = none →
        b.span = a.span → i = j) ∧
    ∀ e ∈ (empty.mergeAll hs).errors,
      e.collisions = [] ∧ e.chains = LogicalError.chains.go e e.records := by
  have hd := distinct_mergeAll hs
  refine ⟨?_, ?_, ?_⟩
  · intro i j a b ha hb hne hkey
    simp only [LogicalError.key, Prod.mk.injEq] at hkey
    exact (hd.apart i j a b ha hb hne hkey.1).1 hkey.2
  · intro i j a b ha hb hspan hnone hs
    by_contra hne
    exact absurd hnone ((hd.apart i j a b ha hb hne hs.symm).2 hspan).1
  · intro e he
    have hc := hd.settled e he
    refine ⟨hc, ?_⟩
    unfold LogicalError.chains
    rw [hc]

end Ledger

end TraitTrace
