import Mathlib.Data.List.Basic
import TraitTrace.Ledger

/-! Ledgers under other numbers. A merge writes down the number of its diagnostic and uses it for
nothing else, so a change of all numbers before it is the same change after it. -/

namespace TraitTrace

def Record.renumber (ρ : Int → Int) (r : Record) : Record := { r with seq := ρ r.seq }

def LogicalError.renumber (ρ : Int → Int) (e : LogicalError) : LogicalError :=
  { e with
    firstSeen := ρ e.firstSeen
    records := e.records.map (Record.renumber ρ)
    facts_eq := by
      rw [e.facts_eq, List.flatMap_map]
      rfl }

def Ledger.renumber (ρ : Int → Int) (l : Ledger) : Ledger :=
  { l with errors := l.errors.map (LogicalError.renumber ρ) }

/-- A change of one item commutes with a change of all items that it commutes with. -/
theorem map_modify_of_comm {α β : Type} {f : α → β} {g : α → α} {g' : β → β}
    (h : ∀ a, f (g a) = g' (f a)) (as : List α) (i : Nat) :
    (as.modify i g).map f = (as.map f).modify i g' := by
  induction as generalizing i with
  | nil => cases i <;> rfl
  | cons a as ih =>
    cases i with
    | zero => simp [h]
    | succ i => simp [ih]

namespace Ledger

variable (ρ : Int → Int)

theorem enrich_map (es : List LogicalError) (i : Nat) (context : Option String) :
    enrich (es.map (LogicalError.renumber ρ)) i context =
      ((enrich es i context).1.map (LogicalError.renumber ρ), (enrich es i context).2) := by
  unfold enrich
  rw [List.getElem?_map]
  cases es[i]? with
  | none => rfl
  | some e =>
    dsimp only [Option.map_some]
    rw [List.zipIdx_map, List.filter_map, List.map_map, List.map_set]
    rfl

theorem findIdx?_map {p : LogicalError → Bool} (hp : ∀ e : LogicalError, p (e.renumber ρ) = p e)
    (es : List LogicalError) :
    (es.map (LogicalError.renumber ρ)).findIdx? p = es.findIdx? p := by
  rw [List.findIdx?_map]
  exact congrArg (fun q => es.findIdx? q) (funext hp)

theorem opened_map (es : List LogicalError) (span : Option Location) (context : Option String)
    (seq : Int) :
    opened (es.map (LogicalError.renumber ρ)) span context (ρ seq) =
      ((opened es span context seq).1.map (LogicalError.renumber ρ),
        (opened es span context seq).2) := by
  rw [opened, opened, List.map_append, List.length_map]
  rfl

/-- Where a diagnostic goes does not depend on numbers. -/
theorem place_map (es : List LogicalError) (span : Option Location) (context : Option String)
    (seq : Int) :
    place (es.map (LogicalError.renumber ρ)) span context (ρ seq) =
      ((place es span context seq).1.map (LogicalError.renumber ρ),
        (place es span context seq).2) := by
  unfold place
  rw [opened_map, findIdx?_map ρ fun _ => rfl]
  split
  · rfl
  · cases es.findIdx? fun e => e.span = span ∧ e.context = context with
    | some i => rfl
    | none =>
      cases context with
      | none =>
        dsimp only
        rw [findIdx?_map ρ fun _ => rfl]
        cases es.findIdx? fun e => e.span = span <;> rfl
      | some name =>
        dsimp only
        rw [findIdx?_map ρ fun _ => rfl]
        cases es.findIdx? fun e => e.span = span ∧ e.context = none with
        | none => rfl
        | some i =>
          dsimp only
          rw [enrich_map]

theorem absorb_map (es : List LogicalError) (i : Nat) (record : Record) :
    absorb (es.map (LogicalError.renumber ρ)) i (record.renumber ρ) =
      (absorb es i record).map (LogicalError.renumber ρ) := by
  refine (map_modify_of_comm (fun e => ?_) es i).symm
  simp only [LogicalError.renumber, LogicalError.absorb, List.map_append, List.map_cons,
    List.map_nil]
  rfl

/-- A merge with a new number into a ledger with new numbers. -/
theorem merge_renumber (l : Ledger) (d : Diagnostic) (facts : List Fact) (seq : Int) :
    ((l.renumber ρ).merge d facts (ρ seq)).ledger = (l.merge d facts seq).ledger.renumber ρ ∧
      ((l.renumber ρ).merge d facts (ρ seq)).owner = (l.merge d facts seq).owner := by
  have hplace := place_map ρ l.errors (d.primarySpan.map Span.location) (rootContext facts) seq
  unfold merge
  dsimp only [renumber]
  rw [hplace]
  dsimp only
  generalize place l.errors (d.primarySpan.map Span.location) (rootContext facts) seq = placed
  have habsorb := absorb_map ρ placed.1 placed.2.1 ⟨d, facts, seq⟩
  dsimp only [Record.renumber] at habsorb
  rw [habsorb]
  generalize absorb placed.1 placed.2.1 ⟨d, facts, seq⟩ = es
  have howner : ((es.map (LogicalError.renumber ρ))[placed.2.1]?.getD
      (.fresh (d.primarySpan.map Span.location) none (ρ seq))).context =
        (es[placed.2.1]?.getD (.fresh (d.primarySpan.map Span.location) none seq)).context := by
    rw [List.getElem?_map]
    cases es[placed.2.1]? <;> rfl
  rw [howner]
  generalize Chain.ofFacts facts _ = chain
  cases chain <;> exact ⟨rfl, rfl⟩

end Ledger

end TraitTrace
