import TraitTrace.Chain.Build
import TraitTrace.Registry.Lessons
import TraitTrace.RootCause

/-! The ledger of logical errors. A held diagnostic belongs to the error at its primary place and of
its context. An error whose context is not known yet takes the first one that comes; a diagnostic
without a context joins the first error at its place. Errors stand in the order in which they came
and are never removed. -/

namespace TraitTrace

/-- A held diagnostic with its facts and its number in the stream. -/
structure Record where
  diagnostic : Diagnostic
  facts : List Fact
  seq : Int

abbrev ErrorKey := Option Location × Option String

/-- An error as users see it, put together from raw diagnostics. Its facts are those of its records,
each once and where it first came. -/
structure LogicalError where
  span : Option Location
  context : Option String
  firstSeen : Int
  records : List Record
  collisions : List ErrorKey
  rootCause : RootCause
  tree : Option (List Int)
  facts : List Fact
  facts_eq : facts = Fact.absorb [] (records.flatMap Record.facts)

namespace LogicalError

def fresh (span : Option Location) (context : Option String) (seq : Int) : LogicalError :=
  ⟨span, context, seq, [], [], .unknown, none, [], rfl⟩

def key (e : LogicalError) : ErrorKey := (e.span, e.context)

def absorb (e : LogicalError) (record : Record) : LogicalError :=
  { e with
    records := e.records ++ [record]
    facts := Fact.absorb e.facts record.facts
    facts_eq := by
      rw [e.facts_eq, ← Fact.absorb_append, List.flatMap_append, List.flatMap_singleton] }

@[simp]
theorem context_absorb (e : LogicalError) (record : Record) :
    (e.absorb record).context = e.context := rfl

end LogicalError

/-- Logical errors with the names learned from them. -/
structure Ledger where
  registry : Registry
  errors : List LogicalError

namespace Ledger

def empty : Ledger := ⟨.empty, []⟩

/-- Gives an error a context. Every other error that now has the same key is a collision. -/
def enrich (errors : List LogicalError) (i : Nat) (context : Option String) :
    List LogicalError × List Event :=
  match errors[i]? with
  | none => (errors, [])
  | some e =>
    let e := { e with context := context }
    let others := (errors.zipIdx.filter fun (o, j) => j ≠ i && o.key = e.key).map fun (o, _) =>
      o.key
    (errors.set i { e with collisions := e.collisions ++ others },
      others.map fun _ => .collision e.span context)

def opened (errors : List LogicalError) (span : Option Location) (context : Option String)
    (seq : Int) : List LogicalError × Nat × List Event :=
  (errors ++ [.fresh span context seq], errors.length, [])

def place (errors : List LogicalError) (span : Option Location) (context : Option String)
    (seq : Int) : List LogicalError × Nat × List Event :=
  if span = none ∧ context = none then opened errors span context seq
  else
    match errors.findIdx? fun e => e.span = span ∧ e.context = context with
    | some i => (errors, i, [])
    | none =>
      match context with
      | none =>
        match errors.findIdx? fun e => e.span = span with
        | some i => (errors, i, [])
        | none => opened errors span context seq
      | some name =>
        match errors.findIdx? fun e => e.span = span ∧ e.context = none with
        | some i =>
          let (errors, events) := enrich errors i (some name)
          (errors, i, events)
        | none => opened errors span context seq

def absorb (errors : List LogicalError) (i : Nat) (record : Record) : List LogicalError :=
  errors.modify i fun e => e.absorb record

/-- A ledger after a diagnostic was merged into it: the error that owns the diagnostic, or the fault
that its chain met. -/
structure Merged where
  ledger : Ledger
  events : List Event
  owner : Except Fault Nat

/-- Merges a held diagnostic. A fault in its chain leaves the diagnostic merged and nothing
learned. -/
def merge (l : Ledger) (d : Diagnostic) (facts : List Fact) (seq : Int) : Merged :=
  let span := d.primarySpan.map Span.location
  let (errors, i, events) := place l.errors span (rootContext facts) seq
  let errors := absorb errors i ⟨d, facts, seq⟩
  let owner := (errors[i]?).getD (.fresh span none seq)
  match Chain.ofFacts facts owner.context with
  | .error fault => ⟨⟨l.registry, errors⟩, events, .error fault⟩
  | .ok chain =>
    let (registry, conflicts) := l.registry.learnAll chain.lessons
    ⟨⟨registry, errors⟩,
      events ++ conflicts ++ [.merged seq span owner.context owner.records.length], .ok i⟩

end Ledger

end TraitTrace
