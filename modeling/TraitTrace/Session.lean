import TraitTrace.Classification
import TraitTrace.Report.OfGroup

/-! Sessions: one run of the analysis. Diagnostics are taken in one by one; held ones are merged
into the ledger. The end of a session turns its logical errors into reports, once. An error whose
messages are inconsistent falls back to its raw diagnostics and does not affect the others. -/

namespace TraitTrace

/-- The state of a run. -/
structure Session where
  runId : String
  ledger : Ledger
  nextSeq : Nat
  isFinalized : Bool

/-- What became of a diagnostic: its classification, unless a fault met it. -/
structure Ingested where
  session : Session
  events : List Event
  outcome : Except Fault Classification

/-- What the end of a session yields. -/
structure Finalized where
  session : Session
  events : List Event
  reports : Except Fault (List Report)

namespace Session

def start (runId : String) : Session := ⟨runId, .empty, 0, false⟩

def closed (s : Session) : Failure := .sessionFinalized s.runId

def take (s : Session) (d : Diagnostic) : Ingested :=
  let c := Classification.ofDiagnostic d
  let classified : Event := .classified s.runId s.nextSeq c.word c.facts.length
  let next := { s with nextSeq := s.nextSeq + 1 }
  if c.held then
    let m := s.ledger.merge d c.facts s.nextSeq
    ⟨{ next with ledger := m.ledger }, classified :: m.events, m.owner.map fun _ => c⟩
  else ⟨next, [classified], .ok c⟩

def ingest (s : Session) (d : Diagnostic) : Except Failure Ingested :=
  if s.isFinalized then .error s.closed else .ok (s.take d)

def modifyErrors (errors : List LogicalError) (places : List Nat)
    (f : LogicalError → LogicalError) : List LogicalError :=
  places.foldl (fun es i => es.modify i f) errors

/-- Builds the graph of the errors so far; the errors take their nodes from it. -/
def build (s : Session) : Session × List Event × Except Fault GraphBuild :=
  let b := Construction.ofErrors s.ledger.errors s.ledger.registry
  let errors := b.withTrees s.ledger.errors
  ({ s with ledger := { s.ledger with errors := errors } }, b.events, b.result)

def fallbackReports (e : LogicalError) : List Report :=
  e.records.map fun r => .passThrough r.diagnostic r.seq

def fallbackEvent (s : Session) (e : LogicalError) (f : Failure) : Event :=
  .fallback s.runId e.span e.context f.text

def conclude (s : Session) (charset : Charset) : Finalized :=
  let (s, events, build) := { s with isFinalized := true }.build
  let outcome := do
    let b ← build
    let reports ← b.groups.mapM fun g => Report.ofGroup g b.graph s.ledger.registry charset
    return (b, reports)
  match outcome with
  | .error fault => ⟨s, events, .error fault⟩
  | .ok (b, reports) =>
    let caused := (b.groups.zip reports).foldl
      (fun es (g, r) =>
        modifyErrors es (g.entries.map Entry.index) fun e => { e with rootCause := r.rootCause })
      s.ledger.errors
    let errors := modifyErrors caused (b.failures.map Prod.fst) fun e =>
      { e with rootCause := .passThrough }
    let all := reports ++ b.failures.flatMap fun (_, e, _) => fallbackReports e
    let sorted := all.mergeSort fun a b => a.firstSeen ≤ b.firstSeen
    ⟨{ s with ledger := { s.ledger with errors := errors } },
      events ++ b.failures.map (fun (_, e, f) => s.fallbackEvent e f) ++
        [.finalized s.runId errors.length sorted.length],
      .ok sorted⟩

def finalize (s : Session) (charset : Charset) : Except Failure Finalized :=
  if s.isFinalized then .error s.closed else .ok (s.conclude charset)

end Session

end TraitTrace
