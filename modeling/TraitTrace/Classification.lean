import TraitTrace.Fact.Fragment

/-! Classification of diagnostics: one with an anchored fact is held, any other passes through. -/

namespace TraitTrace

structure Classification where
  held : Bool
  facts : List Fact

namespace Classification

/-- Classifies a diagnostic; one that passes through has no facts. -/
def ofDiagnostic (d : Diagnostic) : Classification :=
  let facts := d.facts
  if facts.any Fact.isAnchored then ⟨true, facts⟩ else ⟨false, []⟩

def word (c : Classification) : String := if c.held then "held" else "pass_through"

end Classification

end TraitTrace
