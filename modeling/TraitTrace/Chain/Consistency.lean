import TraitTrace.Chain.Basic
import TraitTrace.Failure

/-! Agreement of a chain with the context of its error: every consumer and provider step of known
context has that context, up to blanks. -/

namespace TraitTrace.Chain

def disagreeing? (expected : String) (s : Step) : Option String :=
  if s.kind = .consumer ∨ s.kind = .provider then
    s.context.filter fun found => !TypeExpr.sameType found expected
  else none

/-- The failure at the first step that disagrees with the context of its error, when that is
known. -/
def inconsistency? (c : Chain) (context : Option String) (place : String) : Option Failure :=
  context.bind fun expected =>
    (c.steps.findSome? (disagreeing? expected)).map fun found =>
      .inconsistentContext (some expected) found place

end TraitTrace.Chain
