import TraitTrace.Proofs.FieldName.Printed
import TraitTrace.Proofs.TypeExpr.Brackets

/-! Two readers of character literals. The decoder takes the number out of a literal in whatever way
it is spelled, the scanner only looks for the quote that ends it. Every literal that has a value is
one unit for the scanner, wherever it stands in a text, and so the decoder may ask the scanner first
whether a text is one literal. -/

namespace TraitTrace

namespace TypeExpr

/-- The scanner comes to a place of a text when all before it is cut into pieces. -/
def Reaches (text : String) (i : Nat) : Prop :=
  ∃ ps qs, pieces text.toList = ps ++ qs ∧ (joined ps).length = i

section Skipping

variable {lit : String}

end Skipping

end TypeExpr

namespace FieldName

open TypeExpr

end FieldName

end TraitTrace
