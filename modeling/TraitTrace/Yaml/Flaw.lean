import TraitTrace.Fault

/-! What can be wrong with a YAML text. -/

namespace TraitTrace.Yaml

/-- Why a text is no document: it breaks the rules of documents, or one of its values has no
meaning. -/
inductive Flaw where
  | malformed
  | fault (f : Fault)

end TraitTrace.Yaml
