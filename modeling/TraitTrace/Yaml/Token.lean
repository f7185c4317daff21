import TraitTrace.Yaml.Name

/-! Tokens of a YAML text: the marks of its collections, most of which the text shows by indentation
alone, with the words and texts between them. -/

namespace TraitTrace.Yaml

inductive Token where
  | directive (d : Directive)
  | documentStart
  | documentEnd
  /-- Where a block sequence starts, a block mapping starts, and either of them ends. -/
  | openSequence
  | openMapping
  | closeBlock
  | openList
  | closeList
  | openMap
  | closeMap
  | comma
  | dash
  | key
  | value
  | alias (name : String)
  | anchor (name : String)
  | tag (t : WrittenTag)
  | scalar (text : String) (plain : Bool)
  deriving DecidableEq, Repr

structure Tokens where
  list : List Token
  stop : Option Fault

end TraitTrace.Yaml
