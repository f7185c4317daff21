import TraitTrace.Graph.Walk
import TraitTrace.Registry.Naming

/-! Drawn trees. A dependency graph is drawn as an indented listing, one line a visit. A line has a
cell for each ancestor below the root, blank under a last child and a bar otherwise, then a
connector, then the label of its node with a mark. -/

namespace TraitTrace

/-- The characters trees are drawn with. -/
inductive Charset where
  | unicode
  | ascii
  deriving DecidableEq, Repr

/-- What trees are drawn with. -/
structure Glyphs where
  branch : String
  last : String
  bar : String
  blank : String
  unsatisfied : String
  satisfied : String

def Charset.glyphs : Charset → Glyphs
  | unicode => ⟨"├─ ", "└─ ", "│  ", "   ", "✗", "✓"⟩
  | ascii => ⟨"|- ", "`- ", "|  ", "   ", "x", "v"⟩

def backReferenceMark : String := "(*)"

/-- One line of a drawn tree. -/
structure TreeLine where
  depth : Nat
  handle : Handle
  text : String
  isBackReference : Bool
  mark : Option String
  deriving DecidableEq, Repr

def ticked (s : Option String) : String := "`" ++ orElseText s "_" ++ "`"

namespace Node

/-- The provider trait of a node: as its diagnostic gave it, or resolved and written with the node's
context and arguments. -/
def providerTraitText (n : Node) (r : Registry) : String :=
  match n.contract with
  | some c => ticked (some c)
  | none =>
    let name := r.resolve .provider (orElseText n.marker "_")
    if name.isGeneric then name.display
    else
      let args := (n.context.toList ++ n.typeArgs).filter fun a => !a.isEmpty
      ticked (some (Contract.traitText name.text args))

def consumerTraitText (n : Node) (r : Registry) : String :=
  match n.contract with
  | some c => ticked (some c)
  | none => (r.resolve .consumer (orElseText n.marker "_")).display

def label (n : Node) (r : Registry) : String :=
  let context := ticked n.context
  match n.kind with
  | .check => ticked n.contract ++ s!" for {context} (check trait)"
  | .consumer => n.consumerTraitText r ++ s!" for {context} (consumer trait)"
  | .provider =>
    n.providerTraitText r ++ " for provider " ++ ticked n.provider ++ " (provider trait)"
  | .getter => ticked n.contract ++ s!" for {context} (getter trait)"
  | .field =>
    let name := (n.field.map FieldName.quoted).getD "`_`"
    s!"field {name} on {context}"

def mark? (n : Node) (g : Glyphs) (isLeaf : Bool) : Option String :=
  match n.status with
  | .unsatisfied => if isLeaf then some g.unsatisfied else none
  | .satisfied => some g.satisfied
  | .implied => none

end Node

namespace Walk.Visit

def lead (g : Glyphs) (v : Visit Handle) : String :=
  match v.ends.getLast? with
  | none => ""
  | some isLast =>
    String.join (v.ends.dropLast.map fun e => if e then g.blank else g.bar) ++
      if isLast then g.last else g.branch

def line (g : Glyphs) (r : Registry) (n : Node) (v : Visit Handle) : TreeLine :=
  let text := v.lead g ++ n.label r
  if v.isBackReference then ⟨v.depth, v.handle, text ++ " " ++ backReferenceMark, true, none⟩
  else
    let mark := n.mark? g v.isLeaf
    let suffix :=
      match mark with
      | some m => " " ++ m
      | none => ""
    ⟨v.depth, v.handle, text ++ suffix, false, mark⟩

end Walk.Visit

namespace Graph

/-- Draws the trees below some roots. A handle without a node is a fault. -/
def draw (graph : Graph) (r : Registry) (charset : Charset) (children : Handle → List Handle)
    (roots : List Handle) : Except Fault (List TreeLine) :=
  (Walk.preorder graph.handles children roots).mapM fun v =>
    match graph.node? v.handle with
    | some n => .ok (v.line charset.glyphs r n)
    | none => .error .indexRange

end Graph

end TraitTrace
