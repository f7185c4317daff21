import TraitTrace.Chain.Basic
import TraitTrace.Contract
import TraitTrace.Registry.Basic

/-! The dependency graph. Requirements of different diagnostics meet in one node when they have the
same key; nodes are addressed by handles in the order of their first appearance. The key of a
consumer or provider names its component, by the registry where the step itself does not. -/

namespace TraitTrace

/-- What a requirement is told apart by. -/
inductive NodeKey where
  | check (context contract : Option String)
  | getter (context contract : Option String)
  | consumer (context component : Option String)
  | provider (provider component context : Option String) (extraArgs : List String)
  | field (context name : Option String)
  deriving DecidableEq, Repr

/-- What addresses a node: its place from zero on, or, below zero, its place from the last node
back. -/
abbrev Handle := Int

/-- An edge to a child: the least sequence number it came with and the rank of its first coming. -/
structure Link where
  child : Handle
  seq : Int
  rank : Nat
  deriving DecidableEq, Repr

/-- A node: what is known of one requirement from all its steps. -/
structure Node where
  key : NodeKey
  kind : StepKind
  context : Option String
  component : Option String
  marker : Option String
  contract : Option String
  provider : Option String
  typeArgs : List String
  field : Option FieldName
  status : Status
  seq : Int
  links : List Link

def consumerPrefix : String := "consumer:"

namespace Node

def children (n : Node) : List Handle :=
  (n.links.mergeSort fun a b => a.seq < b.seq || (a.seq == b.seq && a.rank ≤ b.rank)).map Link.child

def componentMarker (n : Node) : Option String :=
  n.component.filter fun c => !consumerPrefix.isPrefixOf c

def isSatisfied (n : Node) : Bool := n.status = .satisfied

def meet (n : Node) (s : Step) (seq : Int) : Node :=
  { n with
    marker := n.marker.or s.marker
    contract := n.contract.or s.contract
    status := n.status.worse s.status
    seq := min n.seq seq }

/-- Writes an edge to a child; a known one only takes a smaller sequence number. -/
def link (n : Node) (child : Handle) (seq : Int) (rank : Nat) : Node :=
  if n.links.any fun l => l.child = child then
    { n with links := n.links.map fun l =>
        if l.child = child ∧ seq < l.seq then { l with seq := seq } else l }
  else { n with links := n.links ++ [⟨child, seq, rank⟩] }

end Node

/-- A text that is given, not empty, or else another one. -/
def orElseText (given : Option String) (other : String) : String :=
  match given with
  | some s => if s.isEmpty then other else s
  | none => other

/-- The component of a consumer or provider step. A consumer with neither marker nor contract is a
fault. -/
def Step.component (s : Step) (r : Registry) : Except Fault (Option String) :=
  match s.kind, s.marker with
  | .consumer, some marker => .ok (some marker)
  | .consumer, none =>
    match s.contract with
    | some contract =>
      .ok (some (orElseText (r.markerFor .consumer (TypeExpr.genericHead contract))
        (consumerPrefix ++ contract)))
    | none => .error .unnamedConsumer
  | .provider, some marker => .ok (some marker)
  | .provider, none =>
    .ok (s.providerTrait?.map fun name =>
      orElseText (r.markerFor .provider name) (Contract.markerForProviderTrait name))
  | _, _ => .ok none

def Step.nodeKey (s : Step) (r : Registry) : Except Fault NodeKey :=
  match s.kind with
  | .check => .ok (.check s.context s.contract)
  | .getter => .ok (.getter s.context s.contract)
  | .consumer => (s.component r).map (.consumer s.context ·)
  | .provider => (s.component r).map (.provider s.provider · s.context s.extraArgs)
  | .field => .ok (.field s.context (s.field.map FieldName.text))

/-- Nodes by handle, and the number of edges so far. -/
structure Graph where
  nodes : List Node
  edgeCount : Nat

namespace Graph

def empty : Graph := ⟨[], 0⟩

def size (g : Graph) : Nat := g.nodes.length

/-- The place of a handle among so many nodes; from their number on, there is no node. -/
def place (size : Nat) (h : Handle) : Nat :=
  if 0 ≤ h then h.toNat else if h.natAbs ≤ size then size - h.natAbs else size

def node? (g : Graph) (h : Handle) : Option Node := g.nodes[place g.size h]?

/-- All handles of nodes: those that count from the first one, then those that count back. -/
def handles (g : Graph) : List Handle :=
  (List.range g.size).map Int.ofNat ++ (List.range g.size).map Int.negSucc

def keys (g : Graph) : List NodeKey := g.nodes.map Node.key

def key? (g : Graph) (h : Handle) : Option NodeKey := (g.node? h).map Node.key

def children (g : Graph) (h : Handle) : List Handle := ((g.node? h).map Node.children).getD []

def isCheck (g : Graph) (h : Handle) : Bool := (g.node? h).any fun n => n.kind = .check

def intern (g : Graph) (r : Registry) (s : Step) (seq : Int) :
    Except Fault (Graph × Handle) := do
  let key ← s.nodeKey r
  match g.nodes.findIdx? fun n => n.key = key with
  | some h => return ({ g with nodes := g.nodes.modify h fun n => n.meet s seq }, h)
  | none =>
    let component ← s.component r
    let node : Node :=
      ⟨key, s.kind, s.context, component, s.marker, s.contract, s.provider, s.extraArgs, s.field,
        s.status, seq, []⟩
    return ({ g with nodes := g.nodes ++ [node] }, g.nodes.length)

/-- Writes an edge. The parent has to be there; the child is not looked at. -/
def link (g : Graph) (parent child : Handle) (seq : Int) : Except Fault Graph :=
  match g.node? parent with
  | none => .error .indexRange
  | some n =>
    let isNew := !n.links.any fun l => l.child = child
    .ok {
      nodes := g.nodes.modify (place g.size parent) fun n => n.link child seq g.edgeCount
      edgeCount := if isNew then g.edgeCount + 1 else g.edgeCount }

/-- A graph after some steps of a chain: the handles of the steps and the edges between them, and
the fault that stopped it, if one did. -/
structure Added where
  graph : Graph
  handles : List Handle
  edges : List (Handle × Handle)
  fault : Option Fault

def addStep (r : Registry) (seq : Int) (a : Added) (s : Step) : Added :=
  if a.fault.isSome then a
  else
    match a.graph.intern r s seq with
    | .error fault => { a with fault := some fault }
    | .ok (g, h) =>
      let a := { a with graph := g }
      match s.parent with
      | none => { a with handles := a.handles ++ [h] }
      | some p =>
        match a.handles[p]? with
        | none => { a with fault := some .indexRange }
        | some parent =>
          if parent = h then { a with handles := a.handles ++ [h] }
          else
            match g.link parent h seq with
            | .error fault => { a with fault := some fault }
            | .ok g =>
              { a with
                graph := g
                handles := a.handles ++ [h]
                edges := if (parent, h) ∈ a.edges then a.edges else a.edges ++ [(parent, h)] }

def addSteps (g : Graph) (r : Registry) (steps : List Step) (seq : Int) : Added :=
  steps.foldl (addStep r seq) ⟨g, [], [], none⟩

end Graph

end TraitTrace
