import TraitTrace.Chain.Consistency
import TraitTrace.Graph.Groups

/-! Building the graph of all logical errors. Errors are taken in the order in which they were first
seen. One whose chains disagree with its context, or that took the key of another error, is left out
and reported as a failure. -/

namespace TraitTrace

/-- A graph under construction: the errors in it, those left out, and the fault that stopped the
construction, if one did. Errors are named by their place in the ledger. -/
structure Construction where
  graph : Graph
  entries : List Entry
  failures : List (Nat × LogicalError × Failure)
  fault : Option Fault

/-- The graph of a ledger with its groups. -/
structure GraphBuild where
  graph : Graph
  groups : List Group
  failures : List (Nat × LogicalError × Failure)

def shownContext (context : Option String) : String := orElseText context "<unknown>"

namespace LogicalError

def placeText (e : LogicalError) : String := (e.span.map Location.text).getD "<no span>"

def chains (e : LogicalError) : Except Fault (Except Failure (List (Chain × Int))) :=
  match e.collisions with
  | (_, context) :: _ =>
    .ok (.error (.inconsistentContext (some (shownContext e.context)) (shownContext context)
      e.placeText))
  | [] => go e.records
where
  go : List Record → Except Fault (Except Failure (List (Chain × Int)))
    | [] => .ok (.ok [])
    | r :: rs =>
      match Chain.ofFacts r.facts e.context with
      | .error fault => .error fault
      | .ok c =>
        match c.inconsistency? e.context e.placeText with
        | some failure => .ok (.error failure)
        | none => (go rs).map fun more => more.map ((c, r.seq) :: ·)

end LogicalError

namespace Construction

def start : Construction := ⟨.empty, [], [], none⟩

def addChains (r : Registry) : Graph → Entry → List (Chain × Int) → Graph × Entry × Option Fault
  | g, e, [] => (g, e, none)
  | g, e, (c, seq) :: rest =>
    let a := g.addSteps r c.steps seq
    match a.fault with
    | some fault => (a.graph, e, some fault)
    | none =>
      addChains r a.graph
        { e with
          roots := appendNew e.roots (a.handles.take 1)
          nodes := appendNew e.nodes a.handles
          edges := appendNew e.edges a.edges } rest

def add (r : Registry) (b : Construction) (e : LogicalError × Nat) : Construction :=
  if b.fault.isSome then b
  else
    match e.1.chains with
    | .error fault => { b with fault := some fault }
    | .ok (.error failure) => { b with failures := b.failures ++ [(e.2, e.1, failure)] }
    | .ok (.ok chains) =>
      match addChains r b.graph ⟨e.2, e.1, [], [], []⟩ chains with
      | (g, _, some fault) => { b with graph := g, fault := some fault }
      | (g, entry, none) => { b with graph := g, entries := b.entries ++ [entry] }

def ofErrors (errors : List LogicalError) (r : Registry) : Construction :=
  (errors.zipIdx.mergeSort fun a b => a.1.firstSeen ≤ b.1.firstSeen).foldl (add r) start

/-- The graph with its groups, unless a fault stopped the construction. -/
def result (b : Construction) : Except Fault GraphBuild :=
  match b.fault with
  | some fault => .error fault
  | none => .ok ⟨b.graph, Grouping.groups b.graph b.entries, b.failures⟩

def events (b : Construction) : List Event :=
  match b.result with
  | .ok g => [.graphBuilt g.graph.size g.groups.length g.failures.length]
  | .error _ => []

def withTrees (b : Construction) (errors : List LogicalError) : List LogicalError :=
  b.entries.foldl
    (fun es entry => es.modify entry.index fun e => { e with tree := some entry.nodes }) errors

end Construction

namespace GraphBuild

/-- The graph independent of handles: the keys of its nodes and of its edges. -/
def signature (b : GraphBuild) : List NodeKey × List (NodeKey × NodeKey) :=
  let keys := b.graph.keys
  let edges := b.groups.flatMap fun g => g.edges.filterMap fun (p, c) => do
    let parent ← b.graph.key? p
    let child ← b.graph.key? c
    return (parent, child)
  (appendNew [] keys, appendNew [] edges)

end GraphBuild

end TraitTrace
