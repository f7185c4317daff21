import TraitTrace.Graph.Basic
import TraitTrace.Ledger

/-! Groups of logical errors. Two errors whose chains share a node other than a checked trait belong
to one group, and so do errors that a sequence of such pairs links. Every error gets the index of
the first error of its group as its label; joining two groups relabels the later one. -/

namespace TraitTrace

/-- A logical error in the graph: the first handles of its chains, its nodes and its edges. -/
structure Entry where
  index : Nat
  error : LogicalError
  roots : List Handle
  nodes : List Handle
  edges : List (Handle × Handle)

def appendNew {α : Type} [DecidableEq α] (known : List α) : List α → List α
  | [] => known
  | a :: as => if a ∈ known then appendNew known as else appendNew (known ++ [a]) as

/-- Errors that are reported together. -/
structure Group where
  entries : List Entry

namespace Group

def errors (g : Group) : List LogicalError := g.entries.map Entry.error

def roots (g : Group) : List Handle := appendNew [] (g.entries.flatMap Entry.roots)

def nodes (g : Group) : List Handle := appendNew [] (g.entries.flatMap Entry.nodes)

def edges (g : Group) : List (Handle × Handle) := appendNew [] (g.entries.flatMap Entry.edges)

def firstSeen (g : Group) : Int :=
  match g.errors.map LogicalError.firstSeen with
  | [] => 0
  | n :: ns => ns.foldl min n

def context (g : Group) : Option String := (g.errors.filterMap LogicalError.context).head?

def children (g : Group) (graph : Graph) (h : Handle) : List Handle :=
  (graph.children h).filter fun c => g.edges.any fun e => e.1 = h ∧ e.2 = c

end Group

namespace Grouping

def shares (graph : Graph) (a b : Entry) : Bool :=
  a.nodes.any fun h => !graph.isCheck h && b.nodes.contains h

def unify (labels : List Nat) (a b : Nat) : List Nat :=
  labels.map fun l => if l = max a b then min a b else l

def joinEarlier (linked : Nat → Nat → Bool) (labels : List Nat) (i : Nat) : List Nat :=
  (List.range i).foldl
    (fun ls j => if linked j i then unify ls (ls.getD j j) (ls.getD i i) else ls) labels

def labels (linked : Nat → Nat → Bool) : Nat → List Nat
  | 0 => []
  | n + 1 => joinEarlier linked (labels linked n ++ [n]) n

def linkedAt (graph : Graph) (entries : List Entry) (i j : Nat) : Bool :=
  match entries[i]?, entries[j]? with
  | some a, some b => shares graph a b
  | _, _ => false

def groups (graph : Graph) (entries : List Entry) : List Group :=
  let ls := labels (linkedAt graph entries) entries.length
  let labeled := entries.zip ls
  ((List.range entries.length).filter fun i => ls.getD i i = i).map fun i =>
    ⟨(labeled.filter fun (_, l) => l = i).map Prod.fst⟩

end Grouping

end TraitTrace
