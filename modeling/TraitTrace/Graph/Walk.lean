import TraitTrace.Graph.Groups

/-! Walks over a graph, depth first. A handle is expanded where the walk meets it first; a later
meeting is a reference back, so that shared parts and cycles are walked once. Both walks end because
each expansion takes a handle out of those not yet expanded, and every other step shortens the list
of what is left to visit. -/

namespace TraitTrace.Walk

variable {α : Type} [DecidableEq α]

/-- A visit of a handle. `ends` tells, for the handle and for each of its ancestors below the root,
whether it is the last child of its parent. -/
structure Visit (α : Type) where
  handle : α
  ends : List Bool
  isBackReference : Bool
  isLeaf : Bool
  deriving DecidableEq, Repr

def Visit.depth {α : Type} (v : Visit α) : Nat := v.ends.length

def below {α : Type} (ends : List Bool) : List α → List (α × List Bool)
  | [] => []
  | [c] => [(c, ends ++ [true])]
  | c :: cs => (c, ends ++ [false]) :: below ends cs

def unexpanded (domain expanded : List α) : List α := domain.filter fun h => !expanded.contains h

theorem length_filter_le_of_imp {α : Type} {p q : α → Bool} (l : List α)
    (h : ∀ a, p a = true → q a = true) : (l.filter p).length ≤ (l.filter q).length := by
  induction l with
  | nil => simp
  | cons a l ih =>
    by_cases hp : p a = true
    · simp [hp, h a hp, ih]
    · by_cases hq : q a = true <;> simp [hp, hq] <;> omega

theorem length_filter_lt_of_imp {α : Type} {p q : α → Bool} {l : List α} {a : α} (ha : a ∈ l)
    (hp : p a = false) (hq : q a = true) (h : ∀ b, p b = true → q b = true) :
    (l.filter p).length < (l.filter q).length := by
  induction l with
  | nil => simp at ha
  | cons b l ih =>
    have hle := length_filter_le_of_imp l h
    rcases List.mem_cons.1 ha with rfl | ha
    · simp [hp, hq]; omega
    · have := ih ha
      by_cases hb : p b = true
      · simp [hb, h b hb, this]
      · by_cases hc : q b = true <;> simp [hb, hc] <;> omega

theorem length_unexpanded_lt {domain expanded : List α} {h : α} (hd : h ∈ domain)
    (he : expanded.contains h = false) :
    (unexpanded domain (h :: expanded)).length < (unexpanded domain expanded).length := by
  apply length_filter_lt_of_imp hd
  · simp
  · simp only [he, Bool.not_false]
  · intro b hb
    simp only [List.contains_cons, Bool.not_or, Bool.and_eq_true] at hb
    exact hb.2

/-- Walks the places left to visit. Handles outside the domain are visited and not expanded. -/
def visits (domain : List α) (children : α → List α) :
    List (α × List Bool) → List α → List (Visit α)
  | [], _ => []
  | (h, ends) :: rest, expanded =>
    if _hb : expanded.contains h = true then
      ⟨h, ends, true, false⟩ :: visits domain children rest expanded
    else if _hd : h ∈ domain then
      ⟨h, ends, false, (children h).isEmpty⟩ ::
        visits domain children (below ends (children h) ++ rest) (h :: expanded)
    else ⟨h, ends, false, true⟩ :: visits domain children rest expanded
termination_by left expanded => ((unexpanded domain expanded).length, left.length)
decreasing_by
  · exact Prod.Lex.right _ (by simp)
  · exact Prod.Lex.left _ _ (length_unexpanded_lt _hd (by simpa using _hb))
  · exact Prod.Lex.right _ (by simp)

def preorder (domain : List α) (children : α → List α) (roots : List α) : List (Visit α) :=
  visits domain children (roots.map fun r => (r, [])) []

def firstMet (domain : List α) (children : α → List α) : List α → List α → List α
  | [], _ => []
  | h :: rest, seen =>
    if _hb : seen.contains h = true then firstMet domain children rest seen
    else if _hd : h ∈ domain then h :: firstMet domain children (children h ++ rest) (h :: seen)
    else firstMet domain children rest seen
termination_by left seen => ((unexpanded domain seen).length, left.length)
decreasing_by
  · exact Prod.Lex.right _ (by simp)
  · exact Prod.Lex.left _ _ (length_unexpanded_lt _hd (by simpa using _hb))
  · exact Prod.Lex.right _ (by simp)

end TraitTrace.Walk

namespace TraitTrace.Group

def unsatisfiedLeaves (g : Group) (graph : Graph) : List Handle :=
  (Walk.firstMet graph.handles (g.children graph) g.roots []).filter fun h =>
    (g.children graph h).isEmpty && (graph.node? h).any fun n => n.status = .unsatisfied

end TraitTrace.Group
