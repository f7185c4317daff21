import TraitTrace.Proofs.Graph.Labels

/-! Forests of places. Joining two places points the later of their roots at the earlier one, and
looking a root up shortens the path that leads to it. The roots are labels: shortening keeps them,
and joining places unifies their labels. -/

namespace TraitTrace

/-- The parents of places, none of them later than its place. A root is its own parent. -/
structure Forest where
  parents : List Nat
  le : ∀ i p : Nat, parents[i]? = some p → p ≤ i

namespace Forest

/-- A forest of so many roots. -/
def start (n : Nat) : Forest where
  parents := List.range n
  le := by
    intro i p h
    obtain ⟨-, rfl⟩ := List.getElem?_eq_some_iff.1 h
    exact Nat.le_of_eq (List.getElem_range _)

def parent (f : Forest) (i : Nat) : Nat := f.parents.getD i i

theorem parent_le (f : Forest) (i : Nat) : f.parent i ≤ i := by
  rw [parent, List.getD_eq_getElem?_getD]
  cases h : f.parents[i]? with
  | none => exact Nat.le_refl i
  | some p => exact f.le i p h

def root (f : Forest) (i : Nat) : Nat :=
  if f.parent i = i then i else f.root (f.parent i)
termination_by i
decreasing_by
  have := f.parent_le i
  omega

/-- Points a place at an earlier one. -/
def point (f : Forest) (i p : Nat) (h : p ≤ i) : Forest where
  parents := f.parents.set i p
  le := by
    intro j q hj
    rcases getElem?_replaced hj with ⟨rfl, rfl⟩ | ⟨-, hj⟩
    · exact h
    · exact f.le j q hj

/-- Points a place at the parent of its parent. -/
def halve (f : Forest) (i : Nat) : Forest :=
  f.point i (f.parent (f.parent i)) (Nat.le_trans (f.parent_le _) (f.parent_le i))

/-- The root of a place, and the forest in which the path to it is halved. -/
def find (f : Forest) (i : Nat) : Nat × Forest :=
  if f.parent i = i then (i, f) else (f.halve i).find (f.parent (f.parent i))
termination_by i
decreasing_by
  have := f.parent_le i
  have := f.parent_le (f.parent i)
  omega

/-- Points the later of two roots at the earlier one. -/
def link (f : Forest) (a b : Nat) : Forest :=
  f.point (max a b) (min a b) (Nat.le_trans (Nat.min_le_left a b) (Nat.le_max_left a b))

/-- Links the roots of two places if they differ. -/
def join (f : Forest) (i j : Nat) : Forest :=
  let (a, f) := f.find i
  let (b, f) := f.find j
  if a = b then f else f.link a b

theorem root_of_parent {f : Forest} {i : Nat} (h : f.parent i = i) : f.root i = i := by
  rw [root, if_pos h]

theorem root_parent (f : Forest) (i : Nat) : f.root (f.parent i) = f.root i := by
  by_cases h : f.parent i = i
  · rw [h]
  · conv_rhs => rw [root, if_neg h]

/-- A function that is constant along the paths and keeps the roots finds the roots. -/
theorem root_eq {f : Forest} {r : Nat → Nat} (hroot : ∀ i, f.parent i = i → r i = i)
    (hstep : ∀ i, r (f.parent i) = r i) (i : Nat) : f.root i = r i := by
  induction i using root.induct f with
  | case1 i h => rw [root_of_parent h, hroot i h]
  | case2 i h ih => rw [← root_parent, ih, hstep]

theorem parent_root (f : Forest) (i : Nat) : f.parent (f.root i) = f.root i := by
  induction i using root.induct f with
  | case1 i h => rw [root_of_parent h, h]
  | case2 i h ih => rw [← root_parent, ih]

theorem root_le (f : Forest) (i : Nat) : f.root i ≤ i := by
  induction i using root.induct f with
  | case1 i h => exact Nat.le_of_eq (root_of_parent h)
  | case2 i h ih =>
    rw [← root_parent]
    exact Nat.le_trans ih (f.parent_le i)

theorem root_start (n i : Nat) : (start n).root i = i := by
  apply root_of_parent
  rw [parent, start, List.getD_eq_getElem?_getD]
  by_cases h : i < n
  · rw [List.getElem?_range h, Option.getD_some]
  · rw [List.getElem?_eq_none (by rw [List.length_range]; omega), Option.getD_none]

theorem length_point (f : Forest) {i p : Nat} (h : p ≤ i) :
    (f.point i p h).parents.length = f.parents.length := List.length_set

/-- Where a place is pointed, only its parent changes. -/
theorem parent_point (f : Forest) {i p : Nat} (h : p ≤ i) (hi : i < f.parents.length) (j : Nat) :
    (f.point i p h).parent j = if j = i then p else f.parent j := by
  rw [parent, point, List.getD_eq_getElem?_getD, List.getElem?_set]
  by_cases hj : j = i
  · rw [if_pos hj.symm, if_pos (by omega), if_pos hj, Option.getD_some]
  · rw [if_neg fun h' => hj h'.symm, if_neg hj, parent, List.getD_eq_getElem?_getD]

theorem lt_length_of_parent_ne {f : Forest} {i : Nat} (h : f.parent i ≠ i) :
    i < f.parents.length := by
  by_contra hlt
  rw [parent, List.getD_eq_getElem?_getD, List.getElem?_eq_none (Nat.le_of_not_lt hlt),
    Option.getD_none] at h
  exact h rfl

theorem root_halve {f : Forest} {i : Nat} (h : f.parent i ≠ i) (j : Nat) :
    (f.halve i).root j = f.root j := by
  have hpar := f.parent_point (Nat.le_trans (f.parent_le (f.parent i)) (f.parent_le i))
    (lt_length_of_parent_ne h)
  refine root_eq (fun k hk => ?_) (fun k => ?_) j
  · rw [halve, hpar] at hk
    split at hk
    · -- The parent of a place that has one stands before it, and so does a further one.
      have := f.parent_le i
      have := f.parent_le (f.parent i)
      omega
    · exact root_of_parent hk
  · rw [halve, hpar]
    split
    · rename_i heq
      rw [root_parent, root_parent, heq]
    · exact root_parent f k

/-- Looking a root up finds it, and no root changes. -/
theorem find_spec (f : Forest) (i : Nat) :
    (f.find i).1 = f.root i ∧ (∀ j, (f.find i).2.root j = f.root j) ∧
      (f.find i).2.parents.length = f.parents.length := by
  induction f, i using find.induct with
  | case1 f i h =>
    rw [find, if_pos h]
    exact ⟨(root_of_parent h).symm, fun _ => rfl, rfl⟩
  | case2 f i h ih =>
    obtain ⟨hroot, hroots, hlen⟩ := ih
    rw [find, if_neg h]
    refine ⟨?_, fun j => (hroots j).trans (root_halve h j), hlen.trans (f.length_point _)⟩
    rw [hroot, root_halve h, root_parent, root_parent]

theorem root_link {f : Forest} {a b : Nat} (ha : f.parent a = a) (hb : f.parent b = b)
    (ha' : a < f.parents.length) (hb' : b < f.parents.length) (j : Nat) :
    (f.link a b).root j = Grouping.unified a b (f.root j) := by
  have hpar := f.parent_point (Nat.le_trans (Nat.min_le_left a b) (Nat.le_max_left a b))
    (Nat.max_lt.2 ⟨ha', hb'⟩)
  obtain ⟨hmin, hmax⟩ : f.root (min a b) = min a b ∧ f.root (max a b) = max a b := by
    rcases Nat.le_total a b with h | h
    · rw [Nat.min_eq_left h, Nat.max_eq_right h]
      exact ⟨root_of_parent ha, root_of_parent hb⟩
    · rw [Nat.min_eq_right h, Nat.max_eq_left h]
      exact ⟨root_of_parent hb, root_of_parent ha⟩
  refine root_eq (r := fun j => Grouping.unified a b (f.root j)) (fun k hk => ?_) (fun k => ?_) j
  · rw [link, hpar] at hk
    split at hk
    · rename_i heq
      rw [← hk, hmin, Grouping.unified_min]
    · rename_i hne
      rw [root_of_parent hk, Grouping.unified, if_neg hne]
  · rw [link, hpar]
    split
    · rename_i heq
      rw [heq, hmin, hmax, Grouping.unified_min, Grouping.unified, if_pos rfl]
    · rw [root_parent]

/-- Joining two places unifies their roots. -/
theorem join_spec {f : Forest} {i j : Nat} (hi : i < f.parents.length)
    (hj : j < f.parents.length) :
    (∀ k, (f.join i j).root k = Grouping.unified (f.root i) (f.root j) (f.root k)) ∧
      (f.join i j).parents.length = f.parents.length := by
  obtain ⟨hroot, hroots, hlen⟩ := f.find_spec i
  obtain ⟨hroot', hroots', hlen'⟩ := (f.find i).2.find_spec j
  have hfound : ∀ k, ((f.find i).2.find j).2.root k = f.root k :=
    fun k => (hroots' k).trans (hroots k)
  rw [hroots] at hroot'
  unfold join
  dsimp only
  rw [hroot, hroot']
  split
  · rename_i heq
    refine ⟨fun k => ?_, hlen'.trans hlen⟩
    rw [hfound, heq, Grouping.unified, Nat.max_self, Nat.min_self]
    split
    · assumption
    · rfl
  · refine ⟨fun k => ?_, (length_point _ _).trans (hlen'.trans hlen)⟩
    have hparent : ∀ k, ((f.find i).2.find j).2.parent (f.root k) = f.root k := by
      intro k
      rw [← hfound]
      exact parent_root _ k
    have hi' := f.root_le i
    have hj' := f.root_le j
    rw [root_link (hparent i) (hparent j) (by omega) (by omega), hfound]

/-- The root of each place. -/
def roots (f : Forest) : List Nat := (List.range f.parents.length).map f.root

theorem length_roots (f : Forest) : f.roots.length = f.parents.length := by
  rw [roots, List.length_map, List.length_range]

theorem getElem?_roots {f : Forest} {i : Nat} (h : i < f.parents.length) :
    f.roots[i]? = some (f.root i) := by
  rw [roots, List.getElem?_map, List.getElem?_range h, Option.map_some]

theorem roots_start (n : Nat) : (start n).roots = List.range n := by
  have hlen : (start n).parents.length = n := List.length_range
  rw [roots, hlen]
  exact (List.map_congr_left fun i _ => root_start n i).trans (List.map_id _)

theorem roots_join {f : Forest} {i j : Nat} (hi : i < f.parents.length)
    (hj : j < f.parents.length) :
    (f.join i j).roots = Grouping.unify f.roots (f.root i) (f.root j) := by
  obtain ⟨hroots, hlen⟩ := join_spec hi hj
  rw [roots, hlen, roots, Grouping.unify, List.map_map]
  exact List.map_congr_left fun k _ => hroots k

end Forest

end TraitTrace
