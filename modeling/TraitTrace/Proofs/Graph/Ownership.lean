import TraitTrace.Proofs.Graph.Construction
import TraitTrace.Proofs.Graph.Forest
import TraitTrace.Proofs.Table

/-! Groups found with a forest. A node is owned by the entry that has it first, and a further entry
that has it is joined with its owner. The roots of the forest are then the labels of the entries,
in whatever order the nodes of an entry are taken, so the entries gathered by their roots are the
groups. -/

namespace TraitTrace

/-- A forest of the places of entries, and the place that owns a node. -/
structure Ownership where
  forest : Forest
  owners : Table Handle Nat

namespace Ownership

/-- Takes a node for a place. The place owns it, or is joined with its owner. -/
def take (graph : Graph) (s : Ownership) (p : Nat × Handle) : Ownership :=
  if graph.isCheck p.2 then s
  else
    match s.owners.get? p.2 with
    | some o => { s with forest := s.forest.join o p.1 }
    | none => { s with owners := s.owners.set p.2 p.1 }

/-- Places with the nodes of their entries. -/
def uses (order : Entry → List Handle) (entries : List Entry) : List (Nat × Handle) :=
  entries.zipIdx.flatMap fun (e, i) => (order e).map fun h => (i, h)

def taken (graph : Graph) (order : Entry → List Handle) (entries : List Entry) : Ownership :=
  (uses order entries).foldl (take graph) ⟨.start entries.length, []⟩

/-- Puts each entry to its root. The roots are looked up in a forest that changes on the way. -/
def gather : Forest → Table Nat (List Entry) → List (Entry × Nat) → Table Nat (List Entry)
  | _, t, [] => t
  | f, t, (e, i) :: rest =>
    let (root, f) := f.find i
    gather f (t.set root ((t.get? root).getD [] ++ [e])) rest

def groups (graph : Graph) (order : Entry → List Handle) (entries : List Entry) : List Group :=
  let gathered := gather (taken graph order entries).forest [] entries.zipIdx
  (gathered.map fun (_, es) => Group.mk es).mergeSort fun g g' => g.firstSeen ≤ g'.firstSeen

section Taking

open Grouping

variable {graph : Graph} {entries : List Entry} {order : Entry → List Handle}

/-- What holds once some places have taken some nodes: joined places are linked by nodes, and a
node that was taken joins its place with its owner. -/
structure Taken (graph : Graph) (entries : List Entry) (done : List (Nat × Handle))
    (s : Ownership) : Prop where
  length : s.forest.parents.length = entries.length
  labeling : Labeling (linkedAt graph entries) s.forest.roots
  owner : ∀ h o, s.owners.get? h = some o → ∃ e, entries[o]? = some e ∧ h ∈ e.nodes
  owned : ∀ p ∈ done, graph.isCheck p.2 = false →
    ∃ o, s.owners.get? p.2 = some o ∧ s.forest.root o = s.forest.root p.1

theorem taken_start (graph : Graph) (entries : List Entry) :
    Taken graph entries [] ⟨.start entries.length, []⟩ where
  length := List.length_range
  labeling := by
    have hroot : ∀ i l : Nat, (Forest.start entries.length).roots[i]? = some l → i = l := by
      intro i l h
      rw [Forest.roots_start] at h
      obtain ⟨hi, rfl⟩ := List.getElem?_eq_some_iff.1 h
      rw [List.getElem_range]
    refine ⟨fun i l h => Nat.le_of_eq (hroot i l h).symm, fun i l h => ?_, fun i l h => ?_⟩
    · obtain rfl := hroot i l h
      exact h
    · obtain rfl := hroot i l h
      exact .refl
  owner := by
    intro h o ho
    cases ho
  owned := by
    intro p hp
    cases hp

theorem Taken.join {done : List (Nat × Handle)} {s : Ownership} (hs : Taken graph entries done s)
    {i o : Nat} {h : Handle} {e : Entry} (he : entries[i]? = some e) (hh : h ∈ e.nodes)
    (hcheck : graph.isCheck h = false) (ho : s.owners.get? h = some o) :
    Taken graph entries (done ++ [(i, h)]) { s with forest := s.forest.join o i } := by
  obtain ⟨e', he', hh'⟩ := hs.owner h o ho
  have hi : i < s.forest.parents.length := by
    rw [hs.length]
    exact lt_length_of_getElem? he
  have ho' : o < s.forest.parents.length := by
    rw [hs.length]
    exact lt_length_of_getElem? he'
  have hlinked : linkedAt graph entries o i = true :=
    linkedAt_iff.2 ⟨e', e, he', he, shares_iff.2 ⟨h, hh', hh, hcheck⟩⟩
  obtain ⟨hroots, hlen⟩ := Forest.join_spec ho' hi
  refine ⟨hlen.trans hs.length, ?_, hs.owner,
    List.forall_mem_append.2 ⟨fun p hp hfree => ?_, List.forall_mem_singleton.2 fun _ => ?_⟩⟩
  · rw [Forest.roots_join ho' hi]
    exact hs.labeling.unify (linkedAt_comm graph entries) (Forest.getElem?_roots ho')
      (Forest.getElem?_roots hi) hlinked
  · obtain ⟨o', hget, heq⟩ := hs.owned p hp hfree
    exact ⟨o', hget, by rw [hroots, hroots, heq]⟩
  · exact ⟨o, ho, by rw [hroots, hroots, unified_left_eq_right]⟩

theorem Taken.own {done : List (Nat × Handle)} {s : Ownership} (hs : Taken graph entries done s)
    {i : Nat} {h : Handle} {e : Entry} (he : entries[i]? = some e) (hh : h ∈ e.nodes)
    (hnone : s.owners.get? h = none) :
    Taken graph entries (done ++ [(i, h)]) { s with owners := s.owners.set h i } := by
  refine ⟨hs.length, hs.labeling, fun h' o ho => ?_,
    List.forall_mem_append.2 ⟨fun p hp hfree => ?_, List.forall_mem_singleton.2 fun _ => ?_⟩⟩
  · by_cases heq : h = h'
    · subst heq
      rw [Table.get?_set_self] at ho
      cases ho
      exact ⟨e, he, hh⟩
    · rw [Table.get?_set_of_ne _ _ heq] at ho
      exact hs.owner h' o ho
  · obtain ⟨o, ho, heq⟩ := hs.owned p hp hfree
    have hne : h ≠ p.2 := by
      rintro rfl
      rw [hnone] at ho
      cases ho
    exact ⟨o, (Table.get?_set_of_ne _ _ hne).trans ho, heq⟩
  · exact ⟨i, Table.get?_set_self _ _ _, rfl⟩

theorem Taken.take {done : List (Nat × Handle)} {s : Ownership} (hs : Taken graph entries done s)
    {i : Nat} {h : Handle} {e : Entry} (he : entries[i]? = some e) (hh : h ∈ e.nodes) :
    Taken graph entries (done ++ [(i, h)]) (Ownership.take graph s (i, h)) := by
  unfold Ownership.take
  split
  · rename_i hcheck
    refine ⟨hs.length, hs.labeling, hs.owner,
      List.forall_mem_append.2 ⟨hs.owned, List.forall_mem_singleton.2 fun hfree => ?_⟩⟩
    rw [hcheck] at hfree
    cases hfree
  · rename_i hcheck
    split
    · exact hs.join he hh (Bool.not_eq_true _ ▸ hcheck) ‹_›
    · exact hs.own he hh ‹_›

theorem Taken.foldl (ps : List (Nat × Handle)) {done : List (Nat × Handle)} {s : Ownership}
    (hs : Taken graph entries done s)
    (hps : ∀ p ∈ ps, ∃ e, entries[p.1]? = some e ∧ p.2 ∈ e.nodes) :
    Taken graph entries (done ++ ps) (ps.foldl (Ownership.take graph) s) := by
  induction ps generalizing done s with
  | nil => rwa [List.append_nil]
  | cons p ps ih =>
    obtain ⟨e, he, hh⟩ := hps p List.mem_cons_self
    have hnext := ih (hs.take he hh) fun q hq => hps q (List.mem_cons_of_mem p hq)
    rwa [List.append_assoc, List.singleton_append] at hnext

theorem mem_uses {p : Nat × Handle} :
    p ∈ uses order entries ↔ ∃ e, entries[p.1]? = some e ∧ p.2 ∈ order e := by
  obtain ⟨i, h⟩ := p
  unfold uses
  rw [List.mem_flatMap]
  constructor
  · rintro ⟨⟨e, j⟩, hmem, hp⟩
    obtain ⟨h', hh', heq⟩ := List.mem_map.1 hp
    cases heq
    exact ⟨e, List.mem_zipIdx_iff_getElem?.1 hmem, hh'⟩
  · rintro ⟨e, he, hh⟩
    exact ⟨(e, i), List.mem_zipIdx_iff_getElem?.2 he, List.mem_map_of_mem hh⟩

variable (horder : ∀ e ∈ entries, ∀ h, h ∈ order e ↔ h ∈ e.nodes)

include horder

theorem taken_spec (graph : Graph) :
    Taken graph entries (uses order entries) (taken graph order entries) := by
  have huses : ∀ p ∈ uses order entries, ∃ e, entries[p.1]? = some e ∧ p.2 ∈ e.nodes := by
    intro p hp
    obtain ⟨e, he, hh⟩ := mem_uses.1 hp
    exact ⟨e, he, (horder e (List.mem_of_getElem? he) p.2).1 hh⟩
  exact (taken_start graph entries).foldl (uses order entries) huses

/-- Places of entries that share a node have one root, since the node has one owner. -/
theorem root_eq_of_linked {i j : Nat} (h : linkedAt graph entries i j = true) :
    (taken graph order entries).forest.root i = (taken graph order entries).forest.root j := by
  have hspec := taken_spec horder graph
  obtain ⟨a, b, ha, hb, hshares⟩ := linkedAt_iff.1 h
  obtain ⟨n, hna, hnb, hcheck⟩ := shares_iff.1 hshares
  have huse : ∀ {k : Nat} {e : Entry}, entries[k]? = some e → n ∈ e.nodes →
      (k, n) ∈ uses order entries := fun he hn =>
    mem_uses.2 ⟨_, he, (horder _ (List.mem_of_getElem? he) n).2 hn⟩
  obtain ⟨o, ho, hoi⟩ := hspec.owned _ (huse ha hna) hcheck
  obtain ⟨o', ho', hoj⟩ := hspec.owned _ (huse hb hnb) hcheck
  rw [ho] at ho'
  cases ho'
  exact hoi.symm.trans hoj

/-- The roots that are found are the labels of the entries. -/
theorem roots_taken :
    (taken graph order entries).forest.roots = entryLabels graph entries := by
  have hspec := taken_spec horder graph
  have hlen := hspec.length
  refine hspec.labeling.unique (labeling_entryLabels graph entries) ?_ (fun i j h => ?_)
    fun i j h => labels_eq_of_linked (linkedAt_comm graph entries) (fun _ _ => linkedAt_lt) h
  · rw [Forest.length_roots, length_entryLabels, hlen]
  · obtain ⟨hi, hj⟩ := linkedAt_lt h
    rw [Forest.getElem?_roots (by omega), Forest.getElem?_roots (by omega),
      root_eq_of_linked horder h]

end Taking

section Gathering

variable {α κ : Type} [DecidableEq κ]

/-- Puts items to their keys. -/
def collect (t : Table κ (List α)) (xs : List (α × κ)) : Table κ (List α) :=
  xs.foldl (fun t x => t.set x.2 ((t.get? x.2).getD [] ++ [x.1])) t

theorem keys_collect (t : Table κ (List α)) (xs : List (α × κ)) :
    (collect t xs).keys = appendNew t.keys (xs.map Prod.snd) := by
  induction xs generalizing t with
  | nil => rfl
  | cons x xs ih =>
    rw [collect, List.foldl_cons, ← collect, ih, Table.keys_set, List.map_cons, appendNew]
    split <;> rfl

theorem get?_collect (t : Table κ (List α)) (xs : List (α × κ)) (k : κ) :
    ((collect t xs).get? k).getD [] =
      (t.get? k).getD [] ++ (xs.filter fun x => x.2 = k).map Prod.fst := by
  induction xs generalizing t with
  | nil => exact (List.append_nil _).symm
  | cons x xs ih =>
    rw [collect, List.foldl_cons, ← collect, ih]
    by_cases h : x.2 = k
    · rw [h, Table.get?_set_self, Option.getD_some, List.filter_cons_of_pos (by simpa using h),
        List.map_cons, List.append_assoc, List.singleton_append]
    · rw [Table.get?_set_of_ne _ _ h, List.filter_cons_of_neg (by simpa using h)]

/-- The roots stay what they are while they are looked up. -/
theorem gather_eq (f : Forest) (t : Table Nat (List Entry)) (xs : List (Entry × Nat)) :
    gather f t xs = collect t (xs.map fun x => (x.1, f.root x.2)) := by
  induction xs generalizing f t with
  | nil => rfl
  | cons x xs ih =>
    obtain ⟨hroot, hroots, -⟩ := f.find_spec x.2
    have hrest : (xs.map fun y => (y.1, (f.find x.2).2.root y.2)) =
        xs.map fun y => (y.1, f.root y.2) :=
      List.map_congr_left fun y _ => by rw [hroots]
    change gather (f.find x.2).2 _ xs = _
    rw [ih, hrest, hroot]
    rfl

end Gathering

section Leaders

open Grouping

theorem leaders_concat (ls : List Nat) (l : Nat) :
    leaders (ls ++ [l]) = leaders ls ++ if l = ls.length then [l] else [] := by
  have hold : ∀ i ∈ List.range ls.length,
      decide ((ls ++ [l]).getD i i = i) = decide (ls.getD i i = i) := by
    intro i hi
    rw [List.getD_eq_getElem?_getD, List.getD_eq_getElem?_getD,
      List.getElem?_append_left (List.mem_range.1 hi)]
  have hnew : (ls ++ [l]).getD ls.length ls.length = l := by
    rw [List.getD_eq_getElem?_getD, List.getElem?_concat_length, Option.getD_some]
  unfold leaders
  rw [List.length_append, List.length_singleton, List.range_succ, List.filter_append,
    List.filter_congr hold, List.filter_singleton, hnew]
  by_cases h : l = ls.length
  · rw [if_pos h, decide_eq_true h, cond_true, h]
  · rw [if_neg h, decide_eq_false h, cond_false]

/-- Labels that are first places come up in the order of these places. -/
theorem appendNew_leaders (done rest : List Nat)
    (hle : ∀ i l : Nat, (done ++ rest)[i]? = some l → l ≤ i)
    (hroot : ∀ i l : Nat, (done ++ rest)[i]? = some l → (done ++ rest)[l]? = some l) :
    appendNew (leaders done) rest = leaders (done ++ rest) := by
  induction rest generalizing done with
  | nil => rw [List.append_nil, appendNew]
  | cons l rest ih =>
    have hcut : done ++ l :: rest = done ++ [l] ++ rest := by
      rw [List.append_assoc, List.singleton_append]
    have hl : (done ++ l :: rest)[done.length]? = some l := by
      rw [List.getElem?_append_right (Nat.le_refl _), Nat.sub_self, List.getElem?_cons_zero]
    have hnext := ih (done ++ [l]) (by rwa [← hcut]) (by rwa [← hcut])
    rw [leaders_concat] at hnext
    rw [hcut, ← hnext, appendNew]
    rcases Nat.lt_or_eq_of_le (hle _ _ hl) with hlt | heq
    · -- An earlier label leads to a place that was passed.
      have hmem : l ∈ leaders done := by
        have hlabel := hroot _ _ hl
        rw [List.getElem?_append_left hlt] at hlabel
        exact mem_leaders.2 hlabel
      rw [if_pos hmem, if_neg (Nat.ne_of_lt hlt), List.append_nil]
    · have hmem : l ∉ leaders done := by
        rw [mem_leaders, heq, List.getElem?_eq_none (Nat.le_refl _)]
        exact Option.some_ne_none _ |>.symm
      rw [if_neg hmem, if_pos heq]

end Leaders

section Groups

open Grouping

variable {graph : Graph} {entries : List Entry} {order : Entry → List Handle}

/-- Entries with their roots are entries with their labels. -/
theorem zip_roots_taken (horder : ∀ e ∈ entries, ∀ h, h ∈ order e ↔ h ∈ e.nodes) :
    (entries.zipIdx.map fun x => (x.1, (taken graph order entries).forest.root x.2)) =
      entries.zip (entryLabels graph entries) := by
  rw [← roots_taken horder, Forest.roots, (taken_spec horder graph).length, List.zip_map_right,
    List.zipIdx_eq_zip_range', List.range_eq_range']
  rfl

/-- Entries collected by their labels are the groups. -/
theorem collect_labels (graph : Graph) (entries : List Entry) :
    ((collect [] (entries.zip (entryLabels graph entries))).map fun (_, es) => Group.mk es) =
      Grouping.groups graph entries := by
  have hlab := labeling_entryLabels graph entries
  have hlen := length_entryLabels graph entries
  have hkeys : (collect [] (entries.zip (entryLabels graph entries))).keys =
      leaders (entryLabels graph entries) := by
    rw [keys_collect, List.map_snd_zip (Nat.le_of_eq hlen)]
    exact appendNew_leaders [] _ hlab.le hlab.root
  have hnodup : (collect [] (entries.zip (entryLabels graph entries))).keys.Nodup := by
    rw [keys_collect]
    exact nodup_appendNew _ .nil
  have hvalues := Table.map_snd_eq hnodup []
  rw [hkeys] at hvalues
  calc ((collect [] (entries.zip (entryLabels graph entries))).map fun (_, es) => Group.mk es)
      = ((collect [] (entries.zip (entryLabels graph entries))).map Prod.snd).map Group.mk :=
        (List.map_map).symm
    _ = (leaders (entryLabels graph entries)).map fun i =>
          ⟨members (entryLabels graph entries) entries i⟩ := by
        rw [hvalues, List.map_map]
        refine List.map_congr_left fun i _ => congrArg Group.mk ?_
        exact get?_collect [] _ i
    _ = Grouping.groups graph entries := (Grouping.groups_eq graph entries).symm

/-- The groups that are found with a forest are the groups. -/
theorem groups_eq (horder : ∀ e ∈ entries, ∀ h, h ∈ order e ↔ h ∈ e.nodes)
    (hs : entries.Pairwise fun a b => a.error.firstSeen ≤ b.error.firstSeen) :
    groups graph order entries = Grouping.groups graph entries := by
  unfold groups
  dsimp only
  rw [gather_eq, zip_roots_taken horder, collect_labels]
  apply List.mergeSort_of_pairwise
  exact (groups_sorted hs).imp fun h => decide_eq_true h

end Groups

end Ownership

/-- The groups of a graph are those that are found with a forest. -/
theorem GraphBuild.groups_eq {errors : List LogicalError} {r : Registry} {b : GraphBuild}
    (hresult : (Construction.ofErrors errors r).result = .ok b) {order : Entry → List Handle}
    (horder : ∀ e, ∀ h, h ∈ order e ↔ h ∈ e.nodes) :
    b.groups =
      Ownership.groups b.graph order (Construction.ofErrors errors r).entries := by
  obtain ⟨hb, -, hgroups, -⟩ := Construction.built_of_result hresult
  rw [hgroups, Ownership.groups_eq (fun e _ => horder e) hb.sorted]

end TraitTrace
