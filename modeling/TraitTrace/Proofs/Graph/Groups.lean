import Mathlib.Data.List.Nodup
import TraitTrace.Proofs.Graph.Labels

/-! Groups of entries. The groups divide the entries, two entries stand in one group exactly when a
sequence of entries that share nodes joins them, and a group keeps the order of the entries. -/

namespace TraitTrace

theorem mem_appendNew {α : Type} [DecidableEq α] {known new : List α} {a : α} :
    a ∈ appendNew known new ↔ a ∈ known ∨ a ∈ new := by
  induction new generalizing known with
  | nil => simp [appendNew]
  | cons b new ih =>
    unfold appendNew
    split
    · rename_i hb
      rw [ih, List.mem_cons]
      constructor
      · rintro (h | h)
        · exact .inl h
        · exact .inr (.inr h)
      · rintro (h | rfl | h)
        · exact .inl h
        · exact .inl hb
        · exact .inr h
    · rw [ih, List.mem_append, List.mem_singleton, List.mem_cons, or_assoc]

theorem nodup_appendNew {α : Type} [DecidableEq α] {known : List α} (new : List α)
    (h : known.Nodup) : (appendNew known new).Nodup := by
  induction new generalizing known with
  | nil => exact h
  | cons b new ih =>
    unfold appendNew
    split
    · exact ih h
    · rename_i hb
      apply ih
      rw [List.nodup_append]
      refine ⟨h, List.nodup_singleton b, fun a ha c hc hac => hb ?_⟩
      rw [← List.mem_singleton.1 hc, ← hac]
      exact ha

namespace Group

theorem mem_nodes {g : Group} {h : Handle} : h ∈ g.nodes ↔ ∃ e ∈ g.entries, h ∈ e.nodes := by
  rw [nodes, mem_appendNew, List.mem_flatMap]
  simp

theorem mem_edges {g : Group} {p : Handle × Handle} :
    p ∈ g.edges ↔ ∃ e ∈ g.entries, p ∈ e.edges := by
  rw [edges, mem_appendNew, List.mem_flatMap]
  simp

theorem mem_roots {g : Group} {h : Handle} : h ∈ g.roots ↔ ∃ e ∈ g.entries, h ∈ e.roots := by
  rw [roots, mem_appendNew, List.mem_flatMap]
  simp

theorem foldl_min_le (n : Int) (ns : List Int) :
    ns.foldl min n ≤ n ∧ (∀ m ∈ ns, ns.foldl min n ≤ m) ∧
      (ns.foldl min n = n ∨ ns.foldl min n ∈ ns) := by
  induction ns generalizing n with
  | nil => exact ⟨Int.le_refl n, by simp, .inl rfl⟩
  | cons m ns ih =>
    obtain ⟨hle, hall, hmem⟩ := ih (min n m)
    rw [List.foldl_cons]
    refine ⟨by omega, fun k hk => ?_, ?_⟩
    · rcases List.mem_cons.1 hk with rfl | hk
      · omega
      · exact hall k hk
    · rcases hmem with hmem | hmem
      · rcases Int.le_total n m with hnm | hnm
        · exact .inl (by omega)
        · right
          rw [hmem, Int.min_eq_right hnm]
          exact List.mem_cons_self
      · exact .inr (List.mem_cons_of_mem m hmem)

theorem firstSeen_least {g : Group} (hne : g.entries ≠ []) :
    (∀ e ∈ g.errors, g.firstSeen ≤ e.firstSeen) ∧ ∃ e ∈ g.errors, g.firstSeen = e.firstSeen := by
  unfold firstSeen
  cases hes : g.errors with
  | nil => exact absurd (List.map_eq_nil_iff.1 hes) hne
  | cons e es =>
    simp only [List.map_cons]
    obtain ⟨hle, hall, hmem⟩ := foldl_min_le e.firstSeen (es.map LogicalError.firstSeen)
    refine ⟨fun o ho => ?_, ?_⟩
    · rcases List.mem_cons.1 ho with rfl | ho
      · exact hle
      · exact hall _ (List.mem_map_of_mem ho)
    · rcases hmem with hmem | hmem
      · exact ⟨e, List.mem_cons_self, hmem⟩
      · obtain ⟨o, ho, heq⟩ := List.mem_map.1 hmem
        exact ⟨o, List.mem_cons_of_mem e ho, heq.symm⟩

end Group

namespace Grouping

open Relation

theorem shares_iff {graph : Graph} {a b : Entry} :
    shares graph a b = true ↔ ∃ h ∈ a.nodes, h ∈ b.nodes ∧ graph.isCheck h = false := by
  unfold shares
  rw [List.any_eq_true]
  constructor
  · rintro ⟨h, ha, hb⟩
    simp only [Bool.and_eq_true, Bool.not_eq_true', List.contains_iff_mem] at hb
    exact ⟨h, ha, hb.2, hb.1⟩
  · rintro ⟨h, ha, hb, hc⟩
    refine ⟨h, ha, ?_⟩
    simp only [hc, Bool.not_false, Bool.true_and, List.contains_iff_mem]
    exact hb

theorem shares_comm (graph : Graph) (a b : Entry) : shares graph a b = shares graph b a := by
  rw [Bool.eq_iff_iff, shares_iff, shares_iff]
  constructor <;> exact fun ⟨h, ha, hb, hc⟩ => ⟨h, hb, ha, hc⟩

theorem linkedAt_iff {graph : Graph} {entries : List Entry} {i j : Nat} :
    linkedAt graph entries i j = true ↔
      ∃ a b, entries[i]? = some a ∧ entries[j]? = some b ∧ shares graph a b = true := by
  unfold linkedAt
  split
  · rename_i a b ha hb
    simp [ha, hb]
  · rename_i hnone
    constructor
    · intro h
      cases h
    · rintro ⟨a, b, ha, hb, -⟩
      exact absurd hb (hnone a b ha)

theorem linkedAt_comm (graph : Graph) (entries : List Entry) (i j : Nat) :
    linkedAt graph entries i j = linkedAt graph entries j i := by
  rw [Bool.eq_iff_iff, linkedAt_iff, linkedAt_iff]
  constructor <;>
    exact fun ⟨a, b, ha, hb, hs⟩ => ⟨b, a, hb, ha, by rw [shares_comm]; exact hs⟩

theorem linkedAt_lt {graph : Graph} {entries : List Entry} {i j : Nat}
    (h : linkedAt graph entries i j = true) : i < entries.length ∧ j < entries.length := by
  obtain ⟨a, b, ha, hb, -⟩ := linkedAt_iff.1 h
  exact ⟨(List.getElem?_eq_some_iff.1 ha).1, (List.getElem?_eq_some_iff.1 hb).1⟩

/-- Two entries of a list that share a node other than a checked trait. -/
def Linked (graph : Graph) (entries : List Entry) (a b : Entry) : Prop :=
  a ∈ entries ∧ b ∈ entries ∧ shares graph a b = true

theorem place_unique {entries : List Entry} (hnd : (entries.map Entry.index).Nodup) {i j : Nat}
    {e : Entry} (hi : entries[i]? = some e) (hj : entries[j]? = some e) : i = j := by
  have hlt := (List.getElem?_eq_some_iff.1 hi).1
  have heq : (entries.map Entry.index)[i]? = (entries.map Entry.index)[j]? := by
    rw [List.getElem?_map, List.getElem?_map, hi, hj]
  exact (List.getElem?_inj (by rwa [List.length_map]) hnd).1 heq

def entryLabels (graph : Graph) (entries : List Entry) : List Nat :=
  labels (linkedAt graph entries) entries.length

theorem length_entryLabels (graph : Graph) (entries : List Entry) :
    (entryLabels graph entries).length = entries.length :=
  (labels_spec (linkedAt_comm graph entries) entries.length).2.1

theorem labeling_entryLabels (graph : Graph) (entries : List Entry) :
    Labeling (linkedAt graph entries) (entryLabels graph entries) :=
  (labels_spec (linkedAt_comm graph entries) entries.length).1

/-- The entries of a label. -/
def members (ls : List Nat) (entries : List Entry) (l : Nat) : List Entry :=
  ((entries.zip ls).filter fun (_, k) => k = l).map Prod.fst

theorem mem_members {ls : List Nat} {entries : List Entry} {l : Nat} {e : Entry} :
    e ∈ members ls entries l ↔ ∃ i : Nat, entries[i]? = some e ∧ ls[i]? = some l := by
  unfold members
  rw [List.mem_map]
  constructor
  · rintro ⟨⟨e', k⟩, hmem, rfl⟩
    obtain ⟨hzip, hk⟩ := List.mem_filter.1 hmem
    obtain ⟨i, hi⟩ := List.getElem?_of_mem hzip
    rw [List.getElem?_zip_eq_some] at hi
    refine ⟨i, hi.1, ?_⟩
    rw [hi.2]
    simpa using hk
  · rintro ⟨i, he, hl⟩
    refine ⟨(e, l), List.mem_filter.2 ⟨?_, by simp⟩, rfl⟩
    exact List.mem_of_getElem? (List.getElem?_zip_eq_some.2 ⟨he, hl⟩)

theorem sublist_members {ls : List Nat} {entries : List Entry} (l : Nat)
    (h : ls.length = entries.length) : (members ls entries l).Sublist entries := by
  have hsub := (List.filter_sublist (p := fun (x : Entry × Nat) => decide (x.2 = l))
    (l := entries.zip ls)).map Prod.fst
  rwa [List.map_fst_zip (Nat.le_of_eq h.symm)] at hsub

def leaders (ls : List Nat) : List Nat := (List.range ls.length).filter fun i => ls.getD i i = i

theorem mem_leaders {ls : List Nat} {i : Nat} : i ∈ leaders ls ↔ ls[i]? = some i := by
  unfold leaders
  rw [List.mem_filter, List.mem_range, List.getD_eq_getElem?_getD, decide_eq_true_eq]
  constructor
  · rintro ⟨hlt, hi⟩
    rw [List.getElem?_eq_getElem hlt, Option.getD_some] at hi
    rw [List.getElem?_eq_getElem hlt, hi]
  · intro hi
    refine ⟨(List.getElem?_eq_some_iff.1 hi).1, ?_⟩
    rw [hi, Option.getD_some]

theorem groups_eq (graph : Graph) (entries : List Entry) :
    groups graph entries =
      (leaders (entryLabels graph entries)).map fun i =>
        ⟨members (entryLabels graph entries) entries i⟩ := by
  unfold leaders
  rw [length_entryLabels]
  rfl

/-- The items of a list, taken key by key, are the items of the list. -/
theorem perm_flatMap_filter {α : Type} (f : α → Nat) {ks : List Nat} (hks : ks.Nodup) (xs : List α)
    (h : ∀ x ∈ xs, f x ∈ ks) : (ks.flatMap fun k => xs.filter fun x => f x = k).Perm xs := by
  induction ks generalizing xs with
  | nil =>
    cases xs with
    | nil => exact .nil
    | cons x xs => exact absurd (h x List.mem_cons_self) (List.not_mem_nil)
  | cons k ks ih =>
    obtain ⟨hk, hks⟩ := List.nodup_cons.1 hks
    -- The further keys find their items among those that do not have the first key.
    have hrest : (ks.flatMap fun k' => xs.filter fun x => f x = k') =
        ks.flatMap fun k' => (xs.filter fun x => !decide (f x = k)).filter fun x => f x = k' := by
      apply List.flatMap_congr
      intro k' hk'
      rw [List.filter_filter]
      apply List.filter_congr
      intro x _
      by_cases hx : f x = k'
      · have hne : f x ≠ k := fun he => hk (by rw [← he, hx]; exact hk')
        simp [hx, hx ▸ hne]
      · simp [hx]
    have hperm := ih hks (xs.filter fun x => !decide (f x = k)) (by
      intro x hx
      obtain ⟨hmem, hne⟩ := List.mem_filter.1 hx
      rcases List.mem_cons.1 (h x hmem) with he | he
      · simp [he] at hne
      · exact he)
    rw [List.flatMap_cons, hrest]
    exact (hperm.append_left _).trans (List.filter_append_perm _ xs)

/-- The groups divide the entries. -/
theorem perm_flatMap_groups (graph : Graph) (entries : List Entry) :
    ((groups graph entries).flatMap Group.entries).Perm entries := by
  have hlen := length_entryLabels graph entries
  have hlab := labeling_entryLabels graph entries
  have hnodup : (leaders (entryLabels graph entries)).Nodup :=
    List.Nodup.filter _ List.nodup_range
  have hperm := perm_flatMap_filter Prod.snd hnodup
    (entries.zip (entryLabels graph entries)) (by
      intro x hx
      obtain ⟨i, hi⟩ := List.getElem?_of_mem hx
      rw [List.getElem?_zip_eq_some] at hi
      exact mem_leaders.2 (hlab.root i x.2 hi.2))
  have hmap := hperm.map Prod.fst
  rw [List.map_fst_zip (Nat.le_of_eq hlen.symm), List.map_flatMap] at hmap
  rw [groups_eq, List.flatMap_map]
  exact hmap

theorem exists_group {graph : Graph} {entries : List Entry} {e : Entry} (he : e ∈ entries) :
    ∃ (j : Nat) (g : Group), (groups graph entries)[j]? = some g ∧ e ∈ g.entries := by
  rw [← (perm_flatMap_groups graph entries).mem_iff] at he
  obtain ⟨g, hg, heg⟩ := List.mem_flatMap.1 he
  obtain ⟨j, hj⟩ := List.getElem?_of_mem hg
  exact ⟨j, g, hj, heg⟩

theorem joined_iff {graph : Graph} {entries : List Entry} (hnd : (entries.map Entry.index).Nodup)
    {i j : Nat} {a b : Entry} (ha : entries[i]? = some a) (hb : entries[j]? = some b) :
    Joined (linkedAt graph entries) i j ↔ ReflTransGen (Linked graph entries) a b := by
  constructor
  · intro h
    induction h generalizing b with
    | refl =>
      rw [ha] at hb
      cases hb
      exact .refl
    | tail _ hl ih =>
      obtain ⟨c, b', hc, hb', hs⟩ := linkedAt_iff.1 hl
      rw [hb] at hb'
      cases hb'
      exact (ih hc).tail ⟨List.mem_of_getElem? hc, List.mem_of_getElem? hb, hs⟩
  · intro h
    induction h generalizing j with
    | refl =>
      have hij : i = j := place_unique hnd ha hb
      rw [hij]
      exact .refl
    | tail _ hl ih =>
      obtain ⟨hc, -, hs⟩ := hl
      obtain ⟨k, hk⟩ := List.getElem?_of_mem hc
      exact (ih hk).tail (linkedAt_iff.2 ⟨_, _, hk, hb, hs⟩)

/-- Two entries stand in one group exactly when a sequence of entries that share nodes joins
them. -/
theorem same_group_iff {graph : Graph} {entries : List Entry}
    (hnd : (entries.map Entry.index).Nodup) {a b : Entry} (ha : a ∈ entries) (hb : b ∈ entries) :
    (∃ g ∈ groups graph entries, a ∈ g.entries ∧ b ∈ g.entries) ↔
      ReflTransGen (Linked graph entries) a b := by
  obtain ⟨i, hi⟩ := List.getElem?_of_mem ha
  obtain ⟨j, hj⟩ := List.getElem?_of_mem hb
  have hi' := (List.getElem?_eq_some_iff.1 hi).1
  rw [← joined_iff hnd hi hj,
    ← labels_eq_iff (linkedAt_comm graph entries) (fun _ _ h => linkedAt_lt h) hi', groups_eq]
  constructor
  · rintro ⟨g, hg, hag, hbg⟩
    obtain ⟨l, -, rfl⟩ := List.mem_map.1 hg
    obtain ⟨i', hia, hil⟩ := mem_members.1 hag
    obtain ⟨j', hjb, hjl⟩ := mem_members.1 hbg
    rw [place_unique hnd hi hia, place_unique hnd hj hjb]
    exact hil.trans hjl.symm
  · intro heq
    have hlt : i < (entryLabels graph entries).length := by
      rw [length_entryLabels]
      exact hi'
    have hl := List.getElem?_eq_getElem hlt
    refine ⟨_, List.mem_map.2 ⟨_, mem_leaders.2 ?_, rfl⟩, mem_members.2 ⟨i, hi, hl⟩,
      mem_members.2 ⟨j, hj, heq.symm.trans hl⟩⟩
    exact (labeling_entryLabels graph entries).root i _ hl

theorem entries_ne_nil {graph : Graph} {entries : List Entry} {g : Group}
    (hg : g ∈ groups graph entries) : g.entries ≠ [] := by
  rw [groups_eq] at hg
  obtain ⟨l, hl, rfl⟩ := List.mem_map.1 hg
  have hroot := mem_leaders.1 hl
  have hlt := (List.getElem?_eq_some_iff.1 hroot).1
  rw [length_entryLabels] at hlt
  exact List.ne_nil_of_mem (mem_members.2 ⟨l, List.getElem?_eq_getElem hlt, hroot⟩)

theorem entries_sublist {graph : Graph} {entries : List Entry} {g : Group}
    (hg : g ∈ groups graph entries) : g.entries.Sublist entries := by
  rw [groups_eq] at hg
  obtain ⟨l, -, rfl⟩ := List.mem_map.1 hg
  exact sublist_members l (length_entryLabels graph entries)

/-- Groups of entries in the order of their numbers are in the order of their least numbers. -/
theorem groups_sorted {graph : Graph} {entries : List Entry}
    (hs : entries.Pairwise fun a b => a.error.firstSeen ≤ b.error.firstSeen) :
    (groups graph entries).Pairwise fun g g' => g.firstSeen ≤ g'.firstSeen := by
  have hmem : ∀ i ∈ leaders (entryLabels graph entries),
      (⟨members (entryLabels graph entries) entries i⟩ : Group) ∈ groups graph entries := by
    intro i hi
    rw [groups_eq]
    exact List.mem_map_of_mem hi
  rw [groups_eq, List.pairwise_map]
  have hlt : (leaders (entryLabels graph entries)).Pairwise (· < ·) :=
    List.pairwise_lt_range.filter _
  refine hlt.imp_of_mem fun {i j} hi hj hij => ?_
  obtain ⟨hle, -⟩ := Group.firstSeen_least (entries_ne_nil (hmem i hi))
  obtain ⟨-, o, ho, heq⟩ := Group.firstSeen_least (entries_ne_nil (hmem j hj))
  obtain ⟨e, he, rfl⟩ := List.mem_map.1 ho
  -- The first entry of the earlier group stands before every entry of the later one.
  obtain ⟨k, hk, hkl⟩ := mem_members.1 he
  have hjk := (labeling_entryLabels graph entries).le k j hkl
  have hroot := mem_leaders.1 hi
  have hi' := (List.getElem?_eq_some_iff.1 hroot).1
  rw [length_entryLabels] at hi'
  have hfirst := List.getElem?_eq_getElem hi'
  have hseen := hle _ (List.mem_map_of_mem (mem_members.2 ⟨i, hfirst, hroot⟩))
  obtain ⟨hk', rfl⟩ := List.getElem?_eq_some_iff.1 hk
  have hsorted := List.pairwise_iff_getElem.1 hs i k hi' hk' (by omega)
  rw [heq]
  exact Int.le_trans hseen hsorted

end Grouping

end TraitTrace
