import Mathlib.Data.List.Perm.Basic
import Mathlib.Logic.Relation
import TraitTrace.Graph.Groups
import TraitTrace.Proofs.Places

/-! Labels of linked places. Every label is the first place of its class, and two places have one
label exactly when a sequence of links leads from one to the other. -/

namespace TraitTrace.Grouping

open Relation

/-- Places that a sequence of links joins. -/
def Joined (linked : Nat → Nat → Bool) : Nat → Nat → Prop :=
  ReflTransGen fun i j => linked i j = true

theorem Joined.symm {linked : Nat → Nat → Bool} (hs : ∀ i j, linked i j = linked j i) {i j : Nat}
    (h : Joined linked i j) : Joined linked j i := by
  induction h with
  | refl => exact .refl
  | tail _ hl ih => exact .head (by rw [hs]; exact hl) ih

/-- Labels that are first places and to which links lead. -/
structure Labeling (linked : Nat → Nat → Bool) (ls : List Nat) : Prop where
  le : ∀ i l : Nat, ls[i]? = some l → l ≤ i
  root : ∀ i l : Nat, ls[i]? = some l → ls[l]? = some l
  sound : ∀ i l : Nat, ls[i]? = some l → Joined linked i l

/-- Labels that keep equal what was equal. -/
def Coarser (ls ls' : List Nat) : Prop :=
  ls'.length = ls.length ∧ ∀ i j : Nat, ls[i]? = ls[j]? → ls'[i]? = ls'[j]?

theorem Coarser.refl (ls : List Nat) : Coarser ls ls := ⟨rfl, fun _ _ h => h⟩

theorem Coarser.trans {a b c : List Nat} (h : Coarser a b) (h' : Coarser b c) : Coarser a c :=
  ⟨h'.1.trans h.1, fun i j hij => h'.2 i j (h.2 i j hij)⟩

/-- The label that joining two labels makes of a label. -/
def unified (a b l : Nat) : Nat := if l = max a b then min a b else l

theorem unified_min (a b : Nat) : unified a b (min a b) = min a b := by
  unfold unified
  split <;> rfl

theorem unified_left_eq_right (a b : Nat) : unified a b a = unified a b b := by
  unfold unified
  split <;> split <;> omega

theorem getElem?_unify (ls : List Nat) (a b i : Nat) :
    (unify ls a b)[i]? = ls[i]?.map (unified a b) := List.getElem?_map

theorem coarser_unify (ls : List Nat) (a b : Nat) : Coarser ls (unify ls a b) := by
  refine ⟨List.length_map _, fun i j h => ?_⟩
  rw [getElem?_unify, getElem?_unify, h]

theorem Labeling.unify {linked : Nat → Nat → Bool} {ls : List Nat} (h : Labeling linked ls)
    (hs : ∀ i j, linked i j = linked j i) {i j a b : Nat} (ha : ls[j]? = some a)
    (hb : ls[i]? = some b) (hl : linked j i = true) : Labeling linked (unify ls a b) := by
  have hab : Joined linked a b := by
    have hja := (h.sound j a ha).symm hs
    exact (hja.tail hl).trans (h.sound i b hb)
  have hmin : ls[min a b]? = some (min a b) := by
    rcases Nat.le_total a b with hle | hle
    · rw [Nat.min_eq_left hle]
      exact h.root j a ha
    · rw [Nat.min_eq_right hle]
      exact h.root i b hb
  have hdown : Joined linked (max a b) (min a b) := by
    rcases Nat.le_total a b with hle | hle
    · rw [Nat.max_eq_right hle, Nat.min_eq_left hle]
      exact hab.symm hs
    · rw [Nat.max_eq_left hle, Nat.min_eq_right hle]
      exact hab
  have hold : ∀ k l : Nat, (Grouping.unify ls a b)[k]? = some l → ∃ o, ls[k]? = some o ∧
      ((o = max a b ∧ l = min a b) ∨ (o ≠ max a b ∧ l = o)) := by
    intro k l hk
    rw [getElem?_unify, Option.map_eq_some_iff] at hk
    obtain ⟨o, ho, rfl⟩ := hk
    refine ⟨o, ho, ?_⟩
    unfold unified
    split
    · exact .inl ⟨‹_›, rfl⟩
    · exact .inr ⟨‹_›, rfl⟩
  constructor
  · intro k l hk
    obtain ⟨o, ho, hcase⟩ := hold k l hk
    have := h.le k o ho
    omega
  · intro k l hk
    obtain ⟨o, ho, hcase⟩ := hold k l hk
    rw [getElem?_unify]
    rcases hcase with ⟨-, rfl⟩ | ⟨hne, rfl⟩
    · rw [hmin, Option.map_some, unified_min]
    · rw [h.root k l ho, Option.map_some, unified, if_neg hne]
  · intro k l hk
    obtain ⟨o, ho, hcase⟩ := hold k l hk
    have hko := h.sound k o ho
    rcases hcase with ⟨rfl, rfl⟩ | ⟨-, rfl⟩
    · exact hko.trans hdown
    · exact hko

def joinStep (linked : Nat → Nat → Bool) (i : Nat) (ls : List Nat) (j : Nat) : List Nat :=
  if linked j i then unify ls (ls.getD j j) (ls.getD i i) else ls

/-- Joining a place with some others gives coarser labels, in which it has the labels of those that
are linked to it. -/
theorem Labeling.joinSteps {linked : Nat → Nat → Bool} (hs : ∀ i j, linked i j = linked j i)
    {i : Nat} (js : List Nat) {ls : List Nat} (h : Labeling linked ls) (hi : i < ls.length)
    (hjs : ∀ j ∈ js, j < ls.length) :
    Labeling linked (js.foldl (joinStep linked i) ls) ∧
      Coarser ls (js.foldl (joinStep linked i) ls) ∧
      ∀ j ∈ js, linked j i = true →
        (js.foldl (joinStep linked i) ls)[j]? = (js.foldl (joinStep linked i) ls)[i]? := by
  induction js generalizing ls with
  | nil => exact ⟨h, .refl ls, by simp⟩
  | cons j js ih =>
    have hj := hjs j List.mem_cons_self
    -- One step gives labels again, coarser ones, in which this pair agrees if it is linked.
    have hstep : Labeling linked (joinStep linked i ls j) ∧ Coarser ls (joinStep linked i ls j) ∧
        (linked j i = true → (joinStep linked i ls j)[j]? = (joinStep linked i ls j)[i]?) := by
      unfold joinStep
      split
      · rename_i hl
        have ha := List.getElem?_eq_getElem hj
        have hb := List.getElem?_eq_getElem hi
        rw [List.getD_eq_getElem?_getD, List.getD_eq_getElem?_getD, ha, hb, Option.getD_some,
          Option.getD_some]
        refine ⟨h.unify hs ha hb hl, coarser_unify ls _ _, fun _ => ?_⟩
        rw [getElem?_unify, getElem?_unify, ha, hb, Option.map_some, Option.map_some,
          unified_left_eq_right]
      · rename_i hl
        exact ⟨h, .refl ls, fun hl' => absurd hl' hl⟩
    obtain ⟨hlab, hcoarse, hpair⟩ := hstep
    have hlen := hcoarse.1
    obtain ⟨hlab', hcoarse', hpairs⟩ := ih hlab (by omega)
      (fun k hk => by have := hjs k (List.mem_cons_of_mem j hk); omega)
    rw [List.foldl_cons]
    refine ⟨hlab', hcoarse.trans hcoarse', fun k hk hl => ?_⟩
    rcases List.mem_cons.1 hk with rfl | hk
    · exact hcoarse'.2 k i (hpair hl)
    · exact hpairs k hk hl

theorem Labeling.concat {linked : Nat → Nat → Bool} {ls : List Nat} (h : Labeling linked ls) :
    Labeling linked (ls ++ [ls.length]) := by
  have hnew : (ls ++ [ls.length])[ls.length]? = some ls.length := List.getElem?_concat_length
  constructor
  · intro i l hi
    rcases getElem?_concat hi with hi | ⟨rfl, rfl⟩
    · exact h.le i l hi
    · exact Nat.le_refl _
  · intro i l hi
    rcases getElem?_concat hi with hi | ⟨rfl, rfl⟩
    · have hroot := h.root i l hi
      rw [List.getElem?_append_left (List.getElem?_eq_some_iff.1 hroot).1]
      exact hroot
    · exact hnew
  · intro i l hi
    rcases getElem?_concat hi with hi | ⟨rfl, rfl⟩
    · exact h.sound i l hi
    · exact .refl

/-- The labels of the first places are first places themselves, and equal where a link is. -/
theorem labels_spec {linked : Nat → Nat → Bool} (hs : ∀ i j, linked i j = linked j i) (n : Nat) :
    Labeling linked (labels linked n) ∧ (labels linked n).length = n ∧
      ∀ j i, j < i → i < n → linked j i = true → (labels linked n)[j]? = (labels linked n)[i]? := by
  induction n with
  | zero => exact ⟨⟨by simp [labels], by simp [labels], by simp [labels]⟩, rfl, by omega⟩
  | succ n ih =>
    obtain ⟨hlab, hlen, hpairs⟩ := ih
    have hstart : Labeling linked (labels linked n ++ [n]) := by
      have := hlab.concat
      rwa [hlen] at this
    have hlen' : (labels linked n ++ [n]).length = n + 1 := by
      rw [List.length_append, hlen, List.length_singleton]
    obtain ⟨hlab', hcoarse, hpairs'⟩ := Labeling.joinSteps hs (List.range n) hstart
      (i := n) (by omega) (fun j hj => by have := List.mem_range.1 hj; omega)
    change Labeling linked (joinEarlier linked (labels linked n ++ [n]) n) at hlab'
    refine ⟨hlab', hcoarse.1.trans hlen', fun j i hji hi hl => ?_⟩
    rcases Nat.lt_succ_iff_lt_or_eq.1 hi with hi | rfl
    · apply hcoarse.2 j i
      rw [List.getElem?_append_left (by omega), List.getElem?_append_left (by omega)]
      exact hpairs j i hji hi hl
    · exact hpairs' j (List.mem_range.2 hji) hl

theorem Joined.getElem?_eq {linked : Nat → Nat → Bool} {ls : List Nat}
    (heq : ∀ i j, linked i j = true → ls[i]? = ls[j]?) {i j : Nat} (h : Joined linked i j) :
    ls[i]? = ls[j]? := by
  induction h with
  | refl => rfl
  | tail _ hl ih => exact ih.trans (heq _ _ hl)

/-- Linked places have one label. -/
theorem labels_eq_of_linked {linked : Nat → Nat → Bool} (hs : ∀ i j, linked i j = linked j i)
    {n : Nat} (hb : ∀ i j, linked i j = true → i < n ∧ j < n) {i j : Nat}
    (h : linked i j = true) : (labels linked n)[i]? = (labels linked n)[j]? := by
  obtain ⟨-, -, hpairs⟩ := labels_spec hs n
  obtain ⟨hi, hj⟩ := hb i j h
  rcases Nat.lt_trichotomy i j with hlt | rfl | hlt
  · exact hpairs i j hlt hj h
  · rfl
  · exact (hpairs j i hlt hi (by rw [hs]; exact h)).symm

/-- Two places have one label exactly when a sequence of links joins them. -/
theorem labels_eq_iff {linked : Nat → Nat → Bool} (hs : ∀ i j, linked i j = linked j i) {n : Nat}
    (hb : ∀ i j, linked i j = true → i < n ∧ j < n) {i j : Nat} (hi : i < n) :
    (labels linked n)[i]? = (labels linked n)[j]? ↔ Joined linked i j := by
  obtain ⟨hlab, hlen, -⟩ := labels_spec hs n
  constructor
  · intro heq
    have hi' : i < (labels linked n).length := by omega
    have hsome := List.getElem?_eq_getElem hi'
    have hij := hlab.sound i _ hsome
    exact hij.trans ((hlab.sound j _ (heq ▸ hsome)).symm hs)
  · exact fun h => h.getElem?_eq fun _ _ hl => labels_eq_of_linked hs hb hl

/-- Labels in which linked places are equal are the only ones: each is the least place of its
class. -/
theorem Labeling.unique {linked : Nat → Nat → Bool} {ls ls' : List Nat} (h : Labeling linked ls)
    (h' : Labeling linked ls') (hlen : ls.length = ls'.length)
    (heq : ∀ i j, linked i j = true → ls[i]? = ls[j]?)
    (heq' : ∀ i j, linked i j = true → ls'[i]? = ls'[j]?) : ls = ls' := by
  apply List.ext_getElem hlen
  intro i hi hi'
  have hl := List.getElem?_eq_getElem hi
  have hl' := List.getElem?_eq_getElem hi'
  apply Nat.le_antisymm
  · have hroot := ((h'.sound i _ hl').getElem?_eq heq).symm.trans hl
    exact h.le _ _ hroot
  · have hroot := ((h.sound i _ hl).getElem?_eq heq').symm.trans hl'
    exact h'.le _ _ hroot

end TraitTrace.Grouping
