import Mathlib.Data.List.Induction
import Mathlib.Data.List.Nodup
import TraitTrace.Graph.Basic
import TraitTrace.Proofs.Table

/-! What a registry has learned. The entry of a marker is a lesson that no other one for the marker
is surer than, and a name leads back to a marker of a surest such entry. Where lessons of equal
confidence do not contradict each other, the order in which they came does not show. -/

namespace TraitTrace

theorem Confidence.eq_of_rank {a b : Confidence} (h : a.rank = b.rank) : a = b := by
  cases a <;> cases b <;> first | rfl | cases h

namespace Lesson

/-- A lesson than which none for its marker is surer. -/
def Standing (ls : List Lesson) (l : Lesson) : Prop :=
  l ∈ ls ∧ ∀ o ∈ ls, o.role = l.role → o.marker = l.marker → o.confidence.rank ≤ l.confidence.rank

/-- A standing lesson than which no standing one of its name is surer. -/
def Foremost (ls : List Lesson) (l : Lesson) : Prop :=
  Standing ls l ∧ ∀ o, Standing ls o → o.role = l.role → o.name = l.name →
    o.confidence.rank ≤ l.confidence.rank

/-- Lessons of which the standing ones give a marker one name, and the foremost ones a name one
marker. -/
structure Unambiguous (ls : List Lesson) : Prop where
  name : ∀ l o, Standing ls l → Standing ls o → l.role = o.role → l.marker = o.marker →
    l.name = o.name
  marker : ∀ l o, Foremost ls l → Foremost ls o → l.role = o.role → l.name = o.name →
    l.marker = o.marker

theorem Standing.congr {ls ls' : List Lesson} (h : ∀ l, l ∈ ls ↔ l ∈ ls') {l : Lesson}
    (hl : Standing ls l) : Standing ls' l :=
  ⟨(h l).1 hl.1, fun o ho => hl.2 o ((h o).2 ho)⟩

theorem Standing.rank_eq {ls : List Lesson} {l o : Lesson} (hl : Standing ls l)
    (ho : Standing ls o) (hrole : l.role = o.role) (hmarker : l.marker = o.marker) :
    l.confidence = o.confidence :=
  Confidence.eq_of_rank
    (Nat.le_antisymm (ho.2 l hl.1 hrole hmarker) (hl.2 o ho.1 hrole.symm hmarker.symm))

end Lesson

namespace Registry

open Lesson

theorem names_learn (r : Registry) (l : Lesson) (role : Role) : (r.learn l).names role =
    if r.accepts l ∧ l.role = role then (r.names role).set l.marker ⟨l.name, l.confidence⟩
    else r.names role := by
  unfold learn
  by_cases ha : r.accepts l
  · rw [if_pos ha]
    cases hl : l.role <;> cases role <;> simp [names, ha]
  · rw [if_neg ha, if_neg fun h => ha h.1]

theorem get?_learn_self {r : Registry} {l : Lesson} (h : r.accepts l) :
    (r.learn l).get? l.role l.marker = some ⟨l.name, l.confidence⟩ := by
  rw [get?, names_learn, if_pos ⟨h, rfl⟩, Table.get?_set_self]

theorem get?_learn_other {r : Registry} {l : Lesson} {role : Role} {marker : String}
    (h : ¬ (r.accepts l ∧ l.role = role ∧ l.marker = marker)) :
    (r.learn l).get? role marker = r.get? role marker := by
  rw [get?, get?, names_learn]
  split
  · rename_i hcase
    exact Table.get?_set_of_ne _ _ fun hm => h ⟨hcase.1, hcase.2, hm⟩
  · rfl

/-- What a registry holds after some lessons: for each marker that was taught, a lesson that
stands. -/
structure Taught (ls : List Lesson) (r : Registry) : Prop where
  standing : ∀ role marker n, r.get? role marker = some n →
    Standing ls ⟨role, marker, n.name, n.confidence⟩
  known : ∀ l ∈ ls, ∃ n, r.get? l.role l.marker = some n
  nodup : ∀ role, (r.names role).keys.Nodup

theorem taught_empty : Taught [] empty := by
  refine ⟨?_, fun l hl => absurd hl List.not_mem_nil, ?_⟩
  · intro role marker n hn
    cases role <;> cases hn
  · intro role
    cases role <;> exact .nil

theorem Taught.nodup_learn {ls : List Lesson} {r : Registry} (h : Taught ls r) (l : Lesson)
    (role : Role) : ((r.learn l).names role).keys.Nodup := by
  rw [names_learn]
  split
  · rw [Table.keys_set]
    split
    · exact h.nodup role
    · rename_i hnew
      rw [List.nodup_append]
      refine ⟨h.nodup role, List.nodup_singleton _, ?_⟩
      intro a ha b hb hab
      rw [List.mem_singleton.1 hb] at hab
      exact hnew (hab ▸ ha)
  · exact h.nodup role

/-- One more lesson replaces the entry of its marker only if it is surer. -/
theorem Taught.learn {ls : List Lesson} {r : Registry} (h : Taught ls r) (l : Lesson) :
    Taught (ls ++ [l]) (r.learn l) := by
  refine ⟨?_, ?_, h.nodup_learn l⟩
  · intro role marker n hn
    by_cases hcase : r.accepts l ∧ l.role = role ∧ l.marker = marker
    · obtain ⟨haccepts, rfl, rfl⟩ := hcase
      rw [get?_learn_self haccepts] at hn
      cases hn
      refine ⟨List.mem_append_right _ List.mem_cons_self, fun o ho hrole hmarker => ?_⟩
      rcases List.mem_append.1 ho with ho | ho
      · -- The new lesson is surer than the one that stood, and that one is than all others.
        obtain ⟨n, hn⟩ := h.known o ho
        rw [hrole, hmarker] at hn
        have hle := (h.standing _ _ n hn).2 o ho hrole hmarker
        rw [accepts, hn] at haccepts
        exact Nat.le_of_lt (Nat.lt_of_le_of_lt hle (of_decide_eq_true haccepts))
      · obtain rfl := List.mem_singleton.1 ho
        exact Nat.le_refl _
    · rw [get?_learn_other hcase] at hn
      have hold := h.standing role marker n hn
      refine ⟨List.mem_append_left _ hold.1, fun o ho hrole hmarker => ?_⟩
      rcases List.mem_append.1 ho with ho | ho
      · exact hold.2 o ho hrole hmarker
      · rw [List.mem_singleton.1 ho] at hrole hmarker ⊢
        have hrejected : ¬ r.accepts l := fun ha => hcase ⟨ha, hrole, hmarker⟩
        rw [accepts, hrole, hmarker, hn, decide_eq_true_eq] at hrejected
        exact Nat.le_of_not_lt hrejected
  · intro o ho
    by_cases hcase : r.accepts l ∧ l.role = o.role ∧ l.marker = o.marker
    · obtain ⟨haccepts, hrole, hmarker⟩ := hcase
      rw [← hrole, ← hmarker]
      exact ⟨_, get?_learn_self haccepts⟩
    · rw [get?_learn_other hcase]
      rcases List.mem_append.1 ho with ho | ho
      · exact h.known o ho
      · rw [List.mem_singleton.1 ho] at hcase ⊢
        cases hn : r.get? l.role l.marker with
        | some n => exact ⟨n, rfl⟩
        | none =>
          refine absurd ⟨?_, rfl, rfl⟩ hcase
          rw [accepts, hn]

theorem Taught.learnAll {known ls : List Lesson} {r : Registry} (h : Taught known r) :
    Taught (known ++ ls) (r.learnAll ls).1 := by
  induction ls generalizing known r with
  | nil =>
    rw [List.append_nil]
    exact h
  | cons l ls ih =>
    have hrest := ih (h.learn l)
    rw [List.append_assoc, List.singleton_append] at hrest
    exact hrest

theorem Taught.mem_names {ls : List Lesson} {r : Registry} (h : Taught ls r) {role : Role}
    {marker : String} {n : LearnedName} :
    (marker, n) ∈ r.names role ↔ r.get? role marker = some n :=
  (Table.get?_eq_some_iff (h.nodup role)).symm

/-- The surest of some entries is one of them, and of equals the first. -/
theorem foldl_surer (entries : List (String × LearnedName)) :
    match entries.foldl surer none with
    | none => entries = []
    | some b => ∃ before after, entries = before ++ b :: after ∧
        (∀ e ∈ before, e.2.confidence.rank < b.2.confidence.rank) ∧
        ∀ e ∈ after, e.2.confidence.rank ≤ b.2.confidence.rank := by
  induction entries using List.reverseRecOn with
  | nil => rfl
  | append_singleton entries e ih =>
    rw [List.foldl_append, List.foldl_cons, List.foldl_nil]
    cases hbest : entries.foldl surer none with
    | none =>
      rw [hbest] at ih
      subst ih
      exact ⟨[], [], rfl, by simp, by simp⟩
    | some b =>
      rw [hbest] at ih
      obtain ⟨before, after, rfl, hbefore, hafter⟩ := ih
      by_cases hlt : b.2.confidence.rank < e.2.confidence.rank
      · rw [surer, if_pos hlt]
        refine ⟨before ++ b :: after, [], rfl, fun o ho => ?_, by simp⟩
        rcases List.mem_append.1 ho with ho | ho
        · exact Nat.lt_trans (hbefore o ho) hlt
        · rcases List.mem_cons.1 ho with rfl | ho
          · exact hlt
          · exact Nat.lt_of_le_of_lt (hafter o ho) hlt
      · rw [surer, if_neg hlt]
        refine ⟨before, after ++ [e], by simp, hbefore, fun o ho => ?_⟩
        rcases List.mem_append.1 ho with ho | ho
        · exact hafter o ho
        · rw [List.mem_singleton.1 ho]
          exact Nat.le_of_not_lt hlt

/-- A name leads back to a marker of a surest entry that carries it. -/
theorem Taught.markerFor_spec {ls : List Lesson} {r : Registry} (h : Taught ls r) (role : Role)
    (name : String) :
    match r.markerFor role name with
    | none => ∀ marker n, r.get? role marker = some n → n.name ≠ name
    | some marker => ∃ n, r.get? role marker = some n ∧ n.name = name ∧
        ∀ other k, r.get? role other = some k → k.name = name →
          k.confidence.rank ≤ n.confidence.rank := by
  have hmem : ∀ marker n, (marker, n) ∈ (r.names role).filter (fun e => e.2.name == name) ↔
      r.get? role marker = some n ∧ n.name = name := by
    intro marker n
    rw [List.mem_filter, h.mem_names, beq_iff_eq]
  have hbest := foldl_surer ((r.names role).filter fun e => e.2.name == name)
  unfold markerFor
  cases hfold : ((r.names role).filter fun e => e.2.name == name).foldl surer none with
  | none =>
    rw [hfold] at hbest
    intro marker n hn hname
    have hin := (hmem marker n).2 ⟨hn, hname⟩
    rw [hbest] at hin
    cases hin
  | some b =>
    rw [hfold] at hbest
    obtain ⟨before, after, hentries, hbefore, hafter⟩ := hbest
    rw [hentries] at hmem
    obtain ⟨hn, hname⟩ := (hmem b.1 b.2).1 (List.mem_append_right _ List.mem_cons_self)
    refine ⟨b.2, hn, hname, fun other k hk hkname => ?_⟩
    rcases List.mem_append.1 ((hmem other k).2 ⟨hk, hkname⟩) with hin | hin
    · exact Nat.le_of_lt (hbefore _ hin)
    · rcases List.mem_cons.1 hin with rfl | hin
      · exact Nat.le_refl _
      · exact hafter _ hin

section Unambiguous

variable {ls ls' : List Lesson} {r r' : Registry}

/-- Unambiguous lessons leave the same entries in every order. -/
theorem Taught.get?_subset (h : Taught ls r) (h' : Taught ls' r') (hls : ∀ l, l ∈ ls ↔ l ∈ ls')
    (hu : Unambiguous ls) {role : Role} {marker : String} {n : LearnedName}
    (hn : r.get? role marker = some n) : r'.get? role marker = some n := by
  have hstanding := h.standing role marker n hn
  obtain ⟨k, hk⟩ := h'.known _ ((hls _).1 hstanding.1)
  have hother := (h'.standing role marker k hk).congr fun l => (hls l).symm
  have hname := hu.name _ _ hstanding hother rfl rfl
  have hconfidence := hstanding.rank_eq hother rfl rfl
  obtain ⟨name, confidence⟩ := n
  obtain ⟨name', confidence'⟩ := k
  cases hname
  cases hconfidence
  exact hk

theorem Taught.get?_congr (h : Taught ls r) (h' : Taught ls' r') (hls : ∀ l, l ∈ ls ↔ l ∈ ls')
    (hu : Unambiguous ls) (role : Role) (marker : String) :
    r.get? role marker = r'.get? role marker := by
  cases hn : r.get? role marker with
  | some n => exact (h.get?_subset h' hls hu hn).symm
  | none =>
    cases hk : r'.get? role marker with
    | none => rfl
    | some k =>
      obtain ⟨n, hn'⟩ := h.known _ ((hls _).2 (h'.standing role marker k hk).1)
      rw [hn] at hn'
      cases hn'

/-- A surest entry of a name comes from a foremost lesson. -/
theorem Taught.foremost (h : Taught ls r) (hu : Unambiguous ls) {role : Role} {marker : String}
    {n : LearnedName} (hn : r.get? role marker = some n)
    (hsurest : ∀ other k, r.get? role other = some k → k.name = n.name →
      k.confidence.rank ≤ n.confidence.rank) :
    Foremost ls ⟨role, marker, n.name, n.confidence⟩ := by
  refine ⟨h.standing role marker n hn, fun o ho hrole hname => ?_⟩
  obtain ⟨k, hk⟩ := h.known o ho.1
  have hstanding := h.standing _ _ k hk
  have hsame := hu.name _ _ hstanding ho rfl rfl
  have hconfidence := hstanding.rank_eq ho rfl rfl
  rw [hrole] at hk
  rw [← hconfidence]
  exact hsurest o.marker k hk (hsame.trans hname)

/-- Unambiguous lessons lead a name back to the same marker in every order. -/
theorem Taught.markerFor_congr (h : Taught ls r) (h' : Taught ls' r')
    (hls : ∀ l, l ∈ ls ↔ l ∈ ls') (hu : Unambiguous ls) (role : Role) (name : String) :
    r.markerFor role name = r'.markerFor role name := by
  have hget := fun marker => h.get?_congr h' hls hu role marker
  have hr := h.markerFor_spec role name
  have hr' := h'.markerFor_spec role name
  cases hm : r.markerFor role name with
  | none =>
    rw [hm] at hr
    cases hm' : r'.markerFor role name with
    | none => rfl
    | some marker' =>
      rw [hm'] at hr'
      obtain ⟨n, hn, hname, -⟩ := hr'
      exact absurd hname (hr marker' n (by rw [hget, hn]))
  | some marker =>
    rw [hm] at hr
    obtain ⟨n, hn, rfl, hsurest⟩ := hr
    cases hm' : r'.markerFor role n.name with
    | none =>
      rw [hm'] at hr'
      exact absurd rfl (hr' marker n (by rw [← hget, hn]))
    | some marker' =>
      rw [hm'] at hr'
      obtain ⟨k, hk, hname, hsurest'⟩ := hr'
      simp only [← hget] at hk hsurest'
      rw [← hname] at hsurest'
      have hforemost := h.foremost hu hn hsurest
      have hforemost' := h.foremost hu hk hsurest'
      exact congrArg some (hu.marker _ _ hforemost hforemost' rfl hname.symm)

end Unambiguous

end Registry

/-- Where the names of a registry lead is all that the key of a step takes from it. -/
theorem Step.nodeKey_congr {r r' : Registry}
    (h : ∀ role name, r.markerFor role name = r'.markerFor role name) (s : Step) :
    s.nodeKey r = s.nodeKey r' := by
  simp only [Step.nodeKey, Step.component, h]

end TraitTrace
