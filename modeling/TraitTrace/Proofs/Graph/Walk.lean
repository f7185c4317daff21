import Mathlib.Logic.Relation
import TraitTrace.Graph.Walk
import TraitTrace.Proofs.Outcome
import TraitTrace.Report.Tree

/-! Walks expand what they reach. Inside a domain that is closed under children, a walk from some
roots expands every handle that is reachable from them once, and no other one; every line of a drawn
tree is the line of such a visit. -/

namespace TraitTrace.Walk

open Relation

variable {α : Type}

/-- A handle is reached from another one along children. -/
def Reaches (children : α → List α) : α → α → Prop := ReflTransGen fun a b => b ∈ children a

theorem map_fst_below (ends : List Bool) (cs : List α) : (below ends cs).map Prod.fst = cs := by
  induction cs with
  | nil => rfl
  | cons c cs ih =>
    cases cs with
    | nil => rfl
    | cons d cs =>
      rw [below, List.map_cons, ih]
      simp

theorem mem_below {ends : List Bool} {cs : List α} {c : α} :
    (∃ p ∈ below ends cs, p.1 = c) ↔ c ∈ cs := by
  rw [← List.mem_map, map_fst_below]

/-- The handles that visits expand, in order. -/
def expandedOf (vs : List (Visit α)) : List α :=
  (vs.filter fun v => !v.isBackReference).map Visit.handle

theorem expandedOf_back (v : Visit α) (vs : List (Visit α)) (h : v.isBackReference = true) :
    expandedOf (v :: vs) = expandedOf vs := by
  simp [expandedOf, h]

theorem expandedOf_first (v : Visit α) (vs : List (Visit α)) (h : v.isBackReference = false) :
    expandedOf (v :: vs) = v.handle :: expandedOf vs := by
  simp [expandedOf, h]

variable [DecidableEq α] {domain : List α} {children : α → List α}

theorem visits_nil (expanded : List α) : visits domain children [] expanded = [] := by
  rw [visits]

theorem visits_of_mem {h : α} {ends : List Bool} {rest : List (α × List Bool)} {expanded : List α}
    (he : h ∈ expanded) :
    visits domain children ((h, ends) :: rest) expanded =
      ⟨h, ends, true, false⟩ :: visits domain children rest expanded := by
  rw [visits, dif_pos (List.contains_iff_mem.2 he)]

theorem visits_of_not_mem {h : α} {ends : List Bool} {rest : List (α × List Bool)}
    {expanded : List α} (he : h ∉ expanded) (hd : h ∈ domain) :
    visits domain children ((h, ends) :: rest) expanded =
      ⟨h, ends, false, (children h).isEmpty⟩ ::
        visits domain children (below ends (children h) ++ rest) (h :: expanded) := by
  rw [visits, dif_neg (by rwa [List.contains_iff_mem]), dif_pos hd]

/-- What a walk over a closed domain expands: handles not expanded before, each once, reached from
what was left to visit, and all of those, with their children. -/
structure Expands (domain : List α) (children : α → List α) (left : List (α × List Bool))
    (expanded new : List α) : Prop where
  nodup : new.Nodup
  fresh : ∀ h ∈ new, h ∉ expanded
  reached : ∀ h ∈ new, ∃ p ∈ left, Reaches children p.1 h
  starts : ∀ p ∈ left, p.1 ∈ expanded ∨ p.1 ∈ new
  closed : ∀ h ∈ new, ∀ c ∈ children h, c ∈ expanded ∨ c ∈ new

omit [DecidableEq α] in
theorem Expands.back {h : α} {ends : List Bool} {rest : List (α × List Bool)}
    {expanded new : List α} (hn : Expands domain children rest expanded new) (he : h ∈ expanded) :
    Expands domain children ((h, ends) :: rest) expanded new where
  nodup := hn.nodup
  fresh := hn.fresh
  reached := by
    intro k hk
    obtain ⟨p, hp, hr⟩ := hn.reached k hk
    exact ⟨p, List.mem_cons_of_mem _ hp, hr⟩
  starts := List.forall_mem_cons.2 ⟨.inl he, hn.starts⟩
  closed := hn.closed

omit [DecidableEq α] in
/-- A handle that is expanded comes before what the walk expands from its children on. -/
theorem Expands.first {h : α} {ends : List Bool} {rest : List (α × List Bool)}
    {expanded new : List α}
    (hn : Expands domain children (below ends (children h) ++ rest) (h :: expanded) new)
    (he : h ∉ expanded) :
    Expands domain children ((h, ends) :: rest) expanded (h :: new) := by
  -- A handle that the rest of the walk knows is this one, was known or is expanded later.
  have hknown : ∀ {k : α}, k ∈ h :: expanded ∨ k ∈ new → k ∈ expanded ∨ k ∈ h :: new := by
    intro k hk
    rcases hk with hk | hk
    · rcases List.mem_cons.1 hk with rfl | hk
      · exact .inr List.mem_cons_self
      · exact .inl hk
    · exact .inr (List.mem_cons_of_mem h hk)
  refine ⟨?_, fun k hk => ?_, fun k hk => ?_, fun p hp => ?_, fun k hk c hc => ?_⟩
  · exact List.nodup_cons.2 ⟨fun hmem => hn.fresh h hmem List.mem_cons_self, hn.nodup⟩
  · rcases List.mem_cons.1 hk with rfl | hk
    · exact he
    · exact fun hmem => hn.fresh k hk (List.mem_cons_of_mem h hmem)
  · rcases List.mem_cons.1 hk with rfl | hk
    · exact ⟨_, List.mem_cons_self, .refl⟩
    · obtain ⟨p, hp, hr⟩ := hn.reached k hk
      rcases List.mem_append.1 hp with hp | hp
      · have hchild := mem_below.1 ⟨p, hp, rfl⟩
        exact ⟨_, List.mem_cons_self, .head hchild hr⟩
      · exact ⟨p, List.mem_cons_of_mem _ hp, hr⟩
  · rcases List.mem_cons.1 hp with rfl | hp
    · exact .inr List.mem_cons_self
    · exact hknown (hn.starts p (List.mem_append_right _ hp))
  · rcases List.mem_cons.1 hk with rfl | hk
    · obtain ⟨p, hp, rfl⟩ := mem_below.2 hc
      exact hknown (hn.starts p (List.mem_append_left _ hp))
    · exact hknown (hn.closed k hk c hc)

theorem expands_visits (hclosed : ∀ h ∈ domain, ∀ c ∈ children h, c ∈ domain)
    (left : List (α × List Bool)) (expanded : List α) (hleft : ∀ p ∈ left, p.1 ∈ domain) :
    Expands domain children left expanded (expandedOf (visits domain children left expanded)) := by
  induction left, expanded using visits.induct domain children with
  | case1 expanded =>
    rw [visits_nil]
    exact ⟨.nil, by simp [expandedOf], by simp [expandedOf], by simp, by simp [expandedOf]⟩
  | case2 h ends rest expanded hb ih =>
    have he := List.contains_iff_mem.1 hb
    rw [visits_of_mem he, expandedOf_back _ _ rfl]
    exact (ih fun p hp => hleft p (List.mem_cons_of_mem _ hp)).back he
  | case3 h ends rest expanded hb hd ih =>
    have he : h ∉ expanded := fun he => hb (List.contains_iff_mem.2 he)
    have hkids : ∀ p ∈ below ends (children h) ++ rest, p.1 ∈ domain := by
      intro p hp
      rcases List.mem_append.1 hp with hp | hp
      · exact hclosed h hd p.1 (mem_below.1 ⟨p, hp, rfl⟩)
      · exact hleft p (List.mem_cons_of_mem _ hp)
    rw [visits_of_not_mem he hd, expandedOf_first _ _ rfl]
    exact (ih hkids).first he
  | case4 h ends rest expanded hb hd ih =>
    exact absurd (hleft _ List.mem_cons_self) hd

/-- A walk visits only what it starts with and what hangs below it. -/
theorem forall_visits {P : α → Prop} (hchildren : ∀ h, P h → ∀ c ∈ children h, P c)
    (left : List (α × List Bool)) (expanded : List α) (hleft : ∀ p ∈ left, P p.1) :
    ∀ v ∈ visits domain children left expanded, P v.handle := by
  induction left, expanded using visits.induct domain children with
  | case1 expanded =>
    rw [visits_nil]
    simp
  | case2 h ends rest expanded hb ih =>
    rw [visits_of_mem (List.contains_iff_mem.1 hb)]
    exact List.forall_mem_cons.2
      ⟨hleft _ List.mem_cons_self, ih fun p hp => hleft p (List.mem_cons_of_mem _ hp)⟩
  | case3 h ends rest expanded hb hd ih =>
    have hh : P h := hleft _ List.mem_cons_self
    rw [visits_of_not_mem (fun he => hb (List.contains_iff_mem.2 he)) hd]
    refine List.forall_mem_cons.2 ⟨hh, ih fun p hp => ?_⟩
    rcases List.mem_append.1 hp with hp | hp
    · exact hchildren h hh p.1 (mem_below.1 ⟨p, hp, rfl⟩)
    · exact hleft p (List.mem_cons_of_mem _ hp)
  | case4 h ends rest expanded hb hd ih =>
    rw [visits, dif_neg hb, dif_neg hd]
    exact List.forall_mem_cons.2
      ⟨hleft _ List.mem_cons_self, ih fun p hp => hleft p (List.mem_cons_of_mem _ hp)⟩

/-- A walk expands what is reachable from its roots, each handle once. -/
theorem expanded_preorder (hclosed : ∀ h ∈ domain, ∀ c ∈ children h, c ∈ domain) {roots : List α}
    (hroots : ∀ r ∈ roots, r ∈ domain) :
    (expandedOf (preorder domain children roots)).Nodup ∧
      ∀ h, h ∈ expandedOf (preorder domain children roots) ↔ ∃ r ∈ roots, Reaches children r h := by
  have hleft : ∀ p ∈ roots.map fun r => (r, ([] : List Bool)), p.1 ∈ domain := by
    intro p hp
    obtain ⟨r, hr, rfl⟩ := List.mem_map.1 hp
    exact hroots r hr
  have hex := expands_visits hclosed (roots.map fun r => (r, [])) [] hleft
  refine ⟨hex.nodup, fun h => ⟨fun hmem => ?_, ?_⟩⟩
  · obtain ⟨p, hp, hr⟩ := hex.reached h hmem
    obtain ⟨r, hroot, rfl⟩ := List.mem_map.1 hp
    exact ⟨r, hroot, hr⟩
  · rintro ⟨r, hr, hreach⟩
    induction hreach with
    | refl => exact (hex.starts _ (List.mem_map_of_mem hr)).resolve_left (List.not_mem_nil)
    | tail _ hc ih => exact (hex.closed _ ih _ hc).resolve_left (List.not_mem_nil)

end TraitTrace.Walk
