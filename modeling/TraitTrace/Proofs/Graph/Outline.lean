import Mathlib.Logic.ExistsUnique
import TraitTrace.Proofs.Graph.Preorder
import TraitTrace.Proofs.Places

/-! Outlines. A listing with a depth for each line is an outline: a line hangs under the nearest line
before it that is one level further out. The visits of a walk form one. Under the visit that expands
a handle hang the visits of its children, in their order, and under a reference back nothing; the
marks of a visit are those of the visit it hangs under with one more, set on the last of them. -/

namespace TraitTrace

/-- The numbers with a property, in order. -/
def Enumerates (P : Nat → Prop) (is : List Nat) : Prop :=
  is.Pairwise (· < ·) ∧ ∀ i, i ∈ is ↔ P i

namespace Enumerates

variable {P Q : Nat → Prop} {is js : List Nat}

theorem nil (h : ∀ i, ¬P i) : Enumerates P [] :=
  ⟨.nil, fun i => ⟨fun hi => absurd hi List.not_mem_nil, fun hi => absurd hi (h i)⟩⟩

theorem congr (h : Enumerates P is) (hQ : ∀ i, Q i ↔ P i) : Enumerates Q is :=
  ⟨h.1, fun i => (h.2 i).trans (hQ i).symm⟩

theorem shift (h : Enumerates P is) (n : Nat) (hQ : ∀ i, Q i ↔ ∃ j, P j ∧ n + j = i) :
    Enumerates Q (is.map (n + ·)) := by
  refine ⟨List.pairwise_map.2 (h.1.imp fun hlt => Nat.add_lt_add_left hlt n), fun i => ?_⟩
  rw [hQ, List.mem_map]
  exact exists_congr fun j => and_congr_left fun _ => h.2 j

theorem append {R : Nat → Prop} (hP : Enumerates P is) (hQ : Enumerates Q js) (n : Nat)
    (hlt : ∀ i, P i → i < n) (hR : ∀ i, R i ↔ P i ∨ ∃ j, Q j ∧ n + j = i) :
    Enumerates R (is ++ js.map (n + ·)) := by
  have hshift := hQ.shift (Q := fun i => ∃ j, Q j ∧ n + j = i) n fun i => Iff.rfl
  refine ⟨List.pairwise_append.2 ⟨hP.1, hshift.1, fun i hi k hk => ?_⟩, fun i => ?_⟩
  · obtain ⟨j, -, rfl⟩ := List.mem_map.1 hk
    exact Nat.lt_of_lt_of_le (hlt i ((hP.2 i).1 hi)) (Nat.le_add_right n j)
  · rw [List.mem_append, hP.2, hshift.2, hR]

end Enumerates

namespace Outline

/-- Line `i` hangs under line `p`: it is one level further in than `p`, and every line between them
is further in than `p`. -/
def Under (depths : List Nat) (p i : Nat) : Prop :=
  p < i ∧ ∃ d, depths[p]? = some d ∧ depths[i]? = some (d + 1) ∧
    ∀ k e, p < k → k < i → depths[k]? = some e → d < e

/-- Line `i` is line `a` or hangs, over any number of lines, under it. -/
def Above (depths : List Nat) : Nat → Nat → Prop := Relation.ReflTransGen (Under depths)

/-- Line `i` is the last one under the line that it hangs under. -/
def Last (depths : List Nat) (i : Nat) : Prop :=
  ∀ p j, Under depths p i → Under depths p j → j ≤ i

variable {depths : List Nat}

theorem Under.unique {p q i : Nat} (hp : Under depths p i) (hq : Under depths q i) : p = q := by
  obtain ⟨hpi, d, hpd, hpd', hpbetween⟩ := hp
  obtain ⟨hqi, e, hqd, hqd', hqbetween⟩ := hq
  rw [hpd', Option.some.injEq, Nat.succ.injEq] at hqd'
  subst hqd'
  rcases Nat.lt_trichotomy p q with hlt | rfl | hlt
  · exact absurd (hpbetween q d hlt hqi hqd) (Nat.lt_irrefl d)
  · rfl
  · exact absurd (hqbetween p d hlt hpi hpd) (Nat.lt_irrefl d)

theorem Under.last_iff {p i : Nat} (h : Under depths p i) :
    Last depths i ↔ ∀ j, Under depths p j → j ≤ i := by
  refine ⟨fun hlast j hj => hlast p j h hj, fun hall q j hq hj => ?_⟩
  obtain rfl := h.unique hq
  exact hall j hj

theorem enumerates_append {xs ys is js : List Nat} {d : Nat}
    (hx : Enumerates (fun i => xs[i]? = some d) is)
    (hy : Enumerates (fun i => ys[i]? = some d) js) :
    Enumerates (fun i => (xs ++ ys)[i]? = some d) (is ++ js.map (xs.length + ·)) := by
  have hlt : ∀ i, xs[i]? = some d → i < xs.length := fun i => lt_length_of_getElem?
  refine hx.append hy xs.length hlt fun i => ⟨fun h => ?_, ?_⟩
  · rcases getElem?_append_cases h with ⟨-, hi⟩ | ⟨j, rfl, hj⟩
    · exact .inl hi
    · exact .inr ⟨j, hj, rfl⟩
  · rintro (hi | ⟨j, hj, rfl⟩)
    · rwa [List.getElem?_append_left (hlt i hi)]
    · rwa [getElem?_append_add]

/-- What hangs under a line does not depend on the lines before it, nor on those after a line that
is as far out. -/
theorem under_append_right {xs ys : List Nat} {p i : Nat} :
    Under (xs ++ ys) (xs.length + p) i ↔ ∃ j, Under ys p j ∧ xs.length + j = i := by
  constructor
  · rintro ⟨hlt, d, hd, hd', hbetween⟩
    obtain ⟨j, rfl⟩ := Nat.exists_eq_add_of_le (Nat.le_trans (Nat.le_add_right _ p) (Nat.le_of_lt hlt))
    rw [getElem?_append_add] at hd hd'
    refine ⟨j, ⟨Nat.lt_of_add_lt_add_left hlt, d, hd, hd', fun k e hpk hkj hk => ?_⟩, rfl⟩
    exact hbetween (xs.length + k) e (Nat.add_lt_add_left hpk _) (Nat.add_lt_add_left hkj _)
      ((getElem?_append_add xs ys k).trans hk)
  · rintro ⟨j, ⟨hlt, d, hd, hd', hbetween⟩, rfl⟩
    refine ⟨Nat.add_lt_add_left hlt _, d, by rwa [getElem?_append_add],
      by rwa [getElem?_append_add], fun k e hpk hkj hk => ?_⟩
    obtain ⟨m, rfl⟩ := Nat.exists_eq_add_of_le (Nat.le_trans (Nat.le_add_right _ p) (Nat.le_of_lt hpk))
    rw [getElem?_append_add] at hk
    exact hbetween m e (Nat.lt_of_add_lt_add_left hpk) (Nat.lt_of_add_lt_add_left hkj) hk

theorem under_append_left {xs ys : List Nat} {p i : Nat} (hp : p < xs.length)
    (hys : ∀ y ∈ ys.head?, ∀ x ∈ xs, y ≤ x) : Under (xs ++ ys) p i ↔ Under xs p i := by
  constructor
  · rintro ⟨hlt, d, hd, hd', hbetween⟩
    rw [List.getElem?_append_left hp] at hd
    have hi : i < xs.length := by
      by_contra hge
      -- The first line after those at the front is as far out as line `p`.
      obtain ⟨j, rfl⟩ := Nat.exists_eq_add_of_le (Nat.le_of_not_lt hge)
      rw [getElem?_append_add] at hd'
      cases ys with
      | nil => cases hd'
      | cons y ys =>
        have hle := hys y rfl d (List.mem_of_getElem? hd)
        cases j with
        | zero =>
          cases hd'
          exact Nat.not_succ_le_self d hle
        | succ j =>
          have hfirst : (xs ++ y :: ys)[xs.length]? = some y := getElem?_append_add xs (y :: ys) 0
          have hgt := hbetween xs.length y hp (by omega) hfirst
          omega
    rw [List.getElem?_append_left hi] at hd'
    refine ⟨hlt, d, hd, hd', fun k e hpk hki hk => hbetween k e hpk hki ?_⟩
    rwa [List.getElem?_append_left (Nat.lt_trans hki hi)]
  · rintro ⟨hlt, d, hd, hd', hbetween⟩
    have hi : i < xs.length := lt_length_of_getElem? hd'
    refine ⟨hlt, d, by rwa [List.getElem?_append_left hp], by rwa [List.getElem?_append_left hi],
      fun k e hpk hki hk => hbetween k e hpk hki ?_⟩
    rwa [List.getElem?_append_left (Nat.lt_trans hki hi)] at hk

theorem under_cons {d i : Nat} {inner : List Nat} (hinner : ∀ x ∈ inner, d < x) :
    Under (d :: inner) 0 i ↔ ∃ j, inner[j]? = some (d + 1) ∧ 1 + j = i := by
  constructor
  · rintro ⟨hlt, e, he, he', -⟩
    obtain ⟨j, rfl⟩ := Nat.exists_eq_add_of_le (Nat.succ_le_of_lt hlt)
    cases he
    exact ⟨j, (getElem?_append_add [d] inner j).symm.trans he', rfl⟩
  · rintro ⟨j, hj, rfl⟩
    refine ⟨by omega, d, rfl, (getElem?_append_add [d] inner j).trans hj,
      fun k e hk _ hke => ?_⟩
    obtain ⟨m, rfl⟩ := Nat.exists_eq_add_of_le (Nat.succ_le_of_lt hk)
    exact hinner e (List.mem_of_getElem? ((getElem?_append_add [d] inner m).symm.trans hke))

/-- A line above another one is further out. -/
theorem Above.eq_or_lt {a i d e : Nat} (h : Above depths a i) (ha : depths[a]? = some d)
    (hi : depths[i]? = some e) : a = i ∨ d < e := by
  induction h generalizing e with
  | refl => exact .inl rfl
  | @tail q i _ hq ih =>
    obtain ⟨-, f, hf, hf', -⟩ := hq
    rw [hf', Option.some.injEq] at hi
    subst hi
    rcases ih hf with rfl | hlt
    · rw [ha, Option.some.injEq] at hf
      exact .inr (Nat.lt_succ_of_le (Nat.le_of_eq hf))
    · exact .inr (Nat.lt_succ_of_lt hlt)

/-- Where every inner line hangs under one, a line has one line above it at each depth. -/
theorem existsUnique_above (hangs : ∀ i d, depths[i]? = some (d + 1) → ∃ p, Under depths p i)
    {i d k : Nat} (hi : depths[i]? = some d) (hk : k ≤ d) :
    ∃! a, Above depths a i ∧ depths[a]? = some k := by
  induction d generalizing i with
  | zero =>
    obtain rfl := Nat.le_zero.1 hk
    refine ⟨i, ⟨.refl, hi⟩, fun a ha => ?_⟩
    exact (ha.1.eq_or_lt ha.2 hi).resolve_right (Nat.lt_irrefl 0)
  | succ d ih =>
    rcases Nat.lt_or_eq_of_le hk with hlt | rfl
    · obtain ⟨p, hp⟩ := hangs i d hi
      obtain ⟨-, e, he, he', -⟩ := id hp
      rw [hi, Option.some.injEq, Nat.succ.injEq] at he'
      subst he'
      obtain ⟨a, ⟨ha, hd⟩, hunique⟩ := ih he (Nat.le_of_lt_succ hlt)
      refine ⟨a, ⟨ha.tail hp, hd⟩, fun b hb => ?_⟩
      rcases Relation.ReflTransGen.cases_tail hb.1 with rfl | ⟨q, hbq, hq⟩
      · rw [hi, Option.some.injEq] at hb
        omega
      · obtain rfl := hq.unique hp
        exact hunique b ⟨hbq, hb.2⟩
    · refine ⟨i, ⟨.refl, hi⟩, fun a ha => ?_⟩
      exact (ha.1.eq_or_lt ha.2 hi).resolve_right (Nat.lt_irrefl _)

end Outline

namespace Walk

open Outline

variable {α : Type} {children : α → List α}

/-- The handles that a visit leads to. -/
def Visit.below (children : α → List α) (v : Visit α) : List α :=
  if v.isBackReference then [] else children v.handle

/-- Visits that list, for each of some places, the place and then all that is below it. -/
inductive Planted (children : α → List α) : List (α × List Bool) → List (Visit α) → Prop
  | nil : Planted children [] []
  | cons {v : Visit α} {left : List (α × List Bool)} {inner vs : List (Visit α)} :
      Planted children (below v.ends (v.below children)) inner → Planted children left vs →
      Planted children ((v.handle, v.ends) :: left) (v :: (inner ++ vs))

theorem Planted.split {front back : List (α × List Bool)} {vs : List (Visit α)}
    (h : Planted children (front ++ back) vs) :
    ∃ fs bs, vs = fs ++ bs ∧ Planted children front fs ∧ Planted children back bs := by
  induction front generalizing vs with
  | nil => exact ⟨[], vs, rfl, .nil, h⟩
  | cons p front ih =>
    cases h with
    | cons hinner hrest =>
      obtain ⟨fs, bs, rfl, hfront, hback⟩ := ih hrest
      exact ⟨_, bs, by rw [List.cons_append, List.append_assoc], .cons hinner hfront, hback⟩

theorem planted_visits [DecidableEq α] {domain : List α} (left : List (α × List Bool))
    (expanded : List α) (hdomain : ∀ v ∈ visits domain children left expanded, v.handle ∈ domain) :
    Planted children left (visits domain children left expanded) := by
  induction left, expanded using visits.induct domain children with
  | case1 expanded =>
    rw [visits_nil]
    exact .nil
  | case2 h ends rest expanded hb ih =>
    rw [visits_of_mem (List.contains_iff_mem.1 hb)] at hdomain ⊢
    have hrest := ih fun v hv => hdomain v (List.mem_cons_of_mem _ hv)
    exact @Planted.cons _ _ ⟨h, ends, true, false⟩ rest [] _ .nil hrest
  | case3 h ends rest expanded hb hd ih =>
    rw [visits_of_not_mem (fun he => hb (List.contains_iff_mem.2 he)) hd] at hdomain ⊢
    obtain ⟨inner, vs, hvs, hinner, hrest⟩ :=
      (ih fun v hv => hdomain v (List.mem_cons_of_mem _ hv)).split
    rw [hvs]
    exact @Planted.cons _ _ ⟨h, ends, false, (children h).isEmpty⟩ rest inner vs hinner hrest
  | case4 h ends rest expanded hb hd ih =>
    rw [visits, dif_neg hb, dif_neg hd] at hdomain
    exact absurd (hdomain _ List.mem_cons_self) hd

theorem Planted.depth_le {left : List (α × List Bool)} {vs : List (Visit α)} {d : Nat}
    (h : Planted children left vs) (hd : ∀ p ∈ left, p.2.length = d) : ∀ v ∈ vs, d ≤ v.depth := by
  induction h generalizing d with
  | nil => exact fun v hv => absurd hv List.not_mem_nil
  | @cons v left inner vs _ _ ihinner ihrest =>
    have hv : v.depth = d := hd _ List.mem_cons_self
    have hin := ihinner length_of_mem_below
    have hrest := ihrest fun p hp => hd p (List.mem_cons_of_mem _ hp)
    intro w hw
    rcases List.mem_cons.1 hw with rfl | hw
    · exact Nat.le_of_eq hv.symm
    rcases List.mem_append.1 hw with hw | hw
    · have hlt := hin w hw
      rw [← hv]
      exact Nat.le_of_succ_le hlt
    · exact hrest w hw

/-- The depths of visits, as an outline. -/
abbrev depths (vs : List (Visit α)) : List Nat := vs.map Visit.depth

def Visit.spot (v : Visit α) : α × List Bool := (v.handle, v.ends)

/-- What an outline of visits is like: its outermost lines are the places it was made for, every
other line hangs under one, and under each line hang the lines of the handles that it leads to. -/
structure Formed (children : α → List α) (d : Nat) (left : List (α × List Bool))
    (vs : List (Visit α)) : Prop where
  outer : ∃ is, Enumerates (fun i => (depths vs)[i]? = some d) is ∧
    is.map (fun i => vs[i]?.map Visit.spot) = left.map some
  hangs : ∀ i v, vs[i]? = some v → v.depth = d ∨ ∃ p, Under (depths vs) p i
  under : ∀ p v, vs[p]? = some v → ∃ is, Enumerates (Under (depths vs) p) is ∧
    is.map (fun i => vs[i]?.map Visit.spot) = (Walk.below v.ends (v.below children)).map some

/-- Lines of a part of a listing, found in the whole. -/
theorem map_spot_right (xs ys : List (Visit α)) (is : List Nat) :
    (is.map (xs.length + ·)).map (fun i => (xs ++ ys)[i]?.map Visit.spot) =
      is.map fun i => ys[i]?.map Visit.spot := by
  rw [List.map_map]
  exact List.map_congr_left fun i _ => congrArg (Option.map Visit.spot) (getElem?_append_add xs ys i)

theorem map_spot_left {xs ys : List (Visit α)} {is : List Nat} (his : ∀ i ∈ is, i < xs.length) :
    is.map (fun i => (xs ++ ys)[i]?.map Visit.spot) = is.map fun i => xs[i]?.map Visit.spot :=
  List.map_congr_left fun i hi => by rw [List.getElem?_append_left (his i hi)]

theorem under_right (xs ys : List (Visit α)) (p i : Nat) :
    Under (depths (xs ++ ys)) (xs.length + p) i ↔
      ∃ j, Under (depths ys) p j ∧ xs.length + j = i := by
  have hlength : (depths xs).length = xs.length := List.length_map _
  rw [depths, List.map_append, ← hlength]
  exact under_append_right

theorem under_left {xs ys : List (Visit α)} {d p : Nat} (hxs : ∀ v ∈ xs, d ≤ v.depth)
    (hys : ∀ v ∈ ys.head?, v.depth = d) (hp : p < xs.length) (i : Nat) :
    Under (depths (xs ++ ys)) p i ↔ Under (depths xs) p i := by
  have hlength : (depths xs).length = xs.length := List.length_map _
  rw [depths, List.map_append]
  refine under_append_left (hlength.symm ▸ hp) fun y hy x hx => ?_
  rw [List.head?_map] at hy
  obtain ⟨w, hw, rfl⟩ := Option.map_eq_some_iff.1 hy
  obtain ⟨v, hv, rfl⟩ := List.mem_map.1 hx
  rw [hys w hw]
  exact hxs v hv

theorem depth_getElem? {vs : List (Visit α)} {i : Nat} {v : Visit α} (h : vs[i]? = some v) :
    (depths vs)[i]? = some v.depth := by
  rw [List.getElem?_map, h]
  rfl

theorem exists_of_depth {vs : List (Visit α)} {i d : Nat} (h : (depths vs)[i]? = some d) :
    ∃ v, vs[i]? = some v ∧ v.depth = d :=
  Option.map_eq_some_iff.1 ((List.getElem?_map ..).symm.trans h)

theorem Formed.nil (d : Nat) : Formed children d [] [] :=
  ⟨⟨[], Enumerates.nil nofun, rfl⟩, nofun, nofun⟩

/-- A visit before all that is below it. -/
theorem Formed.block {v : Visit α} {inner : List (Visit α)}
    (h : Formed children (v.depth + 1) (Walk.below v.ends (v.below children)) inner)
    (hdeep : ∀ w ∈ inner, v.depth + 1 ≤ w.depth) :
    Formed children v.depth [v.spot] (v :: inner) := by
  have hdeep' : ∀ x ∈ depths inner, v.depth < x := by
    intro x hx
    obtain ⟨w, hw, rfl⟩ := List.mem_map.1 hx
    exact hdeep w hw
  have hright : ∀ p i, Under (depths (v :: inner)) (1 + p) i ↔
      ∃ j, Under (depths inner) p j ∧ 1 + j = i := under_right [v] inner
  obtain ⟨⟨is, his, hspots⟩, hhangs, hunder⟩ := h
  constructor
  case outer =>
    refine ⟨[0], ⟨List.pairwise_singleton _ _, fun i => ?_⟩, rfl⟩
    rw [List.mem_singleton]
    cases i with
    | zero => exact ⟨fun _ => rfl, fun _ => rfl⟩
    | succ i =>
      refine ⟨nofun, fun hi => ?_⟩
      exact absurd (hdeep' _ (List.mem_of_getElem? hi)) (Nat.lt_irrefl _)
  case hangs =>
    intro i w hw
    cases i with
    | zero =>
      cases hw
      exact .inl rfl
    | succ i =>
      rcases hhangs i w hw with hd | ⟨p, hp⟩
      · have hdepth : (depths inner)[i]? = some w.depth := depth_getElem? hw
        rw [hd] at hdepth
        exact .inr ⟨0, (under_cons hdeep').2 ⟨i, hdepth, Nat.add_comm 1 i⟩⟩
      · exact .inr ⟨1 + p, (hright p _).2 ⟨i, hp, Nat.add_comm 1 i⟩⟩
  case under =>
    intro p w hw
    cases p with
    | zero =>
      cases hw
      exact ⟨_, his.shift 1 fun i => under_cons hdeep', (map_spot_right [v] inner is).trans hspots⟩
    | succ p =>
      obtain ⟨js, hjs, hspots'⟩ := hunder p w hw
      rw [Nat.add_comm p 1]
      exact ⟨_, hjs.shift 1 (hright p), (map_spot_right [v] inner js).trans hspots'⟩

theorem Formed.append {d : Nat} {left right : List (α × List Bool)} {xs ys : List (Visit α)}
    (hx : Formed children d left xs) (hy : Formed children d right ys)
    (hxs : ∀ v ∈ xs, d ≤ v.depth) (hys : ∀ v ∈ ys.head?, v.depth = d) :
    Formed children d (left ++ right) (xs ++ ys) := by
  have hdepths : depths (xs ++ ys) = depths xs ++ depths ys := List.map_append
  have hlength : (depths xs).length = xs.length := List.length_map _
  constructor
  case outer =>
    obtain ⟨is, his, hspots⟩ := hx.outer
    obtain ⟨js, hjs, hspots'⟩ := hy.outer
    have hall := enumerates_append his hjs
    rw [← hdepths, hlength] at hall
    have hlt : ∀ i ∈ is, i < xs.length := fun i hi =>
      hlength ▸ lt_length_of_getElem? ((his.2 i).1 hi)
    refine ⟨_, hall, ?_⟩
    rw [List.map_append, List.map_append, map_spot_left hlt, map_spot_right, hspots, hspots']
  case hangs =>
    intro i w hw
    rcases getElem?_append_cases hw with ⟨hi, hw⟩ | ⟨j, rfl, hj⟩
    · refine (hx.hangs i w hw).imp_right ?_
      rintro ⟨p, hp⟩
      exact ⟨p, (under_left hxs hys (Nat.lt_trans hp.1 hi) i).2 hp⟩
    · refine (hy.hangs j w hj).imp_right ?_
      rintro ⟨p, hp⟩
      exact ⟨xs.length + p, (under_right xs ys p _).2 ⟨j, hp, rfl⟩⟩
  case under =>
    intro p w hw
    rcases getElem?_append_cases hw with ⟨hp, hw⟩ | ⟨q, rfl, hq⟩
    · obtain ⟨is, his, hspots⟩ := hx.under p w hw
      have hlt : ∀ i ∈ is, i < xs.length := by
        intro i hi
        obtain ⟨-, e, -, he, -⟩ := (his.2 i).1 hi
        exact hlength ▸ lt_length_of_getElem? he
      exact ⟨is, his.congr (under_left hxs hys hp), (map_spot_left hlt).trans hspots⟩
    · obtain ⟨js, hjs, hspots⟩ := hy.under q w hq
      exact ⟨_, hjs.shift xs.length (under_right xs ys q), (map_spot_right xs ys js).trans hspots⟩

theorem Planted.formed {left : List (α × List Bool)} {vs : List (Visit α)} {d : Nat}
    (h : Planted children left vs) (hd : ∀ p ∈ left, p.2.length = d) :
    Formed children d left vs := by
  induction h generalizing d with
  | nil => exact .nil d
  | @cons v left inner vs hinner hrest ihinner ihrest =>
    obtain rfl : v.depth = d := hd _ List.mem_cons_self
    have hd' := fun p hp => hd p (List.mem_cons_of_mem _ hp)
    have hdeep : ∀ w ∈ inner, v.depth + 1 ≤ w.depth := hinner.depth_le length_of_mem_below
    have hblock := (ihinner length_of_mem_below).block hdeep
    refine hblock.append (ihrest hd') (fun w hw => ?_) fun w hw => ?_
    · rcases List.mem_cons.1 hw with rfl | hw
      · exact Nat.le_refl _
      · exact Nat.le_of_succ_le (hdeep w hw)
    · cases hrest with
      | nil => cases hw
      | cons hin hrest =>
        cases hw
        exact hd' _ List.mem_cons_self

/-- Of the places below a visit, the last one alone is marked as last. -/
theorem mark_of_below {ends : List Bool} {cs : List α} {is : List Nat}
    {f : Nat → Option (α × List Bool)} (hsorted : is.Pairwise (· < ·))
    (hspots : is.map f = (Walk.below ends cs).map some) {i : Nat} (hi : i ∈ is) :
    ∃ c b, f i = some (c, ends ++ [b]) ∧ (b = true ↔ ∀ j ∈ is, j ≤ i) := by
  induction cs generalizing is with
  | nil =>
    rw [Walk.below, List.map_nil, List.map_eq_nil_iff] at hspots
    rw [hspots] at hi
    exact absurd hi List.not_mem_nil
  | cons c cs ih =>
    cases cs with
    | nil =>
      obtain ⟨k, ks, rfl, hk, hks⟩ := List.map_eq_cons_iff.1 hspots
      rw [List.map_nil, List.map_eq_nil_iff] at hks
      subst hks
      obtain rfl := List.mem_singleton.1 hi
      refine ⟨c, true, hk, fun _ j hj => ?_, fun _ => rfl⟩
      exact Nat.le_of_eq (List.mem_singleton.1 hj)
    | cons d cs =>
      obtain ⟨k, ks, rfl, hk, hks⟩ := List.map_eq_cons_iff.1 hspots
      obtain ⟨hlt, hsorted⟩ := List.pairwise_cons.1 hsorted
      rcases List.mem_cons.1 hi with rfl | hin
      · refine ⟨c, false, hk, fun h => absurd h Bool.false_ne_true, fun hall => ?_⟩
        have hlength := congrArg List.length hks
        rw [List.length_map, List.length_map, length_below, List.length_cons] at hlength
        obtain ⟨m, hm⟩ := List.exists_mem_of_length_pos (Nat.lt_of_lt_of_eq (Nat.succ_pos _) hlength.symm)
        exact absurd (hall m (List.mem_cons_of_mem _ hm)) (Nat.not_le.2 (hlt m hm))
      · obtain ⟨c, b, hfi, hb⟩ := ih hsorted hks hin
        refine ⟨c, b, hfi, hb.trans ⟨fun hall j hj => ?_, fun hall j hj => ?_⟩⟩
        · rcases List.mem_cons.1 hj with rfl | hj
          · exact Nat.le_of_lt (hlt i hin)
          · exact hall j hj
        · exact hall j (List.mem_cons_of_mem k hj)

/-- The marks of a visit are those of the visit that it hangs under and one of its own. -/
theorem Formed.ends_of_under {d : Nat} {left : List (α × List Bool)} {vs : List (Visit α)}
    (h : Formed children d left vs) {p i : Nat} {v w : Visit α} (hunder : Under (depths vs) p i)
    (hv : vs[p]? = some v) (hw : vs[i]? = some w) :
    ∃ b, w.ends = v.ends ++ [b] ∧ (b = true ↔ Last (depths vs) i) := by
  obtain ⟨is, his, hspots⟩ := h.under p v hv
  obtain ⟨c, b, hspot, hb⟩ := mark_of_below his.1 hspots ((his.2 i).2 hunder)
  rw [hw, Option.map_some, Option.some.injEq] at hspot
  refine ⟨b, (Prod.mk.inj hspot).2, hb.trans ?_⟩
  rw [hunder.last_iff]
  exact forall_congr' fun j => imp_congr_left (his.2 j)

theorem Formed.isPrefix_of_above {d : Nat} {left : List (α × List Bool)} {vs : List (Visit α)}
    (h : Formed children d left vs) {a i : Nat} {v w : Visit α} (habove : Above (depths vs) a i)
    (hv : vs[a]? = some v) (hw : vs[i]? = some w) : v.ends <+: w.ends := by
  induction habove generalizing w with
  | refl =>
    obtain rfl := Option.some.inj (hv.symm.trans hw)
    exact List.prefix_rfl
  | @tail q i _ hq ih =>
    obtain ⟨-, e, he, -⟩ := id hq
    obtain ⟨u, hu, -⟩ := exists_of_depth he
    obtain ⟨b, hends, -⟩ := h.ends_of_under hq hu hw
    rw [hends]
    exact (ih hu).trans (List.prefix_append _ _)

theorem Formed.exists_under {left : List (α × List Bool)} {vs : List (Visit α)}
    (h : Formed children 0 left vs) {i : Nat} {v : Visit α} (hv : vs[i]? = some v)
    (hd : v.depth ≠ 0) : ∃ p, Under (depths vs) p i := (h.hangs i v hv).resolve_left hd

/-- The last mark of a visit tells whether it is the last one under the visit it hangs under. -/
theorem Formed.last_mark {left : List (α × List Bool)} {vs : List (Visit α)}
    (h : Formed children 0 left vs) {i : Nat} {v : Visit α} (hv : vs[i]? = some v)
    (hd : v.depth ≠ 0) : ∃ ends b, v.ends = ends ++ [b] ∧ (b = true ↔ Last (depths vs) i) := by
  obtain ⟨p, hp⟩ := h.exists_under hv hd
  obtain ⟨-, e, he, -⟩ := id hp
  obtain ⟨u, hu, -⟩ := exists_of_depth he
  exact ⟨u.ends, h.ends_of_under hp hu hv⟩

/-- A mark of a visit tells whether the visit above it at that depth is a last one. -/
theorem Formed.mark_of_above {left : List (α × List Bool)} {vs : List (Visit α)}
    (h : Formed children 0 left vs) {a i k : Nat} {v w : Visit α}
    (habove : Above (depths vs) a i) (hv : vs[a]? = some v) (hw : vs[i]? = some w)
    (hd : v.depth = k + 1) : ∃ b, w.ends[k]? = some b ∧ (b = true ↔ Last (depths vs) a) := by
  obtain ⟨ends, b, hends, hb⟩ := h.last_mark hv (by omega)
  have hlength : ends.length = k := by
    rw [Visit.depth, hends, List.length_append, List.length_singleton] at hd
    exact Nat.succ.inj hd
  obtain ⟨rest, hrest⟩ := h.isPrefix_of_above habove hv hw
  refine ⟨b, ?_, hb⟩
  rw [← hrest, hends, List.append_assoc, ← hlength]
  exact getElem?_append_add ends ([b] ++ rest) 0

end Walk

end TraitTrace
