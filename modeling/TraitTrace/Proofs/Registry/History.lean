import TraitTrace.Proofs.Registry.Learning

/-! The registry as a function of its history. The entry of a marker is the first of the surest
lessons for it; a lesson is taken exactly if it is surer than all before it. Markers keep the places
at which they first came, which decides where a name leads back to that several of them carry. -/

namespace TraitTrace

namespace Lesson

/-- A lesson for a marker in some role. -/
def Concerns (l : Lesson) (role : Role) (marker : String) : Prop :=
  l.role = role ∧ l.marker = marker

instance (l : Lesson) (role : Role) (marker : String) : Decidable (l.Concerns role marker) :=
  inferInstanceAs (Decidable (_ ∧ _))

instance (ls : List Lesson) (l : Lesson) : Decidable (Standing ls l) :=
  inferInstanceAs (Decidable (_ ∧ ∀ o ∈ ls, _))

def learned (l : Lesson) : LearnedName := ⟨l.name, l.confidence⟩

/-- The place at which a marker first came in a role. -/
def firstPlace (ls : List Lesson) (role : Role) (marker : String) : Nat :=
  ls.findIdx fun l => l.Concerns role marker

section FirstPlace

variable {ls : List Lesson} {role : Role} {marker : String}

theorem firstPlace_lt {l : Lesson} (hl : l ∈ ls) (h : l.Concerns role marker) :
    firstPlace ls role marker < ls.length :=
  List.findIdx_lt_length_of_exists ⟨l, hl, decide_eq_true h⟩

theorem firstPlace_concat (h : firstPlace ls role marker < ls.length) (l : Lesson) :
    firstPlace (ls ++ [l]) role marker = firstPlace ls role marker := by
  unfold firstPlace at h ⊢
  rw [List.findIdx_append, if_pos h]

theorem firstPlace_concat_new {l : Lesson} (h : ∀ o ∈ ls, ¬ o.Concerns role marker)
    (hl : l.Concerns role marker) : firstPlace (ls ++ [l]) role marker = ls.length := by
  have hnone : (ls.findIdx fun o => o.Concerns role marker) = ls.length :=
    List.findIdx_eq_length.2 fun o ho => decide_eq_false (h o ho)
  rw [firstPlace, List.findIdx_append, hnone, if_neg (Nat.lt_irrefl _), List.findIdx_cons]
  simp [hl]

/-- No two markers first came at one place. -/
theorem eq_of_firstPlace {other : String} (h : firstPlace ls role marker < ls.length)
    (heq : firstPlace ls role other = firstPlace ls role marker) : other = marker := by
  have hmarker := List.findIdx_getElem (w := h)
  have hother := List.findIdx_getElem (w := heq ▸ h)
  unfold firstPlace at heq
  simp only [heq, decide_eq_true_eq] at hmarker hother
  exact hother.2.symm.trans hmarker.2

end FirstPlace

/-- A lesson that is surer than those before it for its marker and than which none after it is
surer. -/
def Settles (ls : List Lesson) (l : Lesson) : Prop :=
  ∃ before after, ls = before ++ l :: after ∧
    (∀ o ∈ before, o.Concerns l.role l.marker → o.confidence.rank < l.confidence.rank) ∧
    ∀ o ∈ after, o.Concerns l.role l.marker → o.confidence.rank ≤ l.confidence.rank

namespace Settles

variable {ls : List Lesson} {l : Lesson}

theorem last (h : ∀ o ∈ ls, o.Concerns l.role l.marker → o.confidence.rank < l.confidence.rank) :
    Settles (ls ++ [l]) l :=
  ⟨ls, [], rfl, h, fun _ ho => absurd ho List.not_mem_nil⟩

theorem concat (h : Settles ls l) {new : Lesson}
    (hnew : new.Concerns l.role l.marker → new.confidence.rank ≤ l.confidence.rank) :
    Settles (ls ++ [new]) l := by
  obtain ⟨before, after, rfl, hbefore, hafter⟩ := h
  refine ⟨before, after ++ [new], by simp, hbefore, fun o ho => ?_⟩
  rcases List.mem_append.1 ho with ho | ho
  · exact hafter o ho
  · rw [List.mem_singleton.1 ho]
    exact hnew

theorem standing (h : Settles ls l) : Standing ls l := by
  obtain ⟨before, after, rfl, hbefore, hafter⟩ := h
  refine ⟨List.mem_append_right _ List.mem_cons_self, fun o ho hrole hmarker => ?_⟩
  rcases List.mem_append.1 ho with ho | ho
  · exact Nat.le_of_lt (hbefore o ho ⟨hrole, hmarker⟩)
  · rcases List.mem_cons.1 ho with rfl | ho
    · exact Nat.le_refl _
    · exact hafter o ho ⟨hrole, hmarker⟩

/-- A lesson that settles its marker is the first standing one for it. -/
theorem find?_eq (h : Settles ls l) :
    (ls.find? fun o => o.Concerns l.role l.marker ∧ Standing ls o) = some l := by
  have hstanding := h.standing
  obtain ⟨before, after, hls, hbefore, -⟩ := h
  refine List.find?_eq_some_iff_append.2 ⟨decide_eq_true ⟨⟨rfl, rfl⟩, hstanding⟩,
    before, after, hls, fun o ho => ?_⟩
  rw [Bool.not_eq_true', decide_eq_false_iff_not]
  rintro ⟨hconcerns, hlater⟩
  have hlt := hbefore o ho hconcerns
  have hle := hlater.2 l hstanding.1 hconcerns.1.symm hconcerns.2.symm
  exact absurd hlt (Nat.not_lt.2 hle)

end Settles

end Lesson

namespace Registry

open Lesson

/-- What is known after some lessons. -/
def taught (ls : List Lesson) : Registry := (empty.learnAll ls).1

theorem learnAll_eq_foldl (r : Registry) (ls : List Lesson) :
    (r.learnAll ls).1 = ls.foldl learn r := by
  induction ls generalizing r with
  | nil => rfl
  | cons l ls ih => exact ih (r.learn l)

theorem taught_concat (ls : List Lesson) (l : Lesson) :
    taught (ls ++ [l]) = (taught ls).learn l := by
  rw [taught, taught, learnAll_eq_foldl, learnAll_eq_foldl, List.foldl_append]
  rfl

theorem taught_taught (ls : List Lesson) : Taught ls (taught ls) := taught_empty.learnAll

/-- A lesson is taken if it is surer than all that came for its marker. -/
theorem Taught.accepts_iff {ls : List Lesson} {r : Registry} (h : Taught ls r) (l : Lesson) :
    r.accepts l = true ↔
      ∀ o ∈ ls, o.Concerns l.role l.marker → o.confidence.rank < l.confidence.rank := by
  rw [accepts]
  cases hn : r.get? l.role l.marker with
  | none =>
    refine iff_of_true rfl fun o ho hconcerns => ?_
    obtain ⟨n, hn'⟩ := h.known o ho
    rw [hconcerns.1, hconcerns.2, hn] at hn'
    cases hn'
  | some n =>
    have hstanding := h.standing _ _ n hn
    rw [decide_eq_true_eq]
    constructor
    · intro hlt o ho hconcerns
      exact Nat.lt_of_le_of_lt (hstanding.2 o ho hconcerns.1 hconcerns.2) hlt
    · intro hall
      exact hall _ hstanding.1 ⟨rfl, rfl⟩

/-- The surest entry of a name, of equals the one whose marker first came. -/
def LeadsTo (ls : List Lesson) (r : Registry) (role : Role) (name marker : String) : Prop :=
  ∃ n, r.get? role marker = some n ∧ n.name = name ∧
    ∀ other k, r.get? role other = some k → k.name = name →
      k.confidence.rank < n.confidence.rank ∨
        k.confidence = n.confidence ∧ firstPlace ls role marker ≤ firstPlace ls role other

/-- A registry with what its lessons settled, its markers in the order in which they first came. -/
structure Remembers (ls : List Lesson) (r : Registry) : Prop where
  taught : Taught ls r
  settled : ∀ role marker n, r.get? role marker = some n →
    ∃ l, Settles ls l ∧ l.Concerns role marker ∧ l.learned = n
  ordered : ∀ role, (r.names role).keys.Pairwise fun a b =>
    firstPlace ls role a < firstPlace ls role b

namespace Remembers

variable {ls : List Lesson} {r : Registry}

theorem mem_keys (h : Remembers ls r) {role : Role} {marker : String}
    (hm : marker ∈ (r.names role).keys) : ∃ l ∈ ls, l.Concerns role marker := by
  obtain ⟨⟨marker', n⟩, hp, rfl⟩ := List.mem_map.1 hm
  obtain ⟨l, hl, hconcerns, -⟩ := h.settled role marker' n (h.taught.mem_names.1 hp)
  exact ⟨l, hl.standing.1, hconcerns⟩

theorem firstPlace_lt (h : Remembers ls r) {role : Role} {marker : String}
    (hm : marker ∈ (r.names role).keys) : firstPlace ls role marker < ls.length := by
  obtain ⟨l, hl, hconcerns⟩ := h.mem_keys hm
  exact Lesson.firstPlace_lt hl hconcerns

theorem settled_learn (h : Remembers ls r) (l : Lesson) {role : Role} {marker : String}
    {n : LearnedName} (hn : (r.learn l).get? role marker = some n) :
    ∃ o, Settles (ls ++ [l]) o ∧ o.Concerns role marker ∧ o.learned = n := by
  by_cases hcase : r.accepts l ∧ l.Concerns role marker
  · obtain ⟨haccepts, rfl, rfl⟩ := hcase
    rw [get?_learn_self haccepts] at hn
    exact ⟨l, .last ((h.taught.accepts_iff l).1 haccepts), ⟨rfl, rfl⟩, Option.some.inj hn⟩
  · rw [get?_learn_other hcase] at hn
    obtain ⟨o, ho, ⟨rfl, rfl⟩, rfl⟩ := h.settled role marker n hn
    refine ⟨o, ho.concat fun hnew => ?_, ⟨rfl, rfl⟩, rfl⟩
    have hrejected : ¬ r.accepts l := fun haccepts => hcase ⟨haccepts, hnew⟩
    rw [accepts, hnew.1, hnew.2, hn, decide_eq_true_eq] at hrejected
    exact Nat.le_of_not_lt hrejected

/-- A new marker goes behind the others; one that is there keeps its place. -/
theorem ordered_learn (h : Remembers ls r) (l : Lesson) (role : Role) :
    ((r.learn l).names role).keys.Pairwise fun a b =>
      firstPlace (ls ++ [l]) role a < firstPlace (ls ++ [l]) role b := by
  have hold : (r.names role).keys.Pairwise fun a b =>
      firstPlace (ls ++ [l]) role a < firstPlace (ls ++ [l]) role b := by
    refine (h.ordered role).imp_of_mem fun ha hb hlt => ?_
    rwa [firstPlace_concat (h.firstPlace_lt ha), firstPlace_concat (h.firstPlace_lt hb)]
  rw [names_learn]
  split
  · rename_i hcase
    obtain ⟨-, rfl⟩ := hcase
    rw [Table.keys_set]
    split
    · exact hold
    · rename_i hnew
      refine List.pairwise_append.2 ⟨hold, List.pairwise_singleton _ _, fun a ha b hb => ?_⟩
      rw [List.mem_singleton.1 hb, firstPlace_concat (h.firstPlace_lt ha),
        firstPlace_concat_new _ ⟨rfl, rfl⟩]
      · exact h.firstPlace_lt ha
      · intro o ho hconcerns
        obtain ⟨n, hn⟩ := h.taught.known o ho
        rw [hconcerns.1, hconcerns.2] at hn
        exact hnew (List.mem_map_of_mem (h.taught.mem_names.2 hn))
  · exact hold

theorem learn (h : Remembers ls r) (l : Lesson) : Remembers (ls ++ [l]) (r.learn l) :=
  ⟨h.taught.learn l, fun _ _ _ hn => h.settled_learn l hn, h.ordered_learn l⟩

end Remembers

theorem remembers_empty : Remembers [] empty := by
  refine ⟨taught_empty, fun role marker n hn => ?_, fun role => ?_⟩
  · cases role <;> cases hn
  · cases role <;> exact .nil

theorem remembers_taught (ls : List Lesson) : Remembers ls (taught ls) := by
  induction ls using List.reverseRecOn with
  | nil => exact remembers_empty
  | append_singleton ls l ih =>
    rw [taught_concat]
    exact ih.learn l

/-- The lessons of a role are all that its names come from. -/
theorem names_taught (ls : List Lesson) (role : Role) :
    (taught ls).names role = (taught (ls.filter fun l => l.role = role)).names role := by
  induction ls using List.reverseRecOn with
  | nil => rfl
  | append_singleton ls l ih =>
    rw [taught_concat, names_learn, List.filter_append]
    by_cases hrole : l.role = role
    · have hsame : (taught ls).accepts l =
          (taught (ls.filter fun l => l.role = role)).accepts l := by
        rw [accepts, accepts, get?, get?, hrole, ih]
      rw [List.filter_singleton, decide_eq_true hrole, cond_true, taught_concat, names_learn, hsame,
        ih]
    · rw [if_neg fun h => hrole h.2, List.filter_singleton, decide_eq_false hrole, cond_false,
        List.append_nil, ih]

namespace Remembers

variable {ls : List Lesson} {r : Registry}

/-- The entry of a marker is the first of the surest lessons for it. -/
theorem get?_eq (h : Remembers ls r) (role : Role) (marker : String) :
    r.get? role marker =
      (ls.find? fun l => l.Concerns role marker ∧ Standing ls l).map learned := by
  cases hn : r.get? role marker with
  | some n =>
    obtain ⟨l, hl, ⟨rfl, rfl⟩, rfl⟩ := h.settled role marker n hn
    rw [hl.find?_eq, Option.map_some]
  | none =>
    have hnone : (ls.find? fun l => l.Concerns role marker ∧ Standing ls l) = none := by
      rw [List.find?_eq_none]
      intro o ho hstanding
      obtain ⟨⟨hrole, hmarker⟩, -⟩ := of_decide_eq_true hstanding
      obtain ⟨n, hn'⟩ := h.taught.known o ho
      rw [hrole, hmarker, hn] at hn'
      cases hn'
    rw [hnone, Option.map_none]

theorem leadsTo_unique (h : Remembers ls r) {role : Role} {name marker other : String}
    (hm : LeadsTo ls r role name marker) (ho : LeadsTo ls r role name other) : other = marker := by
  obtain ⟨n, hn, hname, hfirst⟩ := hm
  obtain ⟨k, hk, hkname, hfirst'⟩ := ho
  have hlt := h.firstPlace_lt (List.mem_map_of_mem (h.taught.mem_names.2 hn))
  rcases hfirst other k hk hkname with hless | ⟨hsame, hle⟩
  · rcases hfirst' marker n hn hname with hless' | ⟨hsame, -⟩
    · exact absurd hless (Nat.lt_asymm hless')
    · rw [hsame] at hless
      exact absurd hless (Nat.lt_irrefl _)
  · rcases hfirst' marker n hn hname with hless | ⟨-, hle'⟩
    · rw [hsame] at hless
      exact absurd hless (Nat.lt_irrefl _)
    · exact eq_of_firstPlace hlt (Nat.le_antisymm hle' hle)

theorem leadsTo_of_markerFor (h : Remembers ls r) {role : Role} {name marker : String}
    (hm : r.markerFor role name = some marker) : LeadsTo ls r role name marker := by
  have hbest := foldl_surer ((r.names role).filter fun e => e.2.name == name)
  unfold markerFor at hm
  obtain ⟨b, hb, rfl⟩ := Option.map_eq_some_iff.1 hm
  rw [hb] at hbest
  obtain ⟨before, after, hentries, hbefore, hafter⟩ := hbest
  have hmem : ∀ p, p ∈ before ++ b :: after ↔ r.get? role p.1 = some p.2 ∧ p.2.name = name := by
    intro p
    rw [← hentries, List.mem_filter, h.taught.mem_names, beq_iff_eq]
  -- Entries of one name stand in the order in which their markers first came.
  have hplaces : (before ++ b :: after).Pairwise fun p q =>
      firstPlace ls role p.1 < firstPlace ls role q.1 := by
    rw [← hentries]
    exact (List.pairwise_map.1 (h.ordered role)).filter _
  have hlater := (List.pairwise_cons.1 (List.pairwise_append.1 hplaces).2.1).1
  obtain ⟨hn, hname⟩ := (hmem b).1 (List.mem_append_right _ List.mem_cons_self)
  refine ⟨b.2, hn, hname, fun other k hk hkname => ?_⟩
  rcases List.mem_append.1 ((hmem (other, k)).2 ⟨hk, hkname⟩) with hin | hin
  · exact .inl (hbefore _ hin)
  · rcases List.mem_cons.1 hin with rfl | hin
    · exact .inr ⟨rfl, Nat.le_refl _⟩
    · rcases Nat.lt_or_eq_of_le (hafter _ hin) with hlt | heq
      · exact .inl hlt
      · exact .inr ⟨Confidence.eq_of_rank heq, Nat.le_of_lt (hlater _ hin)⟩

theorem markerFor_eq_some_iff (h : Remembers ls r) {role : Role} {name marker : String} :
    r.markerFor role name = some marker ↔ LeadsTo ls r role name marker := by
  refine ⟨h.leadsTo_of_markerFor, fun hm => ?_⟩
  have hspec := h.taught.markerFor_spec role name
  cases hfound : r.markerFor role name with
  | none =>
    rw [hfound] at hspec
    obtain ⟨n, hn, hname, -⟩ := hm
    exact absurd hname (hspec marker n hn)
  | some other => rw [h.leadsTo_unique hm (h.leadsTo_of_markerFor hfound)]

end Remembers

/-- Names that the same lessons leave in another order: both were taught for the marker with the
confidence that none exceeds. -/
theorem get?_taught_perm {ls ls' : List Lesson} (h : ls.Perm ls') {role : Role} {marker : String}
    {n : LearnedName} (hn : (taught ls).get? role marker = some n) :
    ∃ n', (taught ls').get? role marker = some n' ∧ n'.confidence = n.confidence ∧
      Standing ls ⟨role, marker, n.name, n.confidence⟩ ∧
      Standing ls ⟨role, marker, n'.name, n.confidence⟩ := by
  have hstanding := (taught_taught ls).standing role marker n hn
  obtain ⟨n', hn'⟩ := (taught_taught ls').known _ (h.mem_iff.1 hstanding.1)
  have hother := ((taught_taught ls').standing role marker n' hn').congr fun _ => h.mem_iff.symm
  have hsame : n'.confidence = n.confidence := hother.rank_eq hstanding rfl rfl
  rw [hsame] at hother
  exact ⟨n', hn', hsame, hstanding, hother⟩

/-- After any lessons, the entry of a marker is the first of the surest lessons for it; a lesson is
taken exactly if it is surer than all before it for its marker; the names of a role come from the
lessons of that role alone; a name leads to the surest entry that carries it, of equals to the one
whose marker first came, and nowhere if there is none; and in another order the same lessons leave a
marker the same confidence, and another name only if both were taught with it and none is surer. -/
theorem get?_of_lessons (ls : List Lesson) :
    (∀ role marker, (taught ls).get? role marker =
      (ls.find? fun l => l.Concerns role marker ∧ Standing ls l).map learned) ∧
    (∀ l, (taught ls).accepts l = true ↔
      ∀ o ∈ ls, o.Concerns l.role l.marker → o.confidence.rank < l.confidence.rank) ∧
    (∀ role, (taught ls).names role = (taught (ls.filter fun l => l.role = role)).names role) ∧
    (∀ role name marker, (taught ls).markerFor role name = some marker ↔
      LeadsTo ls (taught ls) role name marker) ∧
    (∀ role name, (taught ls).markerFor role name = none ↔
      ∀ marker n, (taught ls).get? role marker = some n → n.name ≠ name) ∧
    ∀ ls', ls.Perm ls' → ∀ role marker n, (taught ls).get? role marker = some n →
      ∃ n', (taught ls').get? role marker = some n' ∧ n'.confidence = n.confidence ∧
        Standing ls ⟨role, marker, n.name, n.confidence⟩ ∧
        Standing ls ⟨role, marker, n'.name, n.confidence⟩ := by
  have h := remembers_taught ls
  refine ⟨h.get?_eq, h.taught.accepts_iff, names_taught ls,
    fun _ _ _ => h.markerFor_eq_some_iff, fun role name => ?_,
    fun _ hperm _ _ _ => get?_taught_perm hperm⟩
  have hspec := h.taught.markerFor_spec role name
  constructor
  · intro hnone
    rwa [hnone] at hspec
  · intro hall
    rw [Option.eq_none_iff_forall_ne_some]
    intro marker hm
    obtain ⟨n, hn, hname, -⟩ := h.leadsTo_of_markerFor hm
    exact hall marker n hn hname

def canArea : Lesson := ⟨.consumer, "AreaComponent", "CanArea", .high⟩

def canMeasure : Lesson := ⟨.consumer, "AreaComponent", "CanMeasure", .high⟩

/-- Two sure names of one component: whichever comes first is kept. -/
theorem get?_of_lessons_swapped : [canArea, canMeasure].Perm [canMeasure, canArea] ∧
    ∃ n, (taught [canMeasure, canArea]).get? .consumer "AreaComponent" = some n ∧
      n.confidence = .high ∧ Standing [canArea, canMeasure] canArea ∧
      Standing [canArea, canMeasure] ⟨.consumer, "AreaComponent", n.name, .high⟩ := by
  have hperm : [canArea, canMeasure].Perm [canMeasure, canArea] := .swap ..
  have hfirst : (taught [canArea, canMeasure]).get? .consumer "AreaComponent" =
      some ⟨"CanArea", .high⟩ := by decide
  exact ⟨hperm, (get?_of_lessons _).2.2.2.2.2 _ hperm _ _ _ hfirst⟩

/-- An upgraded marker keeps its place. -/
example : (taught [⟨.provider, "A", "Area", .low⟩, ⟨.provider, "B", "Area", .high⟩,
    ⟨.provider, "A", "Area", .high⟩]).markerFor .provider "Area" = some "A" := by decide

end Registry

end TraitTrace
