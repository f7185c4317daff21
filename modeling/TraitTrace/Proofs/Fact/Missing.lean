import TraitTrace.Fact.Basic

/-! The missing field that facts amount to. Leaving out repeated facts does not change it, and of
facts that come from several places it is the missing field of one of these places. -/

namespace TraitTrace

/-- The first missing field with a property. -/
def firstMissing (p : MissingField → Bool) (facts : List Fact) : Option MissingField :=
  (facts.filterMap Fact.missing?).find? p

theorem primaryMissing_eq (facts : List Fact) :
    primaryMissing facts =
      (firstMissing (fun m => m.definition.isSome) facts).or (firstMissing (fun _ => true) facts) := by
  have hhead : (facts.filterMap Fact.missing?).head? = firstMissing (fun _ => true) facts := by
    unfold firstMissing
    cases facts.filterMap Fact.missing? <;> rfl
  unfold primaryMissing
  dsimp only
  rw [hhead, ← firstMissing]
  cases firstMissing (fun m => m.definition.isSome) facts <;> rfl

theorem primaryMissing_eq_none {facts : List Fact} :
    primaryMissing facts = none ↔ facts.filterMap Fact.missing? = [] := by
  unfold primaryMissing
  dsimp only
  constructor
  · intro h
    split at h
    · cases h
    · exact List.head?_eq_none_iff.1 h
  · intro h
    rw [h]
    rfl

theorem firstMissing_append (p : MissingField → Bool) (facts more : List Fact) :
    firstMissing p (facts ++ more) = (firstMissing p facts).or (firstMissing p more) := by
  rw [firstMissing, List.filterMap_append, List.find?_append]
  rfl

theorem firstMissing_cons (p : MissingField → Bool) (f : Fact) (facts : List Fact) :
    firstMissing p (f :: facts) = (firstMissing p [f]).or (firstMissing p facts) :=
  firstMissing_append p [f] facts

theorem firstMissing_flatMap {α : Type} (p : MissingField → Bool) (f : α → List Fact)
    (as : List α) :
    firstMissing p (as.flatMap f) = as.findSome? fun a => firstMissing p (f a) := by
  rw [firstMissing, List.filterMap_flatMap, List.find?_flatMap]
  rfl

theorem missing_mem_of_firstMissing {p : MissingField → Bool} {facts : List Fact} {m : MissingField}
    (h : firstMissing p facts = some m) : .missing m ∈ facts := by
  obtain ⟨f, hf, hm⟩ := List.mem_filterMap.1 (List.mem_of_find?_eq_some h)
  cases f with
  | missing m' =>
    rw [← Option.some.inj hm]
    exact hf
  | _ => cases hm

theorem missing_mem_of_primaryMissing {facts : List Fact} {m : MissingField}
    (h : primaryMissing facts = some m) : .missing m ∈ facts := by
  rw [primaryMissing_eq, Option.or_eq_some_iff] at h
  rcases h with h | ⟨-, h⟩
  · exact missing_mem_of_firstMissing h
  · exact missing_mem_of_firstMissing h

/-- A fact that states what is known adds no first missing field. -/
theorem firstMissing_of_known (p : MissingField → Bool) {known : List Fact} {f : Fact}
    (h : known.any (fun k => k.statement = f.statement) = true) :
    (firstMissing p known).or (firstMissing p [f]) = firstMissing p known := by
  cases hfirst : firstMissing p [f] with
  | none => exact Option.or_none
  | some m =>
    -- A missing field is stated by itself alone.
    obtain ⟨k, hk, hsame⟩ := List.any_eq_true.1 h
    obtain rfl := List.mem_singleton.1 (missing_mem_of_firstMissing hfirst)
    have hmissing : k = .missing m := by
      cases k <;> simp [Fact.statement] at hsame
      rw [hsame]
    have hfound : (firstMissing p known).isSome := by
      unfold firstMissing
      rw [List.find?_isSome]
      refine ⟨m, List.mem_filterMap.2 ⟨k, hk, ?_⟩, List.find?_some hfirst⟩
      rw [hmissing]
      rfl
    obtain ⟨m', hm'⟩ := Option.isSome_iff_exists.1 hfound
    rw [hm']
    rfl

theorem firstMissing_absorb (p : MissingField → Bool) (known facts : List Fact) :
    firstMissing p (Fact.absorb known facts) =
      (firstMissing p known).or (firstMissing p facts) := by
  induction facts generalizing known with
  | nil => exact Option.or_none.symm
  | cons f facts ih =>
    rw [firstMissing_cons, ← Option.or_assoc]
    unfold Fact.absorb
    split
    · rename_i hknown
      rw [ih, firstMissing_of_known p hknown]
    · rw [ih, firstMissing_append]

/-- Leaving out repeated facts keeps the missing field. -/
theorem primaryMissing_absorb (facts : List Fact) :
    primaryMissing (Fact.absorb [] facts) = primaryMissing facts := by
  rw [primaryMissing_eq, primaryMissing_eq, firstMissing_absorb, firstMissing_absorb]
  rfl

/-- The missing field of facts from several places is that of one place. -/
theorem exists_primaryMissing {α : Type} {f : α → List Fact} {as : List α} {m : MissingField}
    (h : primaryMissing (as.flatMap f) = some m) : ∃ a ∈ as, primaryMissing (f a) = some m := by
  rw [primaryMissing_eq, firstMissing_flatMap, firstMissing_flatMap, Option.or_eq_some_iff] at h
  rcases h with h | ⟨hnone, h⟩
  · obtain ⟨a, ha, hm⟩ := List.exists_of_findSome?_eq_some h
    refine ⟨a, ha, ?_⟩
    rw [primaryMissing_eq, hm]
    rfl
  · obtain ⟨a, ha, hm⟩ := List.exists_of_findSome?_eq_some h
    refine ⟨a, ha, ?_⟩
    rw [primaryMissing_eq, List.findSome?_eq_none_iff.1 hnone a ha]
    exact hm

end TraitTrace
