import Mathlib.Data.List.Nodup

/-! What stands where in a list that was put together, changed at one place or sorted. -/

namespace TraitTrace

variable {α : Type}

theorem getElem?_append_add (xs ys : List α) (i : Nat) :
    (xs ++ ys)[xs.length + i]? = ys[i]? := by
  rw [List.getElem?_append_right (Nat.le_add_right _ _), Nat.add_sub_cancel_left]

theorem getElem?_append_cases {xs ys : List α} {i : Nat} {x : α}
    (h : (xs ++ ys)[i]? = some x) :
    (i < xs.length ∧ xs[i]? = some x) ∨ ∃ j, i = xs.length + j ∧ ys[j]? = some x := by
  by_cases hi : i < xs.length
  · exact .inl ⟨hi, by rwa [List.getElem?_append_left hi] at h⟩
  · obtain ⟨j, rfl⟩ := Nat.exists_eq_add_of_le (Nat.le_of_not_lt hi)
    exact .inr ⟨j, rfl, (getElem?_append_add xs ys j).symm.trans h⟩

theorem getElem?_concat {as : List α} {a b : α} {i : Nat} (h : (as ++ [a])[i]? = some b) :
    as[i]? = some b ∨ (i = as.length ∧ b = a) := by
  rcases getElem?_append_cases h with ⟨-, h⟩ | ⟨j, rfl, hj⟩
  · exact .inl h
  · cases j with
    | zero => exact .inr ⟨rfl, (Option.some.inj hj).symm⟩
    | succ j => cases hj

theorem getElem?_replaced {as : List α} {a b : α} {i j : Nat} (h : (as.set i a)[j]? = some b) :
    (j = i ∧ b = a) ∨ (j ≠ i ∧ as[j]? = some b) := by
  rw [List.getElem?_set] at h
  split at h
  · split at h
    · exact .inl ⟨by omega, (Option.some.inj h).symm⟩
    · cases h
  · exact .inr ⟨by omega, h⟩

theorem getElem?_modified {as : List α} {f : α → α} {b : α} {i j : Nat}
    (h : (as.modify i f)[j]? = some b) :
    (j = i ∧ ∃ a, as[j]? = some a ∧ b = f a) ∨ (j ≠ i ∧ as[j]? = some b) := by
  rw [List.getElem?_modify, Option.map_eq_map, Option.map_eq_some_iff] at h
  obtain ⟨a, ha, rfl⟩ := h
  split
  · exact .inl ⟨by omega, a, ha, rfl⟩
  · exact .inr ⟨by omega, ha⟩

theorem lt_length_of_getElem? {as : List α} {a : α} {i : Nat} (h : as[i]? = some a) :
    i < as.length := (List.getElem?_eq_some_iff.1 h).1

theorem pairwise_sorted (f : α → Int) (as : List α) :
    (as.mergeSort fun a b => f a ≤ f b).Pairwise fun a b => f a ≤ f b := by
  have htrans : ∀ a b c, decide (f a ≤ f b) = true → decide (f b ≤ f c) = true →
      decide (f a ≤ f c) = true := by
    intro a b c hab hbc
    rw [decide_eq_true_eq] at hab hbc ⊢
    exact Int.le_trans hab hbc
  have htotal : ∀ a b, (decide (f a ≤ f b) || decide (f b ≤ f a)) = true := by
    intro a b
    rw [Bool.or_eq_true, decide_eq_true_eq, decide_eq_true_eq]
    exact Int.le_total (f a) (f b)
  have hsorted := @List.pairwise_mergeSort α (fun a b => decide (f a ≤ f b)) htrans htotal as
  exact hsorted.imp fun h => of_decide_eq_true h

variable {β γ : Type}

/-- Where the items of all lists have different keys, a key stands at one place of one list. -/
theorem place_unique_flatMap {f : α → List β} {key : β → γ} {as : List α}
    (h : ((as.flatMap f).map key).Nodup) {i i' j j' : Nat} {a a' : α} {b b' : β}
    (ha : as[i]? = some a) (hb : (f a)[j]? = some b) (ha' : as[i']? = some a')
    (hb' : (f a')[j']? = some b') (hk : key b = key b') : i = i' ∧ j = j' := by
  induction as generalizing i i' with
  | nil => cases ha
  | cons o as ih =>
    rw [List.flatMap_cons, List.map_append, List.nodup_append] at h
    obtain ⟨hhead, htail, hapart⟩ := h
    -- A key of a later list is not one of the first list.
    have hmem : ∀ {k : Nat} {c : α} {d : β}, as[k]? = some c → d ∈ f c →
        key d ∈ (as.flatMap f).map key := by
      intro k c d hc hd
      exact List.mem_map_of_mem (List.mem_flatMap.2 ⟨c, List.mem_of_getElem? hc, hd⟩)
    have hbm := List.mem_of_getElem? hb
    have hbm' := List.mem_of_getElem? hb'
    cases i with
    | zero =>
      cases ha
      cases i' with
      | zero =>
        cases ha'
        refine ⟨rfl, (List.getElem?_inj ?_ hhead).1 ?_⟩
        · rw [List.length_map]
          exact lt_length_of_getElem? hb
        · rw [List.getElem?_map, List.getElem?_map, hb, hb', Option.map_some, Option.map_some, hk]
      | succ i' => exact absurd hk (hapart _ (List.mem_map_of_mem hbm) _ (hmem ha' hbm'))
    | succ i =>
      cases i' with
      | zero =>
        cases ha'
        exact absurd hk.symm (hapart _ (List.mem_map_of_mem hbm') _ (hmem ha hbm))
      | succ i' =>
        obtain ⟨hi, hj⟩ := ih htail ha ha'
        exact ⟨congrArg Nat.succ hi, hj⟩

/-- An item of the lists stands at exactly one place. -/
theorem existsUnique_place {f : α → List β} {key : β → γ} {as : List α}
    (h : ((as.flatMap f).map key).Nodup) {b : β} (hb : b ∈ as.flatMap f) :
    ∃! p : Nat × Nat, ∃ a c, as[p.1]? = some a ∧ (f a)[p.2]? = some c ∧ key c = key b := by
  obtain ⟨a, ha, hba⟩ := List.mem_flatMap.1 hb
  obtain ⟨i, hi⟩ := List.getElem?_of_mem ha
  obtain ⟨j, hj⟩ := List.getElem?_of_mem hba
  refine ⟨(i, j), ⟨a, b, hi, hj, rfl⟩, ?_⟩
  rintro ⟨i', j'⟩ ⟨a', c, hi', hj', hk⟩
  obtain ⟨rfl, rfl⟩ := place_unique_flatMap h hi' hj' hi hj hk
  rfl

end TraitTrace
