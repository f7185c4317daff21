import Mathlib.Data.List.Nodup
import TraitTrace.Table

/-! Tables as lists of pairs. Where keys differ, the pairs of a table are what is read from it;
writing keeps keys apart and adds no pair but the one that is written. -/

namespace TraitTrace.Table

variable {κ α : Type} [DecidableEq κ] {t : Table κ α} {key : κ} {value : α}

theorem mem_of_get? (h : t.get? key = some value) : (key, value) ∈ t := by
  induction t with
  | nil => cases h
  | cons p t ih =>
    obtain ⟨k, a⟩ := p
    rw [get?] at h
    split at h
    · rename_i heq
      obtain rfl := Option.some.inj h
      rw [heq]
      exact List.mem_cons_self
    · exact List.mem_cons_of_mem _ (ih h)

theorem get?_eq_some_iff (h : t.keys.Nodup) : t.get? key = some value ↔ (key, value) ∈ t := by
  refine ⟨mem_of_get?, fun hmem => ?_⟩
  induction t with
  | nil => cases hmem
  | cons p t ih =>
    obtain ⟨k, a⟩ := p
    obtain ⟨hk, ht⟩ := List.nodup_cons.1 h
    rw [get?]
    rcases List.mem_cons.1 hmem with heq | hmem
    · obtain ⟨rfl, rfl⟩ := Prod.mk.inj heq
      rw [if_pos rfl]
    · rw [if_neg fun heq => hk (List.mem_map.2 ⟨_, hmem, heq.symm⟩)]
      exact ih ht hmem

theorem get?_eq_none_of_not_mem (h : key ∉ t.keys) : t.get? key = none := by
  cases hget : t.get? key with
  | none => rfl
  | some a => exact absurd (List.mem_map_of_mem (mem_of_get? hget)) h

/-- The values of a table are those read at its keys. -/
theorem map_snd_eq (h : t.keys.Nodup) (value : α) :
    t.map Prod.snd = t.keys.map fun k => (t.get? k).getD value := by
  rw [keys, List.map_map]
  apply List.map_congr_left
  intro p hp
  rw [Function.comp_apply, (get?_eq_some_iff h).2 hp, Option.getD_some]

theorem nodup_keys_set (h : t.keys.Nodup) : (t.set key value).keys.Nodup := by
  rw [keys_set]
  split
  · exact h
  · rename_i hkey
    rw [List.nodup_append]
    refine ⟨h, List.nodup_singleton key, ?_⟩
    rintro a ha b hb rfl
    exact hkey (List.mem_singleton.1 hb ▸ ha)

theorem eq_or_mem_of_mem_set {p : κ × α} (h : p ∈ t.set key value) : p = (key, value) ∨ p ∈ t := by
  induction t with
  | nil => exact .inl (List.mem_singleton.1 h)
  | cons q t ih =>
    rw [set] at h
    split at h
    · rename_i heq
      rcases List.mem_cons.1 h with rfl | h
      · exact .inl (by rw [heq])
      · exact .inr (List.mem_cons_of_mem q h)
    · rcases List.mem_cons.1 h with rfl | h
      · exact .inr List.mem_cons_self
      · exact (ih h).imp_right (List.mem_cons_of_mem q)

end TraitTrace.Table
