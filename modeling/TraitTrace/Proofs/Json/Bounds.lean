import TraitTrace.Proofs.Json.RoundTrip
import TraitTrace.Proofs.Outcome
import TraitTrace.Proofs.Table

/-! What was read from JSON can be printed and read again: its integers are short enough, its names
differ within an object, and it is nested no deeper than the reader allows. -/

namespace TraitTrace.Json

open Decimal

theorem fitItems_iff {room : Nat} {vs : List Json} : FitItems room vs ↔ ∀ v ∈ vs, v.Fits room := by
  induction vs with
  | nil => exact ⟨fun _ => nofun, fun _ => trivial⟩
  | cons v vs ih =>
    rw [FitItems, ih, List.forall_mem_cons]

theorem FitMembers.set {room : Nat} {ms : Members} {name : String} {v : Json}
    (h : FitMembers room ms) (hv : v.Fits room) : FitMembers room (Table.set ms name v) := by
  induction ms with
  | nil => exact ⟨hv, trivial⟩
  | cons p ms ih =>
    rw [Table.set]
    split
    · exact ⟨hv, h.2⟩
    · exact ⟨h.1, ih h.2⟩

theorem FitMembers.get? {room : Nat} {ms : Members} {name : String} {v : Json}
    (h : FitMembers room ms) (hv : Table.get? ms name = some v) : v.Fits room := by
  induction ms with
  | nil => cases hv
  | cons p ms ih =>
    rw [Table.get?] at hv
    split at hv
    · cases hv
      exact h.1
    · exact ih h.2 hv

/-- The digits of a number that was read from digits are not more than these. -/
theorem length_toDigits_nat {ds : List Char} (hne : ds ≠ []) :
    (Nat.toDigits 10 (nat 10 (ds.filterMap asciiDigit?))).length ≤ ds.length := by
  have hdigit : ∀ d ∈ ds.filterMap asciiDigit?, d < 10 := by
    intro d hd
    obtain ⟨c, -, hc⟩ := List.mem_filterMap.1 hd
    unfold asciiDigit? at hc
    split at hc
    · rename_i hrange
      obtain rfl := Option.some.inj hc
      have hhigh : c.toNat ≤ 57 := hrange.2
      omega
    · cases hc
  rw [Nat.length_toDigits_le_iff (by decide) (List.length_pos_iff.2 hne)]
  refine Nat.lt_of_lt_of_le (nat_lt_pow hdigit) (Nat.pow_le_pow_right (by decide) ?_)
  exact List.length_filterMap_le _ _

theorem whole?_ne_nil {s ds rest : List Char} (h : whole? s = some (ds, rest)) : ds ≠ [] := by
  unfold whole? at h
  split at h
  · cases h
    exact List.cons_ne_nil _ _
  · split at h
    · cases h
    · rename_i hne
      cases h
      intro hnil
      exact hne (digits s).2 (Prod.ext hnil rfl)

theorem fits_number {start room : Nat} {negative : Bool} {s rest : List Char} {v : Json}
    (h : number start negative s = .ok (v, rest)) : v.Fits room := by
  unfold number at h
  split at h
  · cases h
  · rename_i ds t hwhole
    have hne := whole?_ne_nil hwhole
    dsimp only at h
    split at h
    · split at h
      · cases h
      · rename_i hlength
        have habs : (if negative then -(nat 10 (ds.filterMap asciiDigit?) : Int)
            else nat 10 (ds.filterMap asciiDigit?)).natAbs = nat 10 (ds.filterMap asciiDigit?) := by
          cases negative <;> simp
        cases h
        rw [Fits, habs]
        exact Nat.le_trans (length_toDigits_nat hne) (Nat.le_of_not_lt hlength)
    · cases h
      trivial

theorem fits_value_succ {fuel : Nat}
    (hmembers : ∀ room (read : Members) s v rest, members fuel room read s = .ok (v, rest) →
      (Table.keys read).Nodup → FitMembers room read → v.Fits (room + 1))
    (hitems : ∀ room read s v rest, items fuel room read s = .ok (v, rest) → FitItems room read →
      v.Fits (room + 1)) (room : Nat) (s : List Char) (v : Json) (rest : List Char)
    (h : value (fuel + 1) room s = .ok (v, rest)) : v.Fits room := by
  unfold value at h
  split at h
  · obtain ⟨t, -, h⟩ := map_ok.1 h
    cases h
    trivial
  · split at h
    · cases h
    · cases h
      exact ⟨Nat.succ_pos _, List.nodup_nil, trivial⟩
    · exact hmembers _ _ _ _ _ h List.nodup_nil trivial
  · split at h
    · cases h
    · cases h
      exact ⟨Nat.succ_pos _, trivial⟩
    · exact hitems _ _ _ _ _ h trivial
  all_goals first
    | exact fits_number h
    | cases h; trivial

theorem fits_members_succ {fuel : Nat}
    (hvalue : ∀ room s v rest, value fuel room s = .ok (v, rest) → v.Fits room)
    (hmembers : ∀ room (read : Members) s v rest, members fuel room read s = .ok (v, rest) →
      (Table.keys read).Nodup → FitMembers room read → v.Fits (room + 1)) (room : Nat)
    (read : Members) (s : List Char) (v : Json) (rest : List Char)
    (h : members (fuel + 1) room read s = .ok (v, rest)) (hkeys : (Table.keys read).Nodup)
    (hread : FitMembers room read) : v.Fits (room + 1) := by
  unfold members at h
  split at h
  · obtain ⟨⟨name, t⟩, -, h⟩ := bind_ok.1 h
    dsimp only at h
    split at h
    · obtain ⟨⟨w, t⟩, hw, h⟩ := bind_ok.1 h
      have hset : FitMembers room (Table.set read name w) := hread.set (hvalue _ _ _ _ hw)
      dsimp only at h
      split at h
      · cases h
        exact ⟨Nat.succ_pos _, Table.nodup_keys_set hkeys, hset⟩
      · exact hmembers _ _ _ _ _ h (Table.nodup_keys_set hkeys) hset
      · cases h
    · cases h
  · cases h

theorem fits_items_succ {fuel : Nat}
    (hvalue : ∀ room s v rest, value fuel room s = .ok (v, rest) → v.Fits room)
    (hitems : ∀ room read s v rest, items fuel room read s = .ok (v, rest) → FitItems room read →
      v.Fits (room + 1)) (room : Nat) (read : List Json) (s : List Char) (v : Json)
    (rest : List Char) (h : items (fuel + 1) room read s = .ok (v, rest))
    (hread : FitItems room read) : v.Fits (room + 1) := by
  unfold items at h
  obtain ⟨⟨w, t⟩, hw, h⟩ := bind_ok.1 h
  have hnext : FitItems room (w :: read) := ⟨hvalue _ _ _ _ hw, hread⟩
  dsimp only at h
  split at h
  · cases h
    refine ⟨Nat.succ_pos _, fitItems_iff.2 fun o ho => ?_⟩
    exact fitItems_iff.1 hnext o (List.mem_reverse.1 ho)
  · exact hitems _ _ _ _ _ h hnext
  · cases h

/-- What is read in some room fits into it, at every part of the reader. -/
theorem fits_of_read (fuel : Nat) :
    (∀ room s v rest, value fuel room s = .ok (v, rest) → v.Fits room) ∧
    (∀ room (read : Members) s v rest, members fuel room read s = .ok (v, rest) →
      (Table.keys read).Nodup → FitMembers room read → v.Fits (room + 1)) ∧
    (∀ room read s v rest, items fuel room read s = .ok (v, rest) → FitItems room read →
      v.Fits (room + 1)) := by
  induction fuel with
  | zero => exact ⟨nofun, nofun, nofun⟩
  | succ fuel ih =>
    obtain ⟨hvalue, hmembers, hitems⟩ := ih
    exact ⟨fits_value_succ hmembers hitems, fits_members_succ hvalue hmembers,
      fits_items_succ hvalue hitems⟩

theorem fits_of_parse {s : String} {v : Json} (h : parse s = .ok v) : v.Fits maxNesting := by
  unfold parse parseWithin at h
  dsimp only at h
  split at h
  · rename_i w hread
    cases h
    obtain ⟨⟨u, rest⟩, hvalue, hend⟩ := bind_ok.1 hread
    dsimp only at hend
    split at hend
    · cases hend
      exact (fits_of_read _).1 _ _ _ _ hvalue
    · cases hend
  all_goals cases h

end TraitTrace.Json
