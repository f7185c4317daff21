import TraitTrace.Datum.Basic
import TraitTrace.Proofs.Table

/-! Values laid over others. Data in which maps hold values under keys are looked into along a path
of keys. A merge of two maps has, along every path, what the upper one has there, with what the
lower one has below it where both have a map; where the upper one says nothing it has what the lower
one has, unless the upper one ends the path at a value that is no map. -/

namespace TraitTrace

variable {κ α : Type}

/-- What a map holds under each key. A value that is no map has no inside. -/
abbrev Inside (κ α : Type) := α → Option (κ → Option α)

namespace Inside

variable (inside : Inside κ α)

/-- What a value has at the end of a path. -/
def along : List κ → α → Option α
  | [], v => some v
  | k :: path, v => (inside v).bind fun held => (held k).bind (along path)

/-- A value ends a path before its end, where it has a value that is no map. -/
def Ends (path : List κ) (v : α) : Prop :=
  ∃ before after w, path = before ++ after ∧ after ≠ [] ∧ inside.along before v = some w ∧
    inside w = none

/-- One map laid over another, path by path. -/
structure Overlays (merge : Option α → α → α) (base upper merged : α) : Prop where
  written : ∀ path v, inside.along path upper = some v → inside v = none →
    inside.along path merged = some v
  ended : ∀ path, inside.Ends path upper → inside.along path merged = none
  joined : ∀ path b v, inside.along path base = some b → inside b ≠ none →
    inside.along path upper = some v → inside v ≠ none →
    inside.along path merged = some (merge (some b) v)
  replaced : ∀ path v, inside.along path upper = some v → inside v ≠ none →
    (∀ b, inside.along path base = some b → inside b = none) →
    inside.along path merged = some v
  kept : ∀ path, inside.along path upper = none → ¬inside.Ends path upper →
    inside.along path merged = inside.along path base

/-- What is under a key of a merged map, by what the two maps have under it. -/
def laid (merge : Option α → α → α) (below : Option α) : Option α → Option α
  | some v => some (merge below v)
  | none => below

/-- How a merge writes a value over an old one, for values whose maps are as they should be. -/
structure Merges (proper : α → Prop) (merge : Option α → α → α) : Prop where
  held : ∀ {v : α} {held : κ → Option α} {k : κ} {w : α}, proper v → inside v = some held →
    held k = some w → proper w
  whole : ∀ {old : Option α} {v : α}, inside v = none ∨ old.bind inside = none → merge old v = v
  into : ∀ {b v : α} {below held : κ → Option α}, proper v → inside b = some below →
    inside v = some held →
    inside (merge (some b) v) = some fun k => laid merge (below k) (held k)

variable {inside} {proper : α → Prop} {merge : Option α → α → α}

theorem along_cons {v : α} {held : κ → Option α} (h : inside v = some held) (k : κ)
    (path : List κ) : inside.along (k :: path) v = (held k).bind (inside.along path) := by
  rw [along, h, Option.bind_some]

theorem along_cons_none {v : α} (h : inside v = none) (k : κ) (path : List κ) :
    inside.along (k :: path) v = none := by
  rw [along, h, Option.bind_none]

theorem bind_along_cons_none {old : Option α} (h : old.bind inside = none) (k : κ) (path : List κ) :
    old.bind (inside.along (k :: path)) = none := by
  cases old with
  | none => rfl
  | some b => exact along_cons_none h k path

theorem ends_cons {v w : α} {held : κ → Option α} {k : κ} {path : List κ}
    (hv : inside v = some held) (hw : held k = some w) :
    inside.Ends (k :: path) v ↔ inside.Ends path w := by
  constructor
  · rintro ⟨before, after, u, hpath, hafter, hu, hnone⟩
    cases before with
    | nil =>
      obtain rfl := Option.some.inj hu
      rw [hv] at hnone
      cases hnone
    | cons k' before =>
      obtain ⟨rfl, rfl⟩ := List.cons.inj hpath
      rw [along_cons hv, hw] at hu
      exact ⟨before, after, u, rfl, hafter, hu, hnone⟩
  · rintro ⟨before, after, u, rfl, hafter, hu, hnone⟩
    exact ⟨k :: before, after, u, rfl, hafter, by rw [along_cons hv, hw]; exact hu, hnone⟩

theorem along_of_ends {path : List κ} {v : α} (h : inside.Ends path v) :
    inside.along path v = none := by
  induction path generalizing v with
  | nil =>
    obtain ⟨before, after, u, hpath, hafter, -⟩ := h
    exact absurd (List.append_eq_nil_iff.1 hpath.symm).2 hafter
  | cons k path ih =>
    cases hv : inside v with
    | none => exact along_cons_none hv k path
    | some held =>
      rw [along_cons hv]
      cases hw : held k with
      | none => rfl
      | some w => exact ih ((ends_cons hv hw).1 h)

theorem not_ends_of_absent {v : α} {held : κ → Option α} {k : κ} {path : List κ}
    (hv : inside v = some held) (hk : held k = none) : ¬inside.Ends (k :: path) v := by
  rintro ⟨before, after, u, hpath, -, hu, hnone⟩
  cases before with
  | nil =>
    obtain rfl := Option.some.inj hu
    rw [hv] at hnone
    cases hnone
  | cons k' before =>
    obtain ⟨rfl, rfl⟩ := List.cons.inj hpath
    rw [along_cons hv, hk] at hu
    cases hu

/-- What stands along a path in a value that was written over an old one. -/
theorem Merges.along_merge (h : inside.Merges proper merge) (path : List κ) (old : Option α) (v : α)
    (hv : proper v) :
    (inside.Ends path v → inside.along path (merge old v) = none) ∧
    (¬inside.Ends path v → inside.along path (merge old v) =
      laid merge (old.bind (inside.along path)) (inside.along path v)) := by
  induction path generalizing old v with
  | nil =>
    refine ⟨fun hends => ?_, fun _ => ?_⟩
    · cases along_of_ends hends
    · cases old <;> rfl
  | cons k path ih =>
    cases hinside : inside v with
    | none =>
      rw [h.whole (.inl hinside)]
      exact ⟨along_of_ends, fun hnot =>
        absurd ⟨[], k :: path, v, rfl, List.cons_ne_nil k path, rfl, hinside⟩ hnot⟩
    | some held =>
      cases hold : old.bind inside with
      | none =>
        rw [h.whole (.inr hold), bind_along_cons_none hold]
        refine ⟨along_of_ends, fun _ => ?_⟩
        cases inside.along (k :: path) v with
        | none => rfl
        | some w => rw [laid, h.whole (.inr rfl)]
      | some below =>
        obtain ⟨b, rfl, hb⟩ := Option.bind_eq_some_iff.1 hold
        rw [Option.bind_some, along_cons (h.into hv hb hinside), along_cons hinside, along_cons hb]
        cases hw : held k with
        | none =>
          have hnot : ¬inside.Ends (k :: path) v := not_ends_of_absent hinside hw
          exact ⟨fun hends => absurd hends hnot, fun _ => rfl⟩
        | some w =>
          rw [ends_cons hinside hw]
          exact ih (below k) w (h.held hv hinside hw)

/-- A merge of two maps lays the one over the other. -/
theorem Merges.overlays (h : inside.Merges proper merge) {base upper : α} (hupper : proper upper) :
    inside.Overlays merge base upper (merge (some base) upper) := by
  have halong := fun path => h.along_merge path (some base) upper hupper
  have hsome : ∀ path v, inside.along path upper = some v →
      inside.along path (merge (some base) upper) =
        some (merge (inside.along path base) v) := by
    intro path v hv
    have hnot : ¬inside.Ends path upper := fun hends => by
      rw [along_of_ends hends] at hv
      cases hv
    rw [(halong path).2 hnot, hv]
    rfl
  constructor
  case written =>
    intro path v hv hnone
    rw [hsome path v hv, h.whole (.inl hnone)]
  case ended => exact fun path => (halong path).1
  case joined =>
    intro path b v hb _ hv _
    rw [hsome path v hv, hb]
  case replaced =>
    intro path v hv _ hbase
    rw [hsome path v hv]
    cases hb : inside.along path base with
    | none => rw [h.whole (.inr rfl)]
    | some b => rw [h.whole (.inr (by rw [Option.bind_some, hbase b hb]))]
  case kept =>
    intro path hnone hnot
    rw [(halong path).2 hnot, hnone]
    rfl

end Inside

namespace Json

def inside : Inside String Json := fun v => v.obj?.map Table.get?

/-- In every object the names differ. -/
inductive Keyed : Json → Prop
  | leaf {v : Json} (h : v.obj? = none) : Keyed v
  | obj {members : Members} (hkeys : (Table.keys members).Nodup)
      (hvalues : ∀ m ∈ members, Keyed m.2) : Keyed (.obj members)

theorem get?_mergeMembers {upper : Members} (h : (Table.keys upper).Nodup) (base : Members)
    (name : String) : Table.get? (mergeMembers base upper) name =
      Inside.laid mergeValue (Table.get? base name) (Table.get? upper name) := by
  induction upper generalizing base with
  | nil => rfl
  | cons m upper ih =>
    obtain ⟨k, v⟩ := m
    obtain ⟨hk, hupper⟩ := List.nodup_cons.1 h
    rw [mergeMembers, ih hupper, Table.get?]
    by_cases heq : k = name
    · obtain rfl := heq
      rw [if_pos rfl, Table.get?_eq_none_of_not_mem hk]
      exact Table.get?_set_self _ _ _
    · rw [if_neg heq, Table.get?_set_of_ne _ _ heq]

theorem merges : inside.Merges Keyed mergeValue := by
  constructor
  case held =>
    intro v held k w hv hinside hw
    cases hv with
    | leaf hleaf =>
      rw [inside, hleaf] at hinside
      cases hinside
    | obj hkeys hvalues =>
      obtain rfl := Option.some.inj hinside
      exact hvalues _ (Table.mem_of_get? hw)
  case whole =>
    intro old v h
    cases v with
    | obj upper =>
      obtain h | h := h
      · cases h
      · cases old with
        | none => rfl
        | some b =>
          cases b with
          | obj base => cases h
          | _ => rfl
    | _ => rfl
  case into =>
    intro b v below held hv hb hinside
    cases hv with
    | leaf hleaf =>
      rw [inside, hleaf] at hinside
      cases hinside
    | obj hkeys hvalues =>
      cases b with
      | obj base =>
        obtain rfl := Option.some.inj hb
        obtain rfl := Option.some.inj hinside
        exact congrArg some (funext (get?_mergeMembers hkeys base))
      | _ => cases hb

end Json

namespace Datum

def inside : Inside Key Datum := fun v => v.entries?.map Entries.value?

/-- In every map the keys differ, and each is the key of the atom it was written as. -/
inductive Keyed : Datum → Prop
  | leaf {v : Datum} (h : v.entries? = none) : Keyed v
  | map {label : Option Nat} {entries : Entries} (hkeys : (Table.keys entries).Nodup)
      (hatoms : ∀ e ∈ entries, e.2.1.key = e.1) (hvalues : ∀ e ∈ entries, Keyed e.2.2) :
      Keyed (.map label entries)

mutual

/-- Whether no map within this one, map below map, was cut because it contains itself. -/
def isUncut : Datum → Bool
  | .map _ entries => areUncut entries
  | .again isMap => !isMap
  | _ => true

def areUncut : List (Key × Atom × Datum) → Bool
  | [] => true
  | (_, _, v) :: entries => v.isUncut && areUncut entries

end

theorem value?_mergeEntries {upper : Entries} (hkeys : (Table.keys upper).Nodup)
    (hatoms : ∀ e ∈ upper, e.2.1.key = e.1) (base : Entries) (key : Key) :
    Entries.value? (mergeEntries base upper) key =
      Inside.laid mergeValue (Entries.value? base key) (Entries.value? upper key) := by
  induction upper generalizing base with
  | nil => rfl
  | cons e upper ih =>
    obtain ⟨k, a, v⟩ := e
    obtain ⟨hk, hupper⟩ := List.nodup_cons.1 hkeys
    have ha : a.key = k := hatoms (k, a, v) List.mem_cons_self
    have hrest := ih hupper fun e he => hatoms e (List.mem_cons_of_mem _ he)
    rw [mergeEntries, hrest]
    by_cases heq : k = key
    · obtain rfl := heq
      have hnone : Entries.value? upper k = none := by
        rw [Entries.value?, Table.get?_eq_none_of_not_mem hk, Option.map_none]
      have hsome : Entries.value? ((k, a, v) :: upper) k = some v := by
        rw [Entries.value?, Table.get?, if_pos rfl, Option.map_some]
      have hput := Entries.value?_put_self base a (mergeValue (Entries.value? base k) v)
      rw [ha] at hput
      rw [hnone, hsome]
      exact hput
    · have hother : Entries.value? ((k, a, v) :: upper) key = Entries.value? upper key := by
        rw [Entries.value?, Table.get?, if_neg heq, Entries.value?]
      rw [hother, Entries.value?_put_of_ne _ _ (ha ▸ heq)]

theorem merges : inside.Merges Keyed mergeValue := by
  constructor
  case held =>
    intro v held k w hv hinside hw
    cases hv with
    | leaf hleaf =>
      rw [inside, hleaf] at hinside
      cases hinside
    | map hkeys hatoms hvalues =>
      obtain rfl := Option.some.inj hinside
      obtain ⟨⟨a, w'⟩, hget, rfl⟩ := Option.map_eq_some_iff.1 hw
      exact hvalues _ (Table.mem_of_get? hget)
  case whole =>
    intro old v h
    cases v with
    | map label upper =>
      obtain h | h := h
      · cases h
      · cases old with
        | none => rfl
        | some b =>
          cases b with
          | map label base => cases h
          | _ => rfl
    | _ => rfl
  case into =>
    intro b v below held hv hb hinside
    cases hv with
    | leaf hleaf =>
      rw [inside, hleaf] at hinside
      cases hinside
    | map hkeys hatoms hvalues =>
      cases b with
      | map label base =>
        obtain rfl := Option.some.inj hb
        obtain rfl := Option.some.inj hinside
        exact congrArg some (funext (value?_mergeEntries hkeys hatoms base))
      | _ => cases hb

end Datum

end TraitTrace
