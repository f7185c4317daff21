/-! Tables: key and value pairs in the order in which their keys first came. Writing a key again
changes its value and keeps its place. The lemmas read a table through `get?` and `keys`. -/

namespace TraitTrace

abbrev Table (κ α : Type) := List (κ × α)

namespace Table

variable {κ α : Type} [DecidableEq κ]

def get? : Table κ α → κ → Option α
  | [], _ => none
  | (k, a) :: t, key => if k = key then some a else get? t key

/-- Writes a value at a key: in place when the key is there, at the end when it is new. -/
def set : Table κ α → κ → α → Table κ α
  | [], key, value => [(key, value)]
  | (k, a) :: t, key, value => if k = key then (k, value) :: t else (k, a) :: set t key value

def ofWrites (writes : List (κ × α)) : Table κ α :=
  writes.foldl (fun t w => t.set w.1 w.2) []

def keys (t : Table κ α) : List κ := t.map Prod.fst

def has (t : Table κ α) (key : κ) : Bool := (t.get? key).isSome

@[simp] theorem get?_nil (key : κ) : get? ([] : Table κ α) key = none := rfl

@[simp] theorem get?_set_self (t : Table κ α) (key : κ) (value : α) :
    (t.set key value).get? key = some value := by
  induction t with
  | nil => simp [set, get?]
  | cons p t ih => by_cases h : p.1 = key <;> simp [set, get?, h, ih]

theorem get?_set_of_ne (t : Table κ α) {key other : κ} (value : α) (h : key ≠ other) :
    (t.set key value).get? other = t.get? other := by
  induction t with
  | nil => simp [set, get?, h]
  | cons p t ih =>
    by_cases hp : p.1 = key
    · subst hp; simp [set, get?, h]
    · by_cases ho : p.1 = other <;> simp [set, get?, hp, ho, ih, h.symm]

theorem keys_set (t : Table κ α) (key : κ) (value : α) :
    (t.set key value).keys = if key ∈ t.keys then t.keys else t.keys ++ [key] := by
  induction t with
  | nil => simp [set, keys]
  | cons p t ih =>
    by_cases hp : p.1 = key
    · simp [set, keys, hp]
    · simp only [keys] at ih
      have hp' : key ≠ p.1 := fun h => hp h.symm
      by_cases hk : key ∈ t.map Prod.fst <;> simp [set, keys, hp, hp', ih, hk]

end Table

end TraitTrace
