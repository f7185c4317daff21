import TraitTrace.Proofs.FieldName.Printed
import TraitTrace.Proofs.Outcome
import TraitTrace.Proofs.TypeExpr.Weight

/-! Reading a list of nodes pass by pass. A pass reads one node and leaves the rest of the list, if
it goes on. The rest has fewer characters that are not blank, so that no text takes more passes than
one for each of them and a last one. -/

namespace TraitTrace.FieldName

open Text TypeExpr

/-- What a pass reads, and what it leaves to read. -/
structure Pass where
  read : List (Option String)
  rest : Option (List Char)

/-- What is left to read of the arguments after a node's first one: nothing where the list ends or
is cut short. -/
def leftOver : List (List Char) → Option (List Char)
  | [] => none
  | rest :: _ =>
    if rest = [] ∨ rest = endType ∨ ['.', '.', '.'].isPrefixOf rest then none else some rest

def pass (s : List Char) : Except Fault Pass :=
  match generic s with
  | (head, first :: more) =>
    if nodeTypes.contains head then (slot first).map fun read => ⟨[read], leftOver more⟩
    else .ok ⟨[], none⟩
  | (_, []) => .ok ⟨[], none⟩

/-- What is read within a number of passes, if the list comes to its end in them. -/
def readWithin : Nat → List Char → Option (Except Fault (List (Option String)))
  | 0, _ => none
  | n + 1, s =>
    match pass s with
    | .error fault => some (.error fault)
    | .ok ⟨read, none⟩ => some (.ok read)
    | .ok ⟨read, some rest⟩ => (readWithin n rest).map (Except.map (read ++ ·))

theorem mem_of_leftOver {more : List (List Char)} {rest : List Char}
    (h : leftOver more = some rest) : rest ∈ more := by
  cases more with
  | nil => cases h
  | cons next more =>
    rw [leftOver] at h
    split at h
    · cases h
    · cases h
      exact List.mem_cons_self

theorem rest_mem_of_pass {s rest : List Char} {p : Pass} (h : pass s = .ok p)
    (hrest : p.rest = some rest) : rest ∈ (generic s).2 := by
  unfold pass at h
  split at h
  · rename_i head first more hg
    split at h
    · obtain ⟨read, -, rfl⟩ := map_ok.1 h
      rw [hg]
      exact List.mem_cons_of_mem _ (mem_of_leftOver hrest)
    · cases h
      cases hrest
  · cases h
    cases hrest

/-- What a node gives: the slot that its first argument shows, before those of its second. -/
theorem nodeSlots_node {s head a : List Char} {more : List (List Char)}
    (h : generic s = (head, a :: more)) (hh : head ∈ nodeTypes) :
    nodeSlots s = slot a >>= fun slot =>
      match more with
      | [] => .ok [slot]
      | rest :: _ =>
        if rest = [] ∨ rest = endType ∨ ['.', '.', '.'].isPrefixOf rest then .ok [slot]
        else (nodeSlots rest).map (slot :: ·) := by
  rw [nodeSlots, nodePoints_node h hh, slot]
  cases point a with
  | error fault => rfl
  | ok p =>
    cases more with
    | nil => rfl
    | cons rest more =>
      change Except.map _ (if _ then _ else _) = if _ then _ else _
      split
      · rfl
      · rw [nodeSlots]
        cases nodePoints rest <;> rfl

/-- A list is read by a pass and by the passes over what that leaves. -/
theorem nodeSlots_eq_pass (s : List Char) :
    nodeSlots s = pass s >>= fun p =>
      match p.rest with
      | none => .ok p.read
      | some rest => (nodeSlots rest).map (p.read ++ ·) := by
  unfold pass
  split
  · rename_i head first more hg
    split
    · rename_i hhead
      rw [nodeSlots_node hg (List.contains_iff_mem.1 hhead)]
      cases slot first with
      | error fault => rfl
      | ok read =>
        change _ = match leftOver more with
          | none => Except.ok [read]
          | some rest => (nodeSlots rest).map (read :: ·)
        cases more with
        | nil => rfl
        | cons rest more =>
          rw [leftOver]
          change (if _ then _ else _) = _
          split <;> rfl
    · rename_i hhead
      rw [nodeSlots, nodePoints_of_not_node hg fun hmem => hhead (List.contains_iff_mem.2 hmem)]
      rfl
  · rename_i head hg
    rw [nodeSlots, nodePoints_eq_nil (by rw [hg])]
    rfl

theorem readWithin_eq {s : List Char} {n : Nat} (h : weight s < n) :
    readWithin n s = some (nodeSlots s) := by
  induction n generalizing s with
  | zero => exact absurd h (Nat.not_lt_zero _)
  | succ n ih =>
    rw [readWithin, nodeSlots_eq_pass]
    cases hp : pass s with
    | error fault => rfl
    | ok p =>
      obtain ⟨read, rest⟩ := p
      cases rest with
      | none => rfl
      | some rest =>
        have hlt := weight_lt_of_mem_generic (rest_mem_of_pass hp rfl)
        dsimp only
        rw [ih (by omega)]
        rfl

end TraitTrace.FieldName
