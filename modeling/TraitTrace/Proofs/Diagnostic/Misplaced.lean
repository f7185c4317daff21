import TraitTrace.Proofs.Diagnostic.Decoded

/-! Objects that cannot be decoded. A number or a truth value in the place of a list stops the
decoder, unless it is zero or false. Whatever else stands in a member of a diagnostic, of its spans
or of its notes, the diagnostic is decoded. -/

namespace TraitTrace

namespace Json

/-- A number or a truth value that counts as present. -/
inductive Scalar : Json → ScalarKind → Prop
  | int {n : Int} (h : n ≠ 0) : Scalar (.int n) .int
  | bool : Scalar (.bool true) .bool
  | float {bits : UInt64} (h : isZeroBits bits = false) : Scalar (.float bits) .float

theorem Scalar.iterable {v : Json} {kind : ScalarKind} (h : Scalar v kind) :
    v.iterable = .error (.notIterable kind) := by
  cases h with
  | int h => rw [Json.iterable, if_neg h]
  | bool => rfl
  | float h => rw [Json.iterable, if_neg (by rw [h]; nofun)]

theorem scalar_of_iterable {v : Json} {fault : Fault} (h : v.iterable = .error fault) :
    ∃ kind, fault = .notIterable kind ∧ Scalar v kind := by
  unfold Json.iterable at h
  split at h
  · split at h
    · cases h
    · rename_i hn
      exact ⟨.int, (Except.error.inj h).symm, .int hn⟩
  · split at h
    · rename_i hb
      obtain rfl := hb
      exact ⟨.bool, (Except.error.inj h).symm, .bool⟩
    · cases h
  · split at h
    · cases h
    · rename_i hbits
      exact ⟨.float, (Except.error.inj h).symm, .float (Bool.eq_false_iff.2 hbits)⟩
  · cases h

theorem scalar_of_objects {data : Members} {name : String} {fault : Fault}
    (h : Json.objects (Table.get? data name) = .error fault) :
    ∃ v kind, Table.get? data name = some v ∧ fault = .notIterable kind ∧ Scalar v kind := by
  unfold Json.objects at h
  split at h
  · cases h
  · rename_i v hv
    obtain h | ⟨-, -, h⟩ := bind_error.1 h
    · obtain ⟨kind, hfault, hscalar⟩ := scalar_of_iterable h
      exact ⟨v, kind, hv, hfault, hscalar⟩
    · cases h

/-- No list is read from a scalar. -/
theorem Scalar.objects {v : Json} {kind : ScalarKind} (h : Scalar v kind) :
    Json.objects (some v) = .error (.notIterable kind) := by
  rw [Json.objects, h.iterable]
  rfl

end Json

namespace Diagnostic

open Json

/-- A scalar in the place of a list: of the spans or notes of a diagnostic, of the lines of a span,
or in a note. -/
inductive Misplaced : Members → ScalarKind → Prop
  | spans {data : Members} {v : Json} {kind : ScalarKind} (hv : Table.get? data "spans" = some v)
      (h : Scalar v kind) : Misplaced data kind
  | lines {data range : Members} {items : List Json} {v : Json} {kind : ScalarKind}
      (hitems : Table.get? data "spans" = some (.arr items)) (hrange : .obj range ∈ items)
      (hv : Table.get? range "text" = some v) (h : Scalar v kind) : Misplaced data kind
  | notes {data : Members} {v : Json} {kind : ScalarKind}
      (hv : Table.get? data "children" = some v) (h : Scalar v kind) : Misplaced data kind
  | note {data child : Members} {items : List Json} {kind : ScalarKind}
      (hitems : Table.get? data "children" = some (.arr items)) (hchild : .obj child ∈ items)
      (h : Misplaced child kind) : Misplaced data kind

theorem childrenAmong_eq (data : Members) :
    childrenAmong data = ((Table.get? data "children").map childrenOf).getD (.ok []) := by
  induction data with
  | nil =>
    rw [childrenAmong]
    rfl
  | cons p data ih =>
    rw [childrenAmong, Table.get?]
    split
    · rfl
    · exact ih

theorem ofItems_ok {items : List Json} {children : List Diagnostic}
    (h : ofItems items = .ok children) {child : Members} (hchild : .obj child ∈ items) :
    ∃ d, ofMembers child = .ok d := by
  induction items generalizing children with
  | nil => cases hchild
  | cons v items ih =>
    cases v with
    | obj data =>
      rw [ofItems] at h
      obtain ⟨d, hd, h⟩ := bind_ok.1 h
      obtain ⟨ds, hds, -⟩ := bind_ok.1 h
      rcases List.mem_cons.1 hchild with heq | hrest
      · exact ⟨d, Json.obj.inj heq ▸ hd⟩
      · exact ih hds hrest
    | _ =>
      rw [ofItems] at h
      · exact ih h ((List.mem_cons.1 hchild).resolve_left (by rintro ⟨⟩))
      · rintro _ ⟨⟩

theorem ofItems_error {items : List Json} {fault : Fault} (h : ofItems items = .error fault) :
    ∃ child, .obj child ∈ items ∧ ofMembers child = .error fault := by
  have hcons : ∀ {v : Json} {rest : List Json},
      (∃ child, .obj child ∈ rest ∧ ofMembers child = .error fault) →
      ∃ child, .obj child ∈ v :: rest ∧ ofMembers child = .error fault :=
    fun ⟨child, hmem, hchild⟩ => ⟨child, List.mem_cons_of_mem _ hmem, hchild⟩
  induction items with
  | nil =>
    rw [ofItems] at h
    cases h
  | cons v items ih =>
    cases v with
    | obj data =>
      rw [ofItems] at h
      obtain h | ⟨d, -, h⟩ := bind_error.1 h
      · exact ⟨data, List.mem_cons_self, h⟩
      · obtain h | ⟨ds, -, h⟩ := bind_error.1 h
        · exact hcons (ih h)
        · cases h
    | _ =>
      rw [ofItems] at h
      · exact hcons (ih h)
      · rintro _ ⟨⟩

theorem childrenOf_scalar {v : Json} {kind : ScalarKind} (h : Scalar v kind) :
    childrenOf v = .error (.notIterable kind) := by
  rw [childrenOf, h.iterable]
  · rfl
  · rintro items rfl
    cases h

theorem childrenOf_error {v : Json} {fault : Fault} (h : childrenOf v = .error fault) :
    (∃ kind, fault = .notIterable kind ∧ Scalar v kind) ∨
      ∃ items child, v = .arr items ∧ .obj child ∈ items ∧ ofMembers child = .error fault := by
  unfold childrenOf at h
  split at h
  · rename_i items
    obtain ⟨child, hmem, hchild⟩ := ofItems_error h
    exact .inr ⟨items, child, rfl, hmem, hchild⟩
  · cases hv : v.iterable with
    | ok _ =>
      rw [hv] at h
      cases h
    | error f =>
      rw [hv] at h
      obtain rfl := Except.error.inj h
      exact .inl (scalar_of_iterable hv)

theorem sizeOf_lt_of_get? {data : Members} {name : String} {v : Json}
    (h : Table.get? data name = some v) : sizeOf v < sizeOf data := by
  induction data with
  | nil => cases h
  | cons p data ih =>
    obtain ⟨k, w⟩ := p
    rw [Table.get?] at h
    simp only [List.cons.sizeOf_spec, Prod.mk.sizeOf_spec]
    split at h
    · obtain rfl := Option.some.inj h
      omega
    · have hlt := ih h
      omega

/-- What stops the decoder is a scalar in the place of a list. -/
theorem misplaced_of_error {data : Members} {fault : Fault} (h : ofMembers data = .error fault) :
    ∃ kind, fault = .notIterable kind ∧ Misplaced data kind := by
  rw [ofMembers] at h
  obtain h | ⟨ranges, hranges, h⟩ := bind_error.1 h
  · obtain ⟨v, kind, hv, rfl, hscalar⟩ := scalar_of_objects h
    exact ⟨kind, rfl, .spans hv hscalar⟩
  obtain h | ⟨spans, -, h⟩ := bind_error.1 h
  · obtain ⟨range, hrange, h⟩ := exists_of_mapM_error h
    obtain ⟨items, hitems, hmem⟩ := (mem_objects hranges).1 hrange
    obtain h | ⟨lines, -, h⟩ := bind_error.1 h
    · obtain ⟨v, kind, hv, rfl, hscalar⟩ := scalar_of_objects h
      exact ⟨kind, rfl, .lines hitems hmem hv hscalar⟩
    · cases h
  obtain h | ⟨children, -, h⟩ := bind_error.1 h
  · rw [childrenAmong_eq] at h
    cases hv : Table.get? data "children" with
    | none =>
      rw [hv] at h
      cases h
    | some v =>
      rw [hv] at h
      obtain ⟨kind, hfault, hscalar⟩ | ⟨items, child, rfl, hmem, hchild⟩ := childrenOf_error h
      · exact ⟨kind, hfault, .notes hv hscalar⟩
      · obtain ⟨kind, hfault, hmis⟩ := misplaced_of_error hchild
        exact ⟨kind, hfault, .note hv hmem hmis⟩
  · cases h
termination_by sizeOf data
decreasing_by
  have hvalue := sizeOf_lt_of_get? hv
  have hobj := List.sizeOf_lt_of_mem hmem
  simp only [Json.arr.sizeOf_spec, Json.obj.sizeOf_spec] at hvalue hobj
  omega

/-- With a scalar in the place of a list nothing is decoded. -/
theorem not_ok_of_misplaced {data : Members} {kind : ScalarKind} (h : Misplaced data kind)
    (d : Diagnostic) : ofMembers data ≠ .ok d := by
  induction h generalizing d with
  | spans hv h =>
    intro hd
    obtain ⟨ranges, -, -, hranges, -⟩ := ofMembers_spec hd
    rw [hv, h.objects] at hranges
    cases hranges
  | lines hitems hrange hv h =>
    intro hd
    obtain ⟨ranges, spans, -, hranges, hspans, -⟩ := ofMembers_spec hd
    have hmem := (mem_objects hranges).2 ⟨_, hitems, hrange⟩
    obtain ⟨i, hi⟩ := List.getElem?_of_mem hmem
    obtain ⟨s, -, hs⟩ := forall₂_left (forall₂_of_mapM hspans) hi
    obtain ⟨lines, hlines, -⟩ := bind_ok.1 hs
    rw [hv, h.objects] at hlines
    cases hlines
  | notes hv h =>
    intro hd
    obtain ⟨-, -, children, -, -, hchildren, -⟩ := ofMembers_spec hd
    rw [childrenAmong_eq, hv] at hchildren
    cases (childrenOf_scalar h).symm.trans hchildren
  | note hitems hchild h ih =>
    intro hd
    obtain ⟨-, -, children, -, -, hchildren, -⟩ := ofMembers_spec hd
    rw [childrenAmong_eq, hitems] at hchildren
    rw [Option.map_some, Option.getD_some, childrenOf] at hchildren
    obtain ⟨e, he⟩ := ofItems_ok hchildren hchild
    exact ih e he

example : ofMembers [("spans", .int 5)] = .error (.notIterable .int) := by cbv

end Diagnostic

end TraitTrace
