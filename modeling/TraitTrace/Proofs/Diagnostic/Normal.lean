import Mathlib
import TraitTrace.Proofs.Diagnostic.Misplaced
import TraitTrace.Proofs.Diagnostic.RoundTrip

/-! Diagnostics decoded, encoded and decoded again. Decoding fills in what is missing, so that the
members it started from are not needed to come back to the same diagnostic, unless one of its codes
is empty. -/

namespace TraitTrace.Diagnostic

open Json

mutual

/-- No code in a diagnostic or in its notes is empty. -/
def Coded : Diagnostic → Prop
  | ⟨_, _, code, _, children, _, _⟩ => code ≠ some "" ∧ CodedNotes children

def CodedNotes : List Diagnostic → Prop
  | [] => True
  | d :: ds => Coded d ∧ CodedNotes ds

end

mutual

theorem coded_bare_iff : ∀ d : Diagnostic, d.bare.coded = d.bare ↔ d.Coded
  | ⟨level, message, code, spans, children, rendered, origin⟩ => by
    rw [bare, coded, Coded, ← filter_code_eq_self, ← codedNotes_bareNotes_iff children]
    simp

theorem codedNotes_bareNotes_iff : ∀ ds : List Diagnostic,
    codedNotes (bareNotes ds) = bareNotes ds ↔ CodedNotes ds
  | [] => ⟨fun _ => trivial, fun _ => rfl⟩
  | d :: ds => by
    rw [bareNotes, codedNotes, CodedNotes, ← coded_bare_iff d, ← codedNotes_bareNotes_iff ds]
    simp

end

mutual

theorem coded_coded : ∀ d : Diagnostic, d.coded.coded = d.coded
  | ⟨level, message, code, spans, children, rendered, origin⟩ => by
    rw [coded, coded, codedNotes_codedNotes children, Option.filter_filter]
    simp

theorem codedNotes_codedNotes : ∀ ds : List Diagnostic, codedNotes (codedNotes ds) = codedNotes ds
  | [] => rfl
  | d :: ds => by
    rw [codedNotes, codedNotes, coded_coded d, codedNotes_codedNotes ds]

end

theorem filledNotes_of_ofItems {items : List Json} {ds : List Diagnostic}
    (h : ofItems items = .ok ds)
    (hitems : ∀ data d, .obj data ∈ items → ofMembers data = .ok d → d.Filled) :
    FilledNotes ds := by
  induction items generalizing ds with
  | nil =>
    rw [ofItems] at h
    cases h
    trivial
  | cons v items ih =>
    have hrest := fun data d hmem => hitems data d (List.mem_cons_of_mem v hmem)
    cases v with
    | obj data =>
      rw [ofItems] at h
      obtain ⟨d, hd, h⟩ := bind_ok.1 h
      obtain ⟨notes, hnotes, h⟩ := bind_ok.1 h
      cases h
      exact ⟨hitems data d List.mem_cons_self hd, ih hnotes hrest⟩
    | _ =>
      rw [ofItems] at h
      · exact ih h hrest
      · rintro _ ⟨⟩

/-- What is decoded is filled in, at every level of its notes. -/
theorem filled_of_ofMembers {data : Members} {d : Diagnostic} (h : ofMembers data = .ok d) :
    d.Filled := by
  obtain ⟨ranges, spans, children, -, hspans, hchildren, rfl⟩ := ofMembers_spec h
  refine ⟨Members.textOr_ne_empty (by decide), fun s hs => ?_, ?_⟩
  · obtain ⟨i, hi⟩ := List.getElem?_of_mem hs
    obtain ⟨o, -, hof⟩ := forall₂_right (forall₂_of_mapM hspans) hi
    exact Span.filled_of_ofMembers hof
  · rw [childrenAmong_eq] at hchildren
    cases hv : Table.get? data "children" with
    | none =>
      rw [hv] at hchildren
      cases hchildren
      trivial
    | some v =>
      rw [hv, Option.map_some, Option.getD_some] at hchildren
      cases v with
      | arr items =>
        rw [childrenOf] at hchildren
        refine filledNotes_of_ofItems hchildren fun child e hmem he => ?_
        exact filled_of_ofMembers he
      | _ =>
        rw [childrenOf] at hchildren
        · obtain ⟨-, -, rfl⟩ := map_ok.1 hchildren
          trivial
        · rintro _ ⟨⟩
termination_by sizeOf data
decreasing_by
  have hvalue := sizeOf_lt_of_get? hv
  have hobj := List.sizeOf_lt_of_mem hmem
  simp only [Json.arr.sizeOf_spec, Json.obj.sizeOf_spec] at hvalue hobj
  omega

/-- A diagnostic that was decoded is decoded from its own encoding as it was, without the members
that it came from, exactly where no code in it is empty. After that nothing changes any more. -/
theorem decoded_again {data : Members} {d : Diagnostic} (h : ofMembers data = .ok d) :
    ∃ d', ofMembers d.bare.toMembers = .ok d' ∧ (d'.bare = d.bare ↔ d.Coded) ∧
      ∃ d'', ofMembers d'.bare.toMembers = .ok d'' ∧ d''.bare = d'.bare := by
  obtain ⟨d', hd', hbare⟩ := ofMembers_bare d (filled_of_ofMembers h)
  obtain ⟨d'', hd'', hbare'⟩ := ofMembers_bare d' (filled_of_ofMembers hd')
  refine ⟨d', hd', ?_, d'', hd'', ?_⟩
  · rw [hbare]
    exact coded_bare_iff d
  · rw [hbare', hbare, coded_coded]

/-- Members of the wrong kind, an empty level, a line that is zero, and a note with a code. -/
def patchyMembers : Members :=
  [("level", .str ""), ("message", .int 1), ("code", .str "E0277"),
    ("spans", .arr [.int 3, .obj [("line_start", .int 0), ("column_start", .int 7),
      ("is_primary", .str "yes"), ("text", .arr [.obj [("highlight_start", .bool true)]])]]),
    ("children", .arr [.null, .obj [("level", .str "note"),
      ("code", .obj [("code", .str "E0277")])]])]

def patchy : Diagnostic where
  level := "error"
  message := ""
  code := none
  spans := [⟨"<unknown>", 1, 1, 7, 7, true, 0, 0, none, [⟨"", 1, 1⟩]⟩]
  children := [⟨"note", "", some "E0277", [], [], none,
    some [("level", .str "note"), ("code", .obj [("code", .str "E0277")])]⟩]
  rendered := none
  origin := some patchyMembers

theorem decoded_again_patchy :
    ofMembers patchyMembers = .ok patchy ∧ patchy.Coded ∧
      ∃ d', ofMembers patchy.bare.toMembers = .ok d' ∧ d'.bare = patchy.bare := by
  have hdecoded : ofMembers patchyMembers = .ok patchy := by cbv
  have hcoded : patchy.Coded := ⟨by decide, by simp [CodedNotes, Coded]⟩
  obtain ⟨d', hd', hsame, -⟩ := decoded_again hdecoded
  exact ⟨hdecoded, hcoded, d', hd', hsame.2 hcoded⟩

end TraitTrace.Diagnostic
