import TraitTrace.Proofs.Diagnostic.RoundTrip
import TraitTrace.Proofs.Session.Accounting

/-! What a report takes from its sources. Its level is an error where one of theirs is, and its
spans are theirs; so a report of diagnostics that were decoded is a diagnostic that can be read
back. -/

namespace TraitTrace

theorem RootCause.ofFacts_ne_passThrough (facts : List Fact) : ofFacts facts ≠ .passThrough := by
  unfold ofFacts
  split
  · nofun
  · split <;> nofun

namespace Report

/-- A report that says what its sources say. -/
structure Grouped (report : Report) : Prop where
  reported : report.isPassThrough = false
  level : report.level =
    if (report.sources.map Source.diagnostic).any Diagnostic.isError then "error"
    else ((report.sources.map Source.diagnostic).head?.map Diagnostic.level).getD ""
  code : report.code = firstCode (report.sources.map Source.diagnostic)
  spans : report.spans =
    appendNew [] ((report.sources.map Source.diagnostic).flatMap Diagnostic.spans)

theorem grouped_ofGroup {g : Group} {graph : Graph} {r : Registry} {charset : Charset}
    {report : Report} (h : ofGroup g graph r charset = .ok report) : report.Grouped := by
  unfold ofGroup at h
  obtain ⟨tree, -, h⟩ := bind_ok.1 h
  dsimp only at h
  have hcause : ∀ {report : Report}, report.rootCause = RootCause.ofFacts g.facts →
      report.isPassThrough = false := fun hr =>
    decide_eq_false (hr ▸ RootCause.ofFacts_ne_passThrough g.facts)
  split at h
  · obtain ⟨name, -, h⟩ := bind_ok.1 h
    cases h
    exact ⟨hcause rfl, rfl, rfl, rfl⟩
  · cases h
    exact ⟨hcause rfl, rfl, rfl, rfl⟩

/-- A report shows an error exactly where one of its sources does. -/
theorem Grouped.isError_iff {report : Report} (h : report.Grouped) :
    report.isError = true ↔ ∃ x ∈ report.sources, x.diagnostic.isError = true := by
  have hany : (report.sources.map Source.diagnostic).any Diagnostic.isError = true ↔
      ∃ x ∈ report.sources, x.diagnostic.isError = true := by
    rw [List.any_map, List.any_eq_true]
    rfl
  rw [isError, h.level, ← hany]
  split
  · rename_i herror
    exact iff_of_true (by decide +kernel) herror
  · rename_i hnone
    refine iff_of_false (fun hlevel => ?_) hnone
    cases hsources : report.sources with
    | nil =>
      rw [hsources] at hlevel
      exact absurd hlevel (by decide +kernel)
    | cons x xs =>
      rw [hsources] at hlevel
      exact hnone (hany.2 ⟨x, hsources ▸ List.mem_cons_self, hlevel⟩)

theorem isError_passThrough (d : Diagnostic) (seq : Int) :
    (passThrough d seq).isError = true ↔
      ∃ x ∈ (passThrough d seq).sources, x.diagnostic.isError = true := by
  simp [passThrough, isError, Diagnostic.isError]

theorem firstCode_ne_empty (ds : List Diagnostic) : firstCode ds ≠ some "" := by
  intro h
  obtain ⟨d, -, hd⟩ := List.mem_filterMap.1 (List.mem_of_mem_head? h)
  unfold Chain.nonempty? at hd
  cases hcode : d.code <;> simp [hcode, Option.filter] at hd

/-- The diagnostic of a report of decoded diagnostics is one that can be read back. -/
theorem Grouped.built_toDiagnostic {report : Report} (h : report.Grouped)
    (hsources : report.sources ≠ [])
    (hsound : ∀ x ∈ report.sources, x.diagnostic.level ≠ "" ∧ ∀ s ∈ x.diagnostic.spans, s.Sound) :
    report.toDiagnostic.Built 1 := by
  have hlevel : report.level ≠ "" := by
    rw [h.level]
    split
    · decide
    · obtain ⟨x, xs, hx⟩ := List.exists_cons_of_ne_nil hsources
      rw [hx]
      exact (hsound x (hx ▸ List.mem_cons_self)).1
  have hcode : report.code ≠ some "" := h.code ▸ firstCode_ne_empty _
  have hspans : ∀ s ∈ report.spans, s.Sound := by
    intro s hs
    rw [h.spans, mem_appendNew] at hs
    obtain ⟨d, hd, hs⟩ := List.mem_flatMap.1 (hs.resolve_left List.not_mem_nil)
    obtain ⟨x, hx, rfl⟩ := List.mem_map.1 hd
    exact (hsound x hx).2 s hs
  unfold toDiagnostic
  rw [h.reported]
  refine ⟨hlevel, hcode, hspans, ?_, rfl⟩
  split
  · trivial
  · exact ⟨⟨by decide, nofun, nofun, trivial, rfl⟩, trivial⟩

end Report

namespace Session

/-- The reports of a session are those of groups and single diagnostics that are passed through. -/
theorem report_cases {s : Session} {charset : Charset} {f : Finalized} {reports : List Report}
    (hf : s.finalize charset = .ok f) (hr : f.reports = .ok reports) {report : Report}
    (h : report ∈ reports) : report.Grouped ∨ ∃ d seq, report = .passThrough d seq := by
  obtain ⟨b, grouped, -, hgrouped, rfl⟩ := finalize_spec hf hr
  rcases List.mem_append.1 (List.mem_mergeSort.1 h) with h | h
  · obtain ⟨i, hi⟩ := List.getElem?_of_mem h
    obtain ⟨g, -, hg⟩ := forall₂_right (forall₂_of_mapM hgrouped) hi
    exact .inl (Report.grouped_ofGroup hg)
  · obtain ⟨f, -, hf⟩ := List.mem_flatMap.1 h
    obtain ⟨record, -, rfl⟩ := List.mem_map.1 hf
    exact .inr ⟨record.diagnostic, record.seq, rfl⟩

end Session

end TraitTrace
