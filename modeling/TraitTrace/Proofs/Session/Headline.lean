import TraitTrace.Proofs.Chain.Leaf
import TraitTrace.Proofs.Fact.Missing
import TraitTrace.Proofs.Graph.Calls
import TraitTrace.Proofs.Session.Accounting

/-! Headlines. The title of a report is read off all facts of its group, its tree off one chain for
each diagnostic; both agree on the missing field, which is an unmet node of the group. -/

namespace TraitTrace

namespace RootCause

theorem isFieldOutcome_ofFacts (facts : List Fact) :
    (ofFacts facts).isFieldOutcome = true ↔ ∃ m, primaryMissing facts = some m := by
  have hnone : primaryMissing facts = none ↔ (facts.filterMap Fact.missing?).isEmpty = true := by
    rw [List.isEmpty_iff]
    exact primaryMissing_eq_none
  unfold ofFacts
  cases hm : primaryMissing facts with
  | none =>
    rw [if_pos (hnone.1 hm)]
    exact ⟨nofun, fun ⟨m, h⟩ => nomatch h⟩
  | some m =>
    have hsome : ¬(facts.filterMap Fact.missing?).isEmpty = true := by
      rw [← hnone, hm]
      nofun
    rw [if_neg hsome]
    exact ⟨fun _ => ⟨m, rfl⟩, fun _ => by split <;> rfl⟩

end RootCause

/-- A classification has no facts but those of its diagnostic. -/
theorem Diagnostic.facts_ofDiagnostic_subset (d : Diagnostic) :
    (Classification.ofDiagnostic d).facts ⊆ d.facts := by
  unfold Classification.ofDiagnostic
  generalize d.facts = facts
  dsimp only
  split
  · exact List.Subset.refl _
  · exact List.nil_subset _

namespace Report

theorem rootCause_ofGroup {g : Group} {graph : Graph} {r : Registry} {charset : Charset}
    {report : Report} (h : ofGroup g graph r charset = .ok report) :
    report.rootCause = RootCause.ofFacts g.facts := by
  unfold ofGroup at h
  obtain ⟨tree, -, h⟩ := bind_ok.1 h
  dsimp only at h
  split at h
  · obtain ⟨name, -, h⟩ := bind_ok.1 h
    cases h
    rfl
  · cases h
    rfl

/-- A title that names a field and its context, the field bare or as a text literal. -/
structure Names (title : String) (name : FieldName) (context : String) : Prop where
  text : title = "missing field " ++ name.quoted ++ " in the context `" ++ context ++ "`."
  quoted : name.quoted = "`" ++
    (if FieldName.isIdentifierSafe name.text then name.text else Json.quote name.text) ++ "`"

theorem names_fieldTitle (m : MissingField) (name : FieldName) :
    Names (fieldTitle m name) name m.context where
  text := by simp only [fieldTitle, String.append_assoc]; rfl
  quoted := by
    unfold FieldName.quoted
    split <;> rfl

/-- The report of a missing field has it in its title. -/
theorem title_ofGroup {g : Group} {graph : Graph} {r : Registry} {charset : Charset}
    {report : Report} {m : MissingField} (h : ofGroup g graph r charset = .ok report)
    (hm : primaryMissing g.facts = some m) :
    ∃ name, FieldName.decode m.tag = .ok name ∧ Names report.title name m.context := by
  unfold ofGroup at h
  obtain ⟨tree, -, h⟩ := bind_ok.1 h
  rw [hm] at h
  obtain ⟨name, hname, h⟩ := bind_ok.1 h
  cases h
  exact ⟨name, hname, names_fieldTitle m name⟩

end Report

namespace Group

/-- The missing field of a group is that of one of its diagnostics. -/
theorem exists_record {g : Group} {m : MissingField} (h : primaryMissing g.facts = some m) :
    ∃ e ∈ g.entries, ∃ rec ∈ e.error.records, primaryMissing rec.facts = some m := by
  rw [facts, primaryMissing_absorb] at h
  obtain ⟨error, herror, h⟩ := exists_primaryMissing h
  obtain ⟨e, he, rfl⟩ := List.mem_map.1 herror
  rw [e.error.facts_eq, primaryMissing_absorb] at h
  obtain ⟨rec, hrec, h⟩ := exists_primaryMissing h
  exact ⟨e, he, rec, hrec, h⟩

theorem source_mem {g : Group} {e : Entry} {rec : Record} (he : e ∈ g.entries)
    (hrec : rec ∈ e.error.records) : rec.source ∈ g.sources := by
  rw [g.perm_sources.mem_iff]
  exact List.mem_flatMap.2 ⟨e, he, List.mem_map_of_mem hrec⟩

/-- A node of a group for a field that a context does not have. -/
def HasUnmet (graph : Graph) (g : Group) (context field : String) : Prop :=
  ∃ h ∈ g.nodes, ∃ n, graph.node? h = some n ∧ n.kind = .field ∧ n.context = some context ∧
    n.field.map FieldName.text = some field ∧ n.status = .unsatisfied

theorem hasUnmet_of_step {errors : List LogicalError} {r : Registry} {b : GraphBuild} {g : Group}
    {c : Chain} {s : Step} {context : String} {name : FieldName}
    (hb : (Construction.ofErrors errors r).result = .ok b) (hg : g ∈ b.groups)
    (hc : g.Contributes c) (hs : s ∈ c.steps) (hkind : s.kind = .field)
    (hcontext : s.context = some context) (hfield : s.field = some name)
    (hstatus : s.status = .unsatisfied) : g.HasUnmet b.graph context name.text := by
  obtain ⟨k, h, hk, ⟨i, rfl, hi⟩, hmem⟩ := (shown_of_result .unicode hb hg).nodes c hc s hs
  obtain ⟨n, hn, rfl⟩ := Graph.getElem?_keys.1 hi
  obtain ⟨calls, htakes, hsteps⟩ := Construction.takes_of_result hb
  have hgathers := htakes.collected.nodes n (List.mem_of_getElem? hn)
  have hkey : n.key = .field (some context) (some name.text) := by
    rw [Step.nodeKey, hkind, hcontext, hfield] at hk
    exact (Except.ok.inj hk).symm
  have hcalled : s ∈ calls.map Prod.fst := by
    obtain ⟨error, herror, hec⟩ := hc
    obtain ⟨e, he, rfl⟩ := List.mem_map.1 herror
    obtain ⟨hbuilt, -, hgroups, -⟩ := Construction.built_of_result hb
    rw [hgroups] at hg
    have hplaced := hbuilt.placed ((Grouping.entries_sublist hg).subset he)
    exact (hsteps s).2 ⟨e.error, List.mem_of_getElem? hplaced, c, hec, hs⟩
  -- The node is as its first step made it, which has the key of this one.
  obtain ⟨first, -, hfirst, hfirstKind, hfirstContext, hfirstField⟩ := hgathers.first
  have hfirstIs : first.kind = .field := by
    rw [← Step.kind_nodeKey hfirst, hkey]
    rfl
  rw [Step.nodeKey, hfirstIs, hkey] at hfirst
  obtain ⟨hsame, hname⟩ := NodeKey.field.inj (Except.ok.inj hfirst)
  have hrank := hgathers.rank_le s hcalled hk
  rw [hstatus] at hrank
  refine ⟨(i : Handle), hmem, n, ?_, hfirstKind.symm.trans hfirstIs, hfirstContext.symm.trans hsame,
    ?_, Status.eq_unsatisfied_of_le hrank⟩
  · rw [Graph.node?_natCast, hn]
  · rw [← hfirstField]
    exact hname

/-- The missing field of a group is unmet in it. -/
theorem hasUnmet_of_missing {errors : List LogicalError} {r : Registry} {b : GraphBuild}
    {g : Group} {m : MissingField} {name : FieldName} {e : Entry} {rec : Record}
    (hb : (Construction.ofErrors errors r).result = .ok b) (hg : g ∈ b.groups)
    (he : e ∈ g.entries) (hrec : rec ∈ e.error.records)
    (hm : primaryMissing rec.facts = some m) (hname : FieldName.decode m.tag = .ok name) :
    g.HasUnmet b.graph m.context name.text := by
  obtain ⟨hbuilt, -, hgroups, -⟩ := Construction.built_of_result hb
  have hentry : e ∈ (Construction.ofErrors errors r).entries := by
    rw [hgroups] at hg
    exact (Grouping.entries_sublist hg).subset he
  obtain ⟨cs, hcs⟩ := hbuilt.consistent e hentry
  obtain ⟨i, hi⟩ := List.getElem?_of_mem hrec
  obtain ⟨⟨c, seq⟩, hc, hfacts, -⟩ := forall₂_left (LogicalError.chains_spec hcs) hi
  obtain ⟨name', hname', s, hs, hkind, hcontext, hfield, hstatus⟩ := Chain.unmet_of_missing hfacts hm
  rw [hname] at hname'
  obtain rfl := Except.ok.inj hname'
  have hcontributes : g.Contributes c :=
    ⟨e.error, List.mem_map_of_mem he, cs, seq, hcs, List.mem_of_getElem? hc⟩
  exact hasUnmet_of_step hb hg hcontributes hs hkind hcontext hfield hstatus

end Group

/-- A title that names a missing field of a diagnostic in the report and its context, and a node of
the group for this field. -/
structure Report.Headed (report : Report) (graph : Graph) (g : Group) (m : MissingField)
    (name : FieldName) : Prop where
  title : Names report.title name m.context
  stated : ∃ x ∈ report.sources, .missing m ∈ x.diagnostic.facts
  decoded : FieldName.decode m.tag = .ok name
  unmet : g.HasUnmet graph m.context name.text

namespace Session

open Construction

theorem mem_facts_of_held {ds : List Diagnostic} {cs : List Classification} {runId : String}
    {s : Session} {e : LogicalError} {rec : Record} {f : Fact}
    (hrun : Ingests (start runId) ds cs s) (he : e ∈ s.ledger.errors) (hrec : rec ∈ e.records)
    (hf : f ∈ rec.facts) : f ∈ rec.diagnostic.facts := by
  obtain ⟨-, hrecords, -⟩ := hrun.spec
  have hempty : Ledger.records (start runId).ledger.errors = [] := rfl
  rw [hempty, List.append_nil] at hrecords
  have hmem : rec ∈ Ledger.records s.ledger.errors := List.mem_flatMap.2 ⟨e, he, hrec⟩
  obtain ⟨k, d, -, -, rfl⟩ := mem_heldRecords.1 (hrecords.mem_iff.1 hmem)
  rw [facts_recordOf] at hf
  exact d.facts_ofDiagnostic_subset hf

/-- A report of a run has a group if it tells of a missing field. -/
theorem exists_group_of_report {s : Session} {charset : Charset} {f : Finalized}
    {reports : List Report} {report : Report} (hf : s.finalize charset = .ok f)
    (hr : f.reports = .ok reports) (hmem : report ∈ reports)
    (hfield : report.rootCause.isFieldOutcome = true) :
    ∃ b g, (ofErrors s.ledger.errors s.ledger.registry).result = .ok b ∧ g ∈ b.groups ∧
      Report.ofGroup g b.graph s.ledger.registry charset = .ok report := by
  obtain ⟨b, grouped, hb, hgrouped, rfl⟩ := finalize_spec hf hr
  rcases List.mem_append.1 (List.mem_mergeSort.1 hmem) with hmem | hmem
  · obtain ⟨i, hi⟩ := List.getElem?_of_mem hmem
    obtain ⟨g, hg, hof⟩ := forall₂_right (forall₂_of_mapM hgrouped) hi
    exact ⟨b, g, hb, List.mem_of_getElem? hg, hof⟩
  · obtain ⟨failure, -, hmem⟩ := List.mem_flatMap.1 hmem
    obtain ⟨rec, -, rfl⟩ := List.mem_map.1 hmem
    cases hfield

/-- Every group of a run has a report. -/
theorem exists_report_of_group {s : Session} {charset : Charset} {f : Finalized}
    {reports : List Report} {b : GraphBuild} {g : Group} (hf : s.finalize charset = .ok f)
    (hr : f.reports = .ok reports)
    (hb : (ofErrors s.ledger.errors s.ledger.registry).result = .ok b) (hg : g ∈ b.groups) :
    ∃ report ∈ reports, Report.ofGroup g b.graph s.ledger.registry charset = .ok report := by
  obtain ⟨b', grouped, hb', hgrouped, rfl⟩ := finalize_spec hf hr
  rw [hb] at hb'
  cases hb'
  obtain ⟨i, hi⟩ := List.getElem?_of_mem hg
  obtain ⟨report, hreport, hof⟩ := forall₂_left (forall₂_of_mapM hgrouped) hi
  refine ⟨report, List.mem_mergeSort.2 ?_, hof⟩
  exact List.mem_append_left _ (List.mem_of_getElem? hreport)

/-- Every report of a missing field names the field in its title that its group does not have. -/
theorem headed_of_run {runId : String} {ds : List Diagnostic} {cs : List Classification}
    {s : Session} {charset : Charset} {f : Finalized} {reports : List Report} {report : Report}
    (hrun : Ingests (start runId) ds cs s) (hf : s.finalize charset = .ok f)
    (hr : f.reports = .ok reports) (hmem : report ∈ reports)
    (hfield : report.rootCause.isFieldOutcome = true) :
    ∃ b g m name, (ofErrors s.ledger.errors s.ledger.registry).result = .ok b ∧ g ∈ b.groups ∧
      Report.ofGroup g b.graph s.ledger.registry charset = .ok report ∧
      report.Headed b.graph g m name := by
  obtain ⟨b, g, hb, hg, hof⟩ := exists_group_of_report hf hr hmem hfield
  rw [Report.rootCause_ofGroup hof, RootCause.isFieldOutcome_ofFacts] at hfield
  obtain ⟨m, hm⟩ := hfield
  obtain ⟨name, hname, htitle⟩ := Report.title_ofGroup hof hm
  obtain ⟨e, he, rec, hrec, hmissing⟩ := Group.exists_record hm
  refine ⟨b, g, m, name, hb, hg, hof, htitle, ⟨rec.source, ?_, ?_⟩, hname,
    Group.hasUnmet_of_missing hb hg he hrec hmissing hname⟩
  · rw [(Report.ofGroup_spec hof).2.1]
    exact Group.source_mem he hrec
  · obtain ⟨hbuilt, -, hgroups, -⟩ := built_of_result hb
    rw [hgroups] at hg
    have hplaced := hbuilt.placed ((Grouping.entries_sublist hg).subset he)
    exact mem_facts_of_held hrun (List.mem_of_getElem? hplaced) hrec
      (missing_mem_of_primaryMissing hmissing)

/-- A diagnostic of a context without a field, below a provider. -/
def lacking : Diagnostic :=
  ⟨"error", "", none, [],
    [⟨"help", "the trait `HasField<Symbol<1, Chars<'h', Nil>>>` is not implemented for `App`", none,
        [], [], none, none⟩,
      ⟨"note", "required for `P` to implement `IsProviderFor<M, App>`", none, [], [], none, none⟩],
    none, none⟩

def lackingField : MissingField := ⟨"App", "Symbol<1, Chars<'h', Nil>>", none⟩

theorem outcome_lacking :
    ((start "run").take lacking).outcome.map Classification.held = .ok true := by cbv

theorem missing_lacking :
    (ofErrors ((start "run").take lacking).session.ledger.errors
      ((start "run").take lacking).session.ledger.registry).result.map
        (fun b => b.groups.map fun g => primaryMissing g.facts) = .ok [some lackingField] := by cbv

theorem decode_lackingField : FieldName.decode lackingField.tag = .ok ⟨[some "h"]⟩ := by cbv

/-- The run over this diagnostic has a report of its field. -/
theorem headed_lacking : ∃ cs s f reports report, Ingests (start "run") [lacking] cs s ∧
    s.finalize .unicode = .ok f ∧ f.reports = .ok reports ∧ report ∈ reports ∧
    report.rootCause.isFieldOutcome = true ∧
    report.title = "missing field `h` in the context `App`." ∧ ∃ b g m name,
      (ofErrors s.ledger.errors s.ledger.registry).result = .ok b ∧ g ∈ b.groups ∧
        Report.ofGroup g b.graph s.ledger.registry .unicode = .ok report ∧
        report.Headed b.graph g m name := by
  have hstart : (start "run").isFinalized = false := rfl
  have houtcome := outcome_lacking
  have hgraph := missing_lacking
  have hopen := isFinalized_take (start "run") lacking
  have hfirst := ingest_open lacking hstart
  generalize (start "run").take lacking = taken at houtcome hgraph hopen hfirst
  obtain ⟨c, hc, -⟩ := map_ok.1 houtcome
  obtain ⟨b, hb, hmissing⟩ := map_ok.1 hgraph
  have hrun : Ingests (start "run") [lacking] [c] taken.session := .cons hfirst hc (.nil _)
  have hfinal := finalize_open .unicode (hopen.trans hstart)
  have hfield : ∀ g ∈ b.groups, primaryMissing g.facts = some lackingField := by
    intro g hg
    have hmem := List.mem_map_of_mem (f := fun g => primaryMissing g.facts) hg
    rw [hmissing] at hmem
    exact List.mem_singleton.1 hmem
  have hreport : ∀ g ∈ b.groups, ∃ report,
      Report.ofGroup g b.graph taken.session.ledger.registry .unicode = .ok report := by
    intro g hg
    apply (Group.represents_of_result hb hg).exists_report
    intro m hm
    rw [hfield g hg] at hm
    cases hm
    exact ⟨_, decode_lackingField⟩
  obtain ⟨reports, hreports⟩ := exists_reports hb hreport
  have hsome : b.groups ≠ [] := by
    intro hnil
    rw [hnil] at hmissing
    cases hmissing
  obtain ⟨g, hg⟩ := List.exists_mem_of_ne_nil _ hsome
  obtain ⟨report, hmem, hof⟩ := exists_report_of_group hfinal hreports hb hg
  have hcause : report.rootCause.isFieldOutcome = true := by
    rw [Report.rootCause_ofGroup hof, RootCause.isFieldOutcome_ofFacts]
    exact ⟨_, hfield g hg⟩
  have htitle : report.title = "missing field `h` in the context `App`." := by
    obtain ⟨name, hname, hnames⟩ := Report.title_ofGroup hof (hfield g hg)
    obtain rfl := Except.ok.inj (decode_lackingField.symm.trans hname)
    rw [hnames.text]
    decide +kernel
  exact ⟨_, _, _, reports, report, hrun, hfinal, hreports, hmem, hcause, htitle,
    headed_of_run hrun hfinal hreports hmem hcause⟩

end Session

end TraitTrace
