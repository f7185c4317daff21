import Mathlib
import TraitTrace.Proofs.Report.OfGroup
import TraitTrace.Proofs.Session.Ingestion

/-! The end of a session accounts for every diagnostic. The records of the ledger go, each to one
place, into the sources of the reports: those of the errors in the graph by way of their group, and
those of the errors left out one by one. -/

namespace TraitTrace

/-- The source that a record becomes. -/
def Record.source (r : Record) : Source := ⟨r.seq, r.diagnostic⟩

theorem Group.sources_ne_nil {g : Group} (h : g.errors.flatMap LogicalError.records ≠ []) :
    g.sources ≠ [] := by
  intro hnil
  have hlen := congrArg List.length hnil
  rw [sources, List.length_mergeSort, List.length_map] at hlen
  exact h (List.eq_nil_of_length_eq_zero hlen)

namespace Report

/-- A report with sources in stream order, which it is numbered by. -/
structure Numbered (report : Report) : Prop where
  ordered : report.sources.Pairwise fun a b => a.seq ≤ b.seq
  first : ∃ x, report.sources.head? = some x ∧ report.firstSeen = x.seq

theorem numbered_passThrough (d : Diagnostic) (seq : Int) : (passThrough d seq).Numbered :=
  ⟨List.pairwise_singleton _ _, ⟨seq, d⟩, rfl, rfl⟩

theorem numbered_ofGroup {g : Group} {graph : Graph} {r : Registry} {charset : Charset}
    {report : Report} (h : ofGroup g graph r charset = .ok report)
    (hrecords : g.errors.flatMap LogicalError.records ≠ []) : report.Numbered := by
  obtain ⟨-, hsources, hfirst⟩ := ofGroup_spec h
  obtain ⟨x, more, hx⟩ := List.exists_cons_of_ne_nil (Group.sources_ne_nil hrecords)
  constructor
  · rw [hsources]
    exact pairwise_sorted Source.seq _
  · refine ⟨x, ?_, ?_⟩
    · rw [hsources, hx]
      rfl
    · rw [hfirst, hx]
      rfl

end Report

namespace Group

theorem perm_sources (g : Group) :
    g.sources.Perm (g.entries.flatMap fun e => e.error.records.map Record.source) := by
  have hrecords : (g.errors.flatMap LogicalError.records).map Record.source =
      g.entries.flatMap fun e => e.error.records.map Record.source := by
    rw [errors, List.flatMap_map, List.map_flatMap]
  rw [← hrecords]
  exact List.mergeSort_perm _ _

end Group

namespace Session

open Construction

/-- The reports at the end of a session: those of the groups and those of the errors left out, in
the order of their numbers. -/
theorem finalize_spec {s : Session} {charset : Charset} {f : Finalized} {reports : List Report}
    (hf : s.finalize charset = .ok f) (hr : f.reports = .ok reports) :
    ∃ b grouped, (ofErrors s.ledger.errors s.ledger.registry).result = .ok b ∧
      (b.groups.mapM fun g => Report.ofGroup g b.graph s.ledger.registry charset) = .ok grouped ∧
      reports = (grouped ++ b.failures.flatMap fun f => fallbackReports f.2.1).mergeSort
        fun a b => a.firstSeen ≤ b.firstSeen := by
  unfold finalize at hf
  split at hf
  · cases hf
  · obtain rfl := Except.ok.inj hf
    unfold conclude build at hr
    dsimp only at hr
    split at hr
    · cases hr
    · rename_i b grouped houtcome
      obtain ⟨b', hb, houtcome⟩ := bind_ok.1 houtcome
      obtain ⟨grouped', hgrouped, hpair⟩ := bind_ok.1 houtcome
      obtain ⟨rfl, rfl⟩ := Prod.mk.inj (Except.ok.inj hpair)
      exact ⟨b', grouped', hb, hgrouped, (Except.ok.inj hr).symm⟩

/-- A session that has a graph and a report for every group has reports at its end. -/
theorem exists_reports {s : Session} {charset : Charset} {b : GraphBuild}
    (hb : (ofErrors s.ledger.errors s.ledger.registry).result = .ok b)
    (hg : ∀ g ∈ b.groups, ∃ report,
      Report.ofGroup g b.graph s.ledger.registry charset = .ok report) :
    ∃ reports, (s.conclude charset).reports = .ok reports := by
  obtain ⟨grouped, hgrouped⟩ := exists_mapM hg
  unfold conclude build
  dsimp only
  split
  · rename_i fault houtcome
    simp only [hb, hgrouped, bind, Except.bind, pure, Except.pure] at houtcome
    cases houtcome
  · exact ⟨_, rfl⟩

/-- No report needs more than the drawing of its group where no field is missing. -/
theorem exists_reports_of_no_missing {s : Session} (charset : Charset) {b : GraphBuild}
    (hb : (ofErrors s.ledger.errors s.ledger.registry).result = .ok b)
    (hmissing : ∀ g ∈ b.groups, primaryMissing g.facts = none) :
    ∃ reports, (s.conclude charset).reports = .ok reports := by
  refine exists_reports hb fun g hg => ?_
  apply (Group.represents_of_result hb hg).exists_report
  intro m hm
  rw [hmissing g hg] at hm
  cases hm

section Finalized

variable {errors : List LogicalError} {r : Registry} {b : GraphBuild} {charset : Charset}
  {grouped : List Report}

/-- The records of all errors become the sources of the reports. -/
theorem perm_sources_of_result (hb : (ofErrors errors r).result = .ok b)
    (hgrouped : (b.groups.mapM fun g => Report.ofGroup g b.graph r charset) = .ok grouped) :
    ((grouped ++ b.failures.flatMap fun f => fallbackReports f.2.1).flatMap Report.sources).Perm
      ((Ledger.records errors).map Record.source) := by
  obtain ⟨hbuilt, hgraph, hgroups, hfailures⟩ := built_of_result hb
  have hmap := map_eq_of_forall₂ (forall₂_of_mapM hgrouped) (f := Group.sources)
    (g := Report.sources) fun g report h => (Report.ofGroup_spec h).2.1
  have hfallback : (b.failures.flatMap fun f => fallbackReports f.2.1).flatMap Report.sources =
      (b.failures.map fun f => (f.2.1, f.1)).flatMap fun p => p.1.records.map Record.source := by
    rw [List.flatMap_assoc, List.flatMap_map]
    apply List.flatMap_congr
    intro f _
    rw [fallbackReports, List.flatMap_map]
    exact List.map_eq_flatMap.symm
  have hgroup : (grouped.flatMap Report.sources).Perm
      (((ofErrors errors r).entries.map fun e => (e.error, e.index)).flatMap
        fun p => p.1.records.map Record.source) := by
    have hentries := Grouping.perm_flatMap_groups b.graph (ofErrors errors r).entries
    replace hentries := hentries.flatMap_right fun e => e.error.records.map Record.source
    rw [← hgroups, List.flatMap_assoc] at hentries
    rw [List.flatMap_def, hmap, ← List.flatMap_def, List.flatMap_map]
    exact (List.Perm.flatMap_left b.groups fun g _ => g.perm_sources).trans hentries
  have hall : (errors.zipIdx.flatMap fun p => p.1.records.map Record.source) =
      (Ledger.records errors).map Record.source := by
    rw [Ledger.records, List.map_flatMap]
    conv_rhs => rw [← List.zipIdx_map_fst 0 errors]
    rw [List.flatMap_map]
  rw [List.flatMap_append, hfallback, ← hall]
  have hconserved := (hbuilt.conserved.trans (perm_queue errors)).flatMap_right
    fun p => p.1.records.map Record.source
  rw [List.flatMap_append, ← hfailures] at hconserved
  exact (hgroup.append_right _).trans hconserved

/-- A group has records, where no error is without one. -/
theorem records_ne_nil_of_group {g : Group} (hb : (ofErrors errors r).result = .ok b)
    (hg : g ∈ b.groups) (hrecords : ∀ e ∈ errors, e.records ≠ []) :
    g.errors.flatMap LogicalError.records ≠ [] := by
  obtain ⟨hbuilt, -, hgroups, -⟩ := built_of_result hb
  rw [hgroups] at hg
  obtain ⟨e, more, he⟩ := List.exists_cons_of_ne_nil (Grouping.entries_ne_nil hg)
  have heg : e ∈ g.entries := by
    rw [he]
    exact List.mem_cons_self
  have hplaced := hbuilt.placed ((Grouping.entries_sublist hg).subset heg)
  obtain ⟨record, hrecord⟩ :=
    List.exists_mem_of_ne_nil _ (hrecords _ (List.mem_of_getElem? hplaced))
  exact List.ne_nil_of_mem (List.mem_flatMap.2 ⟨e.error, List.mem_map_of_mem heg, hrecord⟩)

/-- Every report is numbered, where no error is without a record. -/
theorem numbered_of_result (hb : (ofErrors errors r).result = .ok b)
    (hgrouped : (b.groups.mapM fun g => Report.ofGroup g b.graph r charset) = .ok grouped)
    (hrecords : ∀ e ∈ errors, e.records ≠ []) :
    ∀ report ∈ grouped ++ b.failures.flatMap fun f => fallbackReports f.2.1, report.Numbered := by
  intro report hreport
  rcases List.mem_append.1 hreport with hreport | hreport
  · obtain ⟨i, hi⟩ := List.getElem?_of_mem hreport
    obtain ⟨g, hg, hof⟩ := forall₂_right (forall₂_of_mapM hgrouped) hi
    exact Report.numbered_ofGroup hof
      (records_ne_nil_of_group hb (List.mem_of_getElem? hg) hrecords)
  · obtain ⟨f, -, hf⟩ := List.mem_flatMap.1 hreport
    obtain ⟨record, -, rfl⟩ := List.mem_map.1 hf
    exact Report.numbered_passThrough record.diagnostic record.seq

end Finalized

/-- Every diagnostic that was taken in either passed through or has one place in the sources of one
report; sources and reports stand in the order of the numbers. -/
structure Accounted (ds : List Diagnostic) (cs : List Classification) (reports : List Report) :
    Prop where
  length : cs.length = ds.length
  passed : ∀ (k : Nat) (c : Classification), cs[k]? = some c → c.held = false →
    ∀ report ∈ reports, ∀ x ∈ report.sources, x.seq ≠ k
  placed : ∀ (k : Nat) (c : Classification), cs[k]? = some c → c.held = true →
    ∃! p : Nat × Nat, ∃ report x, reports[p.1]? = some report ∧ report.sources[p.2]? = some x ∧
      x.seq = k
  genuine : ∀ report ∈ reports, ∀ x ∈ report.sources, ∃ (k : Nat) (c : Classification),
    x.seq = k ∧ ds[k]? = some x.diagnostic ∧ cs[k]? = some c ∧ c.held = true
  ordered : ∀ report ∈ reports, report.sources.Pairwise fun x y => x.seq < y.seq
  first : ∀ report ∈ reports, ∃ x, report.sources.head? = some x ∧ report.firstSeen = x.seq
  sorted : reports.Pairwise fun a b => a.firstSeen < b.firstSeen

theorem pairwise_lt_of_nodup {α : Type} {f : α → Int} {as : List α} (hn : (as.map f).Nodup)
    (hs : as.Pairwise fun a b => f a ≤ f b) : as.Pairwise fun a b => f a < f b := by
  have hne : as.Pairwise fun a b => f a ≠ f b := List.pairwise_map.1 hn
  exact (hs.and hne).imp fun h => Int.lt_iff_le_and_ne.2 h

theorem firstSeen_sublist {reports : List Report} (h : ∀ report ∈ reports, report.Numbered) :
    (reports.map Report.firstSeen).Sublist
      ((reports.flatMap Report.sources).map Source.seq) := by
  induction reports with
  | nil => exact .slnil
  | cons report reports ih =>
    have hrest := ih fun o ho => h o (List.mem_cons_of_mem _ ho)
    obtain ⟨x, hx, hfirst⟩ := (h report List.mem_cons_self).first
    obtain ⟨more, hmore⟩ := List.head?_eq_some_iff.1 hx
    rw [List.flatMap_cons, List.map_append, hmore, List.map_cons, List.map_cons, hfirst]
    exact (hrest.trans (List.sublist_append_right _ _)).cons_cons x.seq

/-- Ingested diagnostics are accounted for exactly once. -/
theorem accounted_of_run {runId : String} {ds : List Diagnostic} {cs : List Classification}
    {s : Session} {charset : Charset} {f : Finalized} {reports : List Report}
    (hrun : Ingests (start runId) ds cs s) (hf : s.finalize charset = .ok f)
    (hr : f.reports = .ok reports) : Accounted ds cs reports := by
  obtain ⟨rfl, hrecords, hnonempty⟩ := hrun.spec
  obtain ⟨b, grouped, hb, hgrouped, hreports⟩ := finalize_spec hf hr
  have hperm := List.mergeSort_perm
    (grouped ++ b.failures.flatMap fun f => fallbackReports f.2.1)
    fun a b => a.firstSeen ≤ b.firstSeen
  rw [← hreports] at hperm
  have hsources : (reports.flatMap Report.sources).Perm
      ((heldRecords 0 ds).map Record.source) := by
    have hledger := hrecords.map Record.source
    have hempty : Ledger.records (start runId).ledger.errors = [] := rfl
    rw [hempty, List.append_nil] at hledger
    exact ((hperm.flatMap_right Report.sources).trans (perm_sources_of_result hb hgrouped)).trans
      hledger
  have hnodup : ((reports.flatMap Report.sources).map Source.seq).Nodup := by
    rw [(hsources.map Source.seq).nodup_iff, List.map_map]
    exact nodup_seq_heldRecords ds
  have hnumbered : ∀ report ∈ reports, report.Numbered := by
    have hall := numbered_of_result hb hgrouped (hnonempty fun e he => absurd he List.not_mem_nil)
    exact fun report hmem => hall report (hperm.mem_iff.1 hmem)
  have hgenuine : ∀ report ∈ reports, ∀ x ∈ report.sources, ∃ (k : Nat),
      x.seq = k ∧ ds[k]? = some x.diagnostic ∧
        (Classification.ofDiagnostic x.diagnostic).held = true := by
    intro report hmem x hx
    have hin := hsources.mem_iff.1 (List.mem_flatMap.2 ⟨report, hmem, hx⟩)
    obtain ⟨record, hrecord, rfl⟩ := List.mem_map.1 hin
    obtain ⟨k, d, hk, hheld, rfl⟩ := mem_heldRecords.1 hrecord
    exact ⟨k, rfl, hk, hheld⟩
  constructor
  case length => exact List.length_map _
  case passed =>
    intro k c hc hpassed report hmem x hx hseq
    obtain ⟨k', hk', hd, hheld⟩ := hgenuine report hmem x hx
    obtain rfl : k' = k := Int.natCast_inj.1 (hk'.symm.trans hseq)
    rw [List.getElem?_map, hd, Option.map_some] at hc
    rw [← Option.some.inj hc, hheld] at hpassed
    cases hpassed
  case placed =>
    intro k c hc hheld
    rw [List.getElem?_map, Option.map_eq_some_iff] at hc
    obtain ⟨d, hd, rfl⟩ := hc
    have hmem : (recordOf (d, k)).source ∈ reports.flatMap Report.sources :=
      hsources.mem_iff.2 (List.mem_map_of_mem (mem_heldRecords.2 ⟨k, d, hd, hheld, rfl⟩))
    exact existsUnique_place hnodup hmem
  case genuine =>
    intro report hmem x hx
    obtain ⟨k, hk, hd, hheld⟩ := hgenuine report hmem x hx
    exact ⟨k, _, hk, hd, by rw [List.getElem?_map, hd, Option.map_some], hheld⟩
  case ordered =>
    intro report hmem
    refine pairwise_lt_of_nodup (hnodup.sublist ?_) (hnumbered report hmem).ordered
    obtain ⟨i, hi⟩ := List.getElem?_of_mem hmem
    exact (List.sublist_flatten_of_mem (List.mem_map_of_mem hmem)).map Source.seq
  case first => exact fun report hmem => (hnumbered report hmem).first
  case sorted =>
    refine pairwise_lt_of_nodup (hnodup.sublist (firstSeen_sublist hnumbered)) ?_
    rw [hreports]
    exact pairwise_sorted Report.firstSeen _

/-- A diagnostic at a provider. -/
def unmet : Diagnostic :=
  ⟨"error", "", none, [],
    [⟨"note", "required for `P` to implement `IsProviderFor<M>`", none, [], [], none, none⟩], none,
    none⟩

def remark : Diagnostic := ⟨"warning", "unused", none, [], [], none, none⟩

theorem outcome_unmet :
    ((start "run").take unmet).outcome.map Classification.held = .ok true := by cbv

theorem missing_unmet :
    (ofErrors ((start "run").take unmet).session.ledger.errors
      ((start "run").take unmet).session.ledger.registry).result.map
        (fun b => b.groups.map fun g => primaryMissing g.facts) = .ok [none] := by cbv

theorem passed_remark : (Classification.ofDiagnostic remark).held = false := by
  have hfacts : remark.facts = [] := by cbv
  unfold Classification.ofDiagnostic
  rw [hfacts]
  rfl

/-- Of these two, the first is held and the second passes through. -/
theorem accounted_unmet_remark : ∃ cs s f reports, Ingests (start "run") [unmet, remark] cs s ∧
    s.finalize .unicode = .ok f ∧ f.reports = .ok reports ∧
    cs.map Classification.held = [true, false] ∧ Accounted [unmet, remark] cs reports := by
  have hstart : (start "run").isFinalized = false := rfl
  have houtcome := outcome_unmet
  have hgraph := missing_unmet
  have hopen := isFinalized_take (start "run") unmet
  have hfirst := ingest_open unmet hstart
  generalize (start "run").take unmet = first at houtcome hgraph hopen hfirst
  obtain ⟨c, hc, hheld⟩ := map_ok.1 houtcome
  obtain ⟨b, hb, hmissing⟩ := map_ok.1 hgraph
  obtain ⟨hout, hledger⟩ := first.session.take_passed passed_remark
  have hclosing := isFinalized_take first.session remark
  have hsecond := ingest_open remark (hopen.trans hstart)
  generalize first.session.take remark = second at hout hledger hclosing hsecond
  have hrun : Ingests (start "run") [unmet, remark] [c, Classification.ofDiagnostic remark]
      second.session := .cons hfirst hc (.cons hsecond hout (.nil _))
  have hfinal := finalize_open .unicode (hclosing.trans (hopen.trans hstart))
  rw [← hledger] at hb
  have hreport : ∀ g ∈ b.groups, ∃ report,
      Report.ofGroup g b.graph second.session.ledger.registry .unicode = .ok report := by
    intro g hg
    apply (Group.represents_of_result hb hg).exists_report
    intro m hm
    have hnone : primaryMissing g.facts ∈ [none] := by
      rw [← hmissing]
      exact List.mem_map_of_mem hg
    rw [List.mem_singleton.1 hnone] at hm
    cases hm
  obtain ⟨reports, hreports⟩ := exists_reports hb hreport
  have haccounted := accounted_of_run hrun hfinal hreports
  have hwords :
      [c, Classification.ofDiagnostic remark].map Classification.held = [true, false] := by
    rw [List.map_cons, List.map_cons, hheld, passed_remark, List.map_nil]
  exact ⟨_, _, _, reports, hrun, hfinal, hreports, hwords, haccounted⟩

end Session

end TraitTrace
