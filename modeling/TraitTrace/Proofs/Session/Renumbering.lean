import TraitTrace.Proofs.Graph.Renumbering
import TraitTrace.Proofs.Session.Accounting

/-! Sessions under other numbers. Diagnostics that pass through use up numbers and leave nothing
else; without them a session comes to the same reports, with the numbers of the diagnostics that are
left. -/

namespace TraitTrace

def Source.renumber (ρ : Int → Int) (x : Source) : Source := { x with seq := ρ x.seq }

/-- A report with other numbers: those of its sources and its own. -/
def Report.renumber (ρ : Int → Int) (r : Report) : Report :=
  { r with sources := r.sources.map (Source.renumber ρ), firstSeen := ρ r.firstSeen }

variable {ρ : Int → Int}

namespace Group

theorem roots_renumber (g : Group) : (g.renumber ρ).roots = g.roots := by
  rw [roots, renumber, List.flatMap_map]
  rfl

theorem edges_renumber (g : Group) : (g.renumber ρ).edges = g.edges := by
  rw [edges, renumber, List.flatMap_map]
  rfl

theorem errors_renumber (g : Group) :
    (g.renumber ρ).errors = g.errors.map (LogicalError.renumber ρ) := by
  rw [errors, renumber, List.map_map, errors, List.map_map]
  rfl

theorem context_renumber (g : Group) : (g.renumber ρ).context = g.context := by
  rw [context, errors_renumber, List.filterMap_map]
  rfl

theorem facts_renumber (g : Group) : (g.renumber ρ).facts = g.facts := by
  rw [facts, errors_renumber, List.flatMap_map]
  rfl

theorem sources_renumber (hρ : StrictMono ρ) (g : Group) :
    (g.renumber ρ).sources = g.sources.map (Source.renumber ρ) := by
  have hrecords : (g.renumber ρ).errors.flatMap LogicalError.records =
      (g.errors.flatMap LogicalError.records).map (Record.renumber ρ) := by
    rw [errors_renumber, List.flatMap_map, List.map_flatMap]
    rfl
  have hsort := List.map_mergeSort (f := Source.renumber ρ) (r := fun a b => a.seq ≤ b.seq)
    (s := fun a b => a.seq ≤ b.seq)
    (l := (g.errors.flatMap LogicalError.records).map fun r => ⟨r.seq, r.diagnostic⟩)
    fun a _ b _ => decide_eq_decide.2 hρ.le_iff_le.symm
  rw [sources, sources, hrecords, hsort, List.map_map, List.map_map]
  rfl

theorem children_renumber (hρ : StrictMono ρ) (g : Group) (graph : Graph) (h : Handle) :
    (g.renumber ρ).children (graph.renumber ρ) h = g.children graph h := by
  rw [children, graph.children_renumber hρ, edges_renumber, children]

theorem topLevel_renumber (hρ : StrictMono ρ) (g : Group) (graph : Graph) :
    (g.renumber ρ).topLevel (graph.renumber ρ) = g.topLevel graph := by
  unfold topLevel
  simp only [roots_renumber, graph.isCheck_renumber, children_renumber hρ]

theorem unsatisfiedLeaves_renumber (hρ : StrictMono ρ) (g : Group) (graph : Graph) :
    (g.renumber ρ).unsatisfiedLeaves (graph.renumber ρ) = g.unsatisfiedLeaves graph := by
  have hstatus : ∀ h, ((graph.renumber ρ).node? h).any (fun n => n.status = .unsatisfied) =
      (graph.node? h).any fun n => n.status = .unsatisfied := by
    intro h
    rw [graph.node?_renumber]
    cases graph.node? h <;> rfl
  have hchildren := funext (children_renumber hρ g graph)
  unfold unsatisfiedLeaves
  rw [graph.handles_renumber, hchildren, roots_renumber]
  simp only [hstatus]

end Group

theorem Graph.draw_renumber (graph : Graph) (r : Registry) (charset : Charset)
    (children : Handle → List Handle) (roots : List Handle) :
    (graph.renumber ρ).draw r charset children roots = graph.draw r charset children roots := by
  unfold draw
  rw [graph.handles_renumber]
  congr 1
  funext v
  rw [graph.node?_renumber]
  cases graph.node? v.handle <;> rfl

namespace Report

theorem branchName_renumber (graph : Graph) (h : Handle) :
    branchName (graph.renumber ρ) h = branchName graph h := by
  rw [branchName, graph.node?_renumber, branchName]
  cases graph.node? h <;> rfl

theorem checkAdvice_renumber (hρ : StrictMono ρ) (g : Group) (graph : Graph) (leaf : Node) :
    checkAdvice (g.renumber ρ) (graph.renumber ρ) (leaf.renumber ρ) = checkAdvice g graph leaf := by
  have hmarker : ∀ h, ((graph.renumber ρ).node? h).bind Node.componentMarker =
      (graph.node? h).bind Node.componentMarker := by
    intro h
    rw [graph.node?_renumber]
    cases graph.node? h <;> rfl
  unfold checkAdvice
  simp only [g.topLevel_renumber hρ, g.context_renumber, hmarker]
  rfl

theorem providerHelp_renumber (hρ : StrictMono ρ) (g : Group) (graph : Graph) (facts : List Fact)
    (tree : List TreeLine) :
    providerHelp (g.renumber ρ) (graph.renumber ρ) facts tree = providerHelp g graph facts tree := by
  unfold providerHelp
  rw [g.unsatisfiedLeaves_renumber hρ, funext graph.node?_renumber]
  cases (g.unsatisfiedLeaves graph).head? with
  | none => rfl
  | some h =>
    dsimp only [Option.bind_some]
    cases graph.node? h with
    | none => rfl
    | some leaf =>
      dsimp only [Option.map_some]
      rw [checkAdvice_renumber hρ]
      rfl

/-- The report of a group is the same but for the numbers, which it has if it has a source. -/
theorem ofGroup_renumber (hρ : StrictMono ρ) {g : Group} (graph : Graph) (r : Registry)
    (charset : Charset) (hsources : g.sources ≠ []) :
    ofGroup (g.renumber ρ) (graph.renumber ρ) r charset =
      (ofGroup g graph r charset).map (renumber ρ) := by
  have hdiagnostics : (g.renumber ρ).sources.map Source.diagnostic =
      g.sources.map Source.diagnostic := by
    rw [g.sources_renumber hρ, List.map_map]
    rfl
  have hfirst : ((g.renumber ρ).sources.head?.map Source.seq).getD 0 =
      ρ ((g.sources.head?.map Source.seq).getD 0) := by
    obtain ⟨x, more, hx⟩ := List.exists_cons_of_ne_nil hsources
    rw [g.sources_renumber hρ, hx]
    rfl
  have hchildren := funext (g.children_renumber hρ graph)
  unfold ofGroup
  dsimp only
  rw [hchildren, g.roots_renumber, graph.draw_renumber, hdiagnostics, hfirst, g.facts_renumber,
    g.topLevel_renumber hρ, funext (branchName_renumber graph), g.sources_renumber hρ]
  cases graph.draw r charset (g.children graph) g.roots with
  | error fault => rfl
  | ok tree =>
    dsimp only [bind, Except.bind]
    rw [providerHelp_renumber hρ]
    cases primaryMissing g.facts with
    | none => rfl
    | some m =>
      dsimp only
      cases FieldName.decode m.tag <;> rfl

end Report

namespace Session

open Construction

theorem fallbackReports_renumber (e : LogicalError) :
    fallbackReports (e.renumber ρ) = (fallbackReports e).map (Report.renumber ρ) := by
  rw [fallbackReports, LogicalError.renumber, List.map_map, fallbackReports, List.map_map]
  rfl

/-- The end of a session with another one's ledger under other numbers: the reports are those of
the other session under these numbers. -/
theorem reports_renumber (hρ : StrictMono ρ) {s s' : Session} {charset : Charset} {f : Finalized}
    {reports : List Report} (hledger : s.ledger = s'.ledger.renumber ρ)
    (hopen : s'.isFinalized = false) (hrecords : ∀ e ∈ s'.ledger.errors, e.records ≠ [])
    (hf : s.finalize charset = .ok f) (hr : f.reports = .ok reports) :
    ∃ f' reports', s'.finalize charset = .ok f' ∧ f'.reports = .ok reports' ∧
      reports = reports'.map (Report.renumber ρ) := by
  obtain ⟨b, grouped, hb, hgrouped, rfl⟩ := finalize_spec hf hr
  have herrors : s.ledger.errors = s'.ledger.errors.map (LogicalError.renumber ρ) := by
    rw [hledger]
    rfl
  have hregistry : s.ledger.registry = s'.ledger.registry := by
    rw [hledger]
    rfl
  rw [herrors, hregistry, result_renumber hρ] at hb
  obtain ⟨b', hb', rfl⟩ := map_ok.1 hb
  have hgroup : ∀ g ∈ b'.groups, Report.ofGroup (g.renumber ρ) (b'.graph.renumber ρ)
      s'.ledger.registry charset =
        (Report.ofGroup g b'.graph s'.ledger.registry charset).map (Report.renumber ρ) := by
    intro g hg
    exact Report.ofGroup_renumber hρ b'.graph _ charset
      (Group.sources_ne_nil (records_ne_nil_of_group hb' hg hrecords))
  rw [hregistry] at hgrouped
  have hall : ((b'.groups.mapM fun g => Report.ofGroup g b'.graph s'.ledger.registry charset).map
      (List.map (Report.renumber ρ))) = .ok grouped := by
    rw [← mapM_map_of_comm (f := fun g => Report.ofGroup g (b'.graph.renumber ρ) _ charset) hgroup]
    exact hgrouped
  obtain ⟨grouped', hgrouped', rfl⟩ := map_ok.1 hall
  have hreport : ∀ g ∈ b'.groups, ∃ report,
      Report.ofGroup g b'.graph s'.ledger.registry charset = .ok report := by
    intro g hg
    obtain ⟨i, hi⟩ := List.getElem?_of_mem hg
    obtain ⟨report, -, hof⟩ := forall₂_left (forall₂_of_mapM hgrouped') hi
    exact ⟨report, hof⟩
  obtain ⟨reports', hreports'⟩ := exists_reports hb' hreport
  have hfinal := finalize_open charset hopen
  refine ⟨_, reports', hfinal, hreports', ?_⟩
  obtain ⟨b'', grouped'', hb'', hgrouped'', rfl⟩ := finalize_spec hfinal hreports'
  obtain rfl := Except.ok.inj (hb''.symm.trans hb')
  obtain rfl := Except.ok.inj (hgrouped''.symm.trans hgrouped')
  have hfallback : (b''.failures.map (renumberFailure ρ)).flatMap (fun f => fallbackReports f.2.1) =
      (b''.failures.flatMap fun f => fallbackReports f.2.1).map (Report.renumber ρ) := by
    rw [List.flatMap_map, List.map_flatMap]
    exact List.flatMap_congr fun f _ => fallbackReports_renumber f.2.1
  have hsort := List.map_mergeSort (f := Report.renumber ρ) (r := fun a b => a.firstSeen ≤ b.firstSeen)
    (s := fun a b => a.firstSeen ≤ b.firstSeen)
    (l := grouped'' ++ b''.failures.flatMap fun f => fallbackReports f.2.1)
    fun a _ b _ => decide_eq_decide.2 hρ.le_iff_le.symm
  rw [hsort, List.map_append, ← hfallback]
  rfl

/-- The diagnostics that are held. -/
def heldAmong (ds : List Diagnostic) : List Diagnostic :=
  ds.filter fun d => (Classification.ofDiagnostic d).held

/-- The places of those diagnostics. -/
def heldPlaces (ds : List Diagnostic) : List Nat :=
  (ds.zipIdx.filter fun d => (Classification.ofDiagnostic d.1).held).map Prod.snd

theorem heldAmong_cons (d : Diagnostic) (ds : List Diagnostic) :
    heldAmong (d :: ds) =
      (if (Classification.ofDiagnostic d).held then [d] else []) ++ heldAmong ds := by
  unfold heldAmong
  rw [List.filter_cons]
  split <;> rfl

/-- Numbers above `m` as `ρ` has them, and the others at the same distances up to `n`. -/
def extendBelow (ρ : Int → Int) (m n x : Int) : Int := if m < x then ρ x else n + (x - m)

theorem extendBelow_self (ρ : Int → Int) (m n : Int) : extendBelow ρ m n m = n := by
  rw [extendBelow, if_neg (Int.lt_irrefl m)]
  omega

theorem extendBelow_of_lt {m n x : Int} (h : m < x) : extendBelow ρ m n x = ρ x := if_pos h

theorem strictMono_extendBelow (hρ : StrictMono ρ) {m n : Int} (h : n < ρ (m + 1)) :
    StrictMono (extendBelow ρ m n) := by
  intro a b hab
  unfold extendBelow
  by_cases hb : m < b
  · rw [if_pos hb]
    by_cases ha : m < a
    · rw [if_pos ha]
      exact hρ hab
    · have hle := hρ.monotone (show m + 1 ≤ b by omega)
      rw [if_neg ha]
      omega
  · rw [if_neg hb, if_neg (by omega)]
    omega

/-- Held diagnostics keep their order when the others are left out: from any two numbers on, the
numbers they have with the others grow with those they have without them. -/
theorem exists_renumbering (ds : List Diagnostic) (n m : Nat) :
    ∃ ρ : Int → Int, StrictMono ρ ∧ (n : Int) ≤ ρ m ∧
      heldRecords n ds = (heldRecords m (heldAmong ds)).map (Record.renumber ρ) := by
  induction ds generalizing n m with
  | nil => exact ⟨fun x => x + (n - m), fun a b h => by dsimp only; omega, by dsimp only; omega, rfl⟩
  | cons d ds ih =>
    rw [heldRecords_cons, heldAmong_cons]
    by_cases hheld : (Classification.ofDiagnostic d).held
    · obtain ⟨ρ, hρ, hfirst, hrecords⟩ := ih (n + 1) (m + 1)
      have hself := extendBelow_self ρ m n
      rw [if_pos hheld, if_pos hheld, List.singleton_append, List.singleton_append,
        heldRecords_cons, if_pos hheld, List.singleton_append, hrecords]
      refine ⟨extendBelow ρ m n, strictMono_extendBelow hρ (by push_cast at hfirst; omega),
        le_of_eq hself.symm, congrArg₂ List.cons ?_ ?_⟩
      · rw [recordOf, recordOf, Record.renumber, hself]
      · refine List.map_congr_left fun record hmem => ?_
        have hle := le_seq_of_mem_heldRecords hmem
        rw [Record.renumber, Record.renumber, extendBelow_of_lt (by omega)]
    · obtain ⟨ρ, hρ, hfirst, hrecords⟩ := ih (n + 1) m
      rw [if_neg hheld, if_neg hheld]
      exact ⟨ρ, hρ, by omega, hrecords⟩

/-- A held diagnostic taken in under another number. -/
theorem take_renumber {s s' : Session} {d : Diagnostic}
    (hheld : (Classification.ofDiagnostic d).held = true)
    (hledger : s.ledger = s'.ledger.renumber ρ) (hnumber : (s.nextSeq : Int) = ρ s'.nextSeq) :
    (s.take d).outcome = (s'.take d).outcome ∧
      (s.take d).session.ledger = (s'.take d).session.ledger.renumber ρ := by
  obtain ⟨-, hnext, -⟩ := s.take_spec d
  obtain ⟨-, hnext', -⟩ := s'.take_spec d
  obtain ⟨hmerged, howner⟩ := s'.ledger.merge_renumber ρ d
    (Classification.ofDiagnostic d).facts s'.nextSeq
  rw [← hledger, ← hnumber] at hmerged howner
  rw [if_pos hheld] at hnext hnext'
  exact ⟨by rw [s.take_held hheld, howner, ← s'.take_held hheld],
    by rw [hnext, hnext', hmerged]⟩

/-- A session that takes in the held diagnostics alone has the same ledger under other numbers. -/
theorem Ingests.filter_held {s t : Session} {ds : List Diagnostic} {cs : List Classification}
    (h : Ingests s ds cs t) {s' : Session} (hledger : s.ledger = s'.ledger.renumber ρ)
    (hopen : s'.isFinalized = false)
    (hrecords : heldRecords s.nextSeq ds =
      (heldRecords s'.nextSeq (heldAmong ds)).map (Record.renumber ρ)) :
    ∃ cs' t', Ingests s' (heldAmong ds) cs' t' ∧ t.ledger = t'.ledger.renumber ρ := by
  induction h generalizing s' with
  | nil s => exact ⟨[], s', .nil s', hledger⟩
  | @cons s t d ds i c cs hi hc _ ih =>
    rw [ingest_ok hi] at hc ih
    obtain ⟨hseq, hnext, -⟩ := s.take_spec d
    rw [heldRecords_cons, heldAmong_cons] at hrecords
    rw [heldAmong_cons]
    by_cases hheld : (Classification.ofDiagnostic d).held
    · rw [if_pos hheld, if_pos hheld, List.singleton_append, List.singleton_append,
        heldRecords_cons, if_pos hheld, List.singleton_append, List.map_cons] at hrecords
      obtain ⟨hfirst, hrest⟩ := List.cons.inj hrecords
      have hnumber : (s.nextSeq : Int) = ρ s'.nextSeq := congrArg Record.seq hfirst
      obtain ⟨hseq', -⟩ := s'.take_spec d
      obtain ⟨houtcome, hmerged⟩ := take_renumber hheld hledger hnumber
      rw [← hseq, ← hseq'] at hrest
      obtain ⟨cs', t', hrun, ht⟩ := ih hmerged
        ((s'.isFinalized_take d).trans hopen) hrest
      rw [if_pos hheld, List.singleton_append]
      exact ⟨c :: cs', t', .cons (ingest_open d hopen) (houtcome.symm.trans hc) hrun, ht⟩
    · rw [if_neg hheld, if_neg hheld, List.nil_append, List.nil_append, ← hseq] at hrecords
      rw [if_neg hheld] at hnext
      rw [if_neg hheld, List.nil_append]
      exact ih (hnext.trans hledger) hopen hrecords

/-- Held diagnostics alone are numbered one after the other. -/
theorem heldRecords_heldAmong (n : Nat) (ds : List Diagnostic) :
    heldRecords n (heldAmong ds) = ((heldAmong ds).zipIdx n).map recordOf := by
  refine congrArg (List.map recordOf) (List.filter_eq_self.2 ?_)
  rintro ⟨d, k⟩ hmem
  exact (List.mem_filter.1 (List.fst_mem_of_mem_zipIdx hmem)).2

/-- A renumbering takes the number of a held diagnostic among the held ones to its place. -/
theorem renumbering_spec {ds : List Diagnostic}
    (h : heldRecords 0 ds = (heldRecords 0 (heldAmong ds)).map (Record.renumber ρ)) {k n : Nat}
    (hk : (heldPlaces ds)[k]? = some n) : ρ k = n := by
  obtain ⟨⟨d, j⟩, hd, rfl⟩ := Option.map_eq_some_iff.1 (List.getElem?_map.symm.trans hk)
  have hrecord : (heldRecords 0 ds)[k]? = some (recordOf (d, j)) := by
    rw [heldRecords, List.getElem?_map, hd, Option.map_some]
  rw [h, heldRecords_heldAmong, List.map_map, List.getElem?_map, List.getElem?_zipIdx,
    Option.map_map, Option.map_eq_some_iff] at hrecord
  obtain ⟨e, -, he⟩ := hrecord
  have hseq := congrArg Record.seq he
  simpa [recordOf, Record.renumber] using hseq

/-- Diagnostics that pass through do not change the others' reports. Where a session comes to
reports, so does one that takes in the held diagnostics alone, and its reports are the same but for
the numbers, which are taken in their order to the places of the diagnostics among all. -/
theorem reports_of_held {runId : String} {ds : List Diagnostic} {cs : List Classification}
    {s : Session} {charset : Charset} {f : Finalized} {reports : List Report}
    (hrun : Ingests (start runId) ds cs s) (hf : s.finalize charset = .ok f)
    (hr : f.reports = .ok reports) (runId' : String) :
    ∃ ρ : Int → Int, StrictMono ρ ∧ (∀ k n : Nat, (heldPlaces ds)[k]? = some n → ρ k = n) ∧
      ∃ cs' s' f' reports', Ingests (start runId') (heldAmong ds) cs' s' ∧
        s'.finalize charset = .ok f' ∧ f'.reports = .ok reports' ∧
        reports = reports'.map (Report.renumber ρ) := by
  obtain ⟨ρ, hρ, -, hrecords⟩ := exists_renumbering ds 0 0
  have hempty : (start runId).ledger = (start runId').ledger.renumber ρ := rfl
  obtain ⟨cs', s', hrun', hledger⟩ := hrun.filter_held hempty rfl hrecords
  have hnonempty := hrun'.spec.2.2 fun e he => absurd he List.not_mem_nil
  obtain ⟨f', reports', hf', hr', hreports⟩ :=
    reports_renumber hρ hledger hrun'.isFinalized hnonempty hf hr
  exact ⟨ρ, hρ, fun k n => renumbering_spec hrecords, cs', s', f', reports', hrun', hf', hr',
    hreports⟩

/-- A held diagnostic after one that passes through: its number among the held ones is taken from
zero to one. -/
theorem reports_unmet_after_remark : ∃ cs s f reports, Ingests (start "run") [remark, unmet] cs s ∧
    s.finalize .unicode = .ok f ∧ f.reports = .ok reports ∧
    ∃ ρ : Int → Int, StrictMono ρ ∧ ρ 0 = 1 ∧ ∃ cs' s' f' reports',
      Ingests (start "run") [unmet] cs' s' ∧ s'.finalize .unicode = .ok f' ∧
      f'.reports = .ok reports' ∧ reports = reports'.map (Report.renumber ρ) := by
  have hstart : (start "run").isFinalized = false := rfl
  have houtcome := outcome_unmet
  have hgraph := missing_unmet
  have hclass := ((start "run").take_spec unmet).2.2
  obtain ⟨hpassed, hledger⟩ := (start "run").take_passed passed_remark
  have hseq := ((start "run").take_spec remark).1
  have hopen := isFinalized_take (start "run") remark
  have hfirst := ingest_open remark hstart
  generalize (start "run").take remark = first at hpassed hledger hseq hopen hfirst
  have hsecond := ingest_open unmet (hopen.trans hstart)
  have hclosing := isFinalized_take first.session unmet
  have hshift : StrictMono fun x : Int => x + 1 := fun a b h => by dsimp only; omega
  have hempty : first.session.ledger = (start "run").ledger.renumber fun x => x + 1 := hledger
  have hnumber : (first.session.nextSeq : Int) = ((start "run").nextSeq : Int) + 1 := by
    rw [hseq]
    rfl
  have hrenumber := fun hheld => take_renumber (d := unmet) hheld hempty hnumber
  generalize (start "run").take unmet = alone at houtcome hgraph hclass hrenumber
  generalize first.session.take unmet = second at hclosing hsecond hrenumber
  obtain ⟨c, hc, hheld⟩ := map_ok.1 houtcome
  obtain ⟨b, hb, hmissing⟩ := map_ok.1 hgraph
  rw [hclass c hc] at hheld
  obtain ⟨hsame, hmerged⟩ := hrenumber hheld
  have hrun := Ingests.cons hfirst hpassed (.cons hsecond (hsame.trans hc) (.nil _))
  have hfinal := finalize_open .unicode (hclosing.trans (hopen.trans hstart))
  have hb' : (ofErrors second.session.ledger.errors second.session.ledger.registry).result =
      .ok (b.renumber fun x => x + 1) := by
    rw [hmerged]
    exact (result_renumber hshift _ _).trans (congrArg (Except.map _) hb)
  have hnone : ∀ g ∈ (b.renumber fun x => x + 1).groups, primaryMissing g.facts = none := by
    intro g hg
    obtain ⟨g', hg', rfl⟩ := List.mem_map.1 hg
    rw [g'.facts_renumber]
    exact List.mem_singleton.1 (hmissing ▸ List.mem_map_of_mem hg')
  obtain ⟨reports, hreports⟩ := exists_reports_of_no_missing .unicode hb' hnone
  obtain ⟨ρ, hρ, hplaces, hothers⟩ := reports_of_held hrun hfinal hreports "run"
  have hplace : heldPlaces [remark, unmet] = [1] := by
    simp [heldPlaces, List.zipIdx_cons, passed_remark, hheld]
  have hamong : heldAmong [remark, unmet] = [unmet] := by
    rw [heldAmong_cons, heldAmong_cons, passed_remark, hheld]
    rfl
  rw [hamong] at hothers
  exact ⟨_, _, _, reports, hrun, hfinal, hreports, ρ, hρ, hplaces 0 1 (by rw [hplace]; rfl),
    hothers⟩

end Session

end TraitTrace
