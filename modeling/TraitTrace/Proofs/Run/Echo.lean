import TraitTrace.CommandLine.Outcome
import TraitTrace.Proofs.Message
import TraitTrace.Proofs.Report.Layout
import TraitTrace.Proofs.Run.Completion

/-! What a run prints in the format of messages: the lines of the stream without those of held
diagnostics, then a line for each report. In either format it has seen an error exactly where the
stream has one, because no diagnostic is lost between the stream and the reports. -/

namespace TraitTrace

namespace Message

/-- Whether a line carries a diagnostic that is held back. -/
def carriesHeld (line : String) : Bool := (parse line).toOption.any isHeld

theorem echo?_json {s : RenderSettings} (hs : s.messageFormat = .json) (m : Message) :
    m.echo? s = if m.isHeld then none else some (.line m.line) := by
  have hjson : Run.asJson s = true := decide_eq_true hs
  unfold echo? isHeld
  cases m.diagnostic with
  | none =>
    rw [hjson]
    rfl
  | some d =>
    rw [hjson]
    rfl

end Message

theorem Output.bareFrom_of_not_mem {s : List Char} (h : '\x1b' ∉ s) : bareFrom 0 s = s := by
  induction s with
  | nil => rfl
  | cons c s ih =>
    rw [List.mem_cons, not_or] at h
    rw [bareFrom, if_neg (Ne.symm h.1), ih h.2]

theorem Output.text_line {palette : Palette} {l : String} (h : '\x1b' ∉ l.toList) :
    (line l).text palette = l ++ "\n" := by
  rw [text, bareFrom_of_not_mem h, String.ofList_toList]

/-- Outcomes that come from others by a function come from results of these. -/
theorem forall₂_of_map {ε α β γ : Type} {f : α → Except ε β} {g : β → γ} {xs : List α}
    {zs : List γ} (h : List.Forall₂ (fun x z => (f x).map g = .ok z) xs zs) :
    ∃ ys, List.Forall₂ (fun x y => f x = .ok y) xs ys ∧ zs = ys.map g := by
  induction h with
  | nil => exact ⟨[], .nil, rfl⟩
  | cons hx _ ih =>
    obtain ⟨y, hy, rfl⟩ := map_ok.1 hx
    obtain ⟨ys, hys, rfl⟩ := ih
    exact ⟨y :: ys, .cons hy hys, rfl⟩

namespace Run

open Session

variable {s : RenderSettings} {runId : String} {lines : List String} {ms : List Message}
  {reports : List Report} {r : Run}

/-- The lines of a stream that are passed on: those that are not blank and carry no held diagnostic,
without their line ends. -/
def echoed (lines : List String) : List String :=
  ((lines.filter fun l => !Text.isBlankText l).filter fun l => !Message.carriesHeld l).map
    Message.unended

theorem echoed_of_parse (hs : s.messageFormat = .json)
    (h : Message.parseStream lines = .ok ms) :
    ms.filterMap (Message.echo? s) = (echoed lines).map .line := by
  unfold Message.parseStream at h
  unfold echoed
  generalize lines.filter (fun l => !Text.isBlankText l) = lines at h
  induction lines generalizing ms with
  | nil =>
    cases h
    rfl
  | cons line lines ih =>
    obtain ⟨m, more, hm, hmore, rfl⟩ := mapM_cons_ok.1 h
    have hcarries : Message.carriesHeld line = m.isHeld := by
      rw [Message.carriesHeld, hm]
      rfl
    rw [List.filterMap_cons, Message.echo?_json hs, List.filter_cons, hcarries, ih hmore,
      (Message.parse_spec hm).1]
    cases m.isHeld <;> rfl

theorem mem_of_mem_kept {n : Nat} {p : Int × Message} (h : p ∈ kept n ms) : p.2 ∈ ms := by
  induction ms generalizing n with
  | nil => cases h
  | cons m ms ih =>
    rw [kept] at h
    split at h
    · exact List.mem_cons_of_mem m (ih h)
    · split at h
      · rcases List.mem_cons.1 h with rfl | h
        · exact List.mem_cons_self
        · exact List.mem_cons_of_mem m (ih h)
      · exact List.mem_cons_of_mem m (ih h)

theorem mem_of_envelope? (hheld : r.held = kept 0 ms) {report : Report} {m : Message}
    (h : r.envelope? report = some m) : m ∈ ms := by
  obtain ⟨x, -, hx⟩ := Option.bind_eq_some_iff.1 h
  rw [hheld] at hx
  obtain ⟨before, after, heq, -⟩ := List.lookup_eq_some_iff.1 hx
  have hmem : (x.seq, m) ∈ kept 0 ms := by
    rw [heq]
    exact List.mem_append_right _ List.mem_cons_self
  exact mem_of_mem_kept hmem

theorem exists_line_of_mem (h : Message.parseStream lines = .ok ms) {m : Message} (hm : m ∈ ms) :
    ∃ line ∈ lines, Message.parse line = .ok m := by
  obtain ⟨i, hi⟩ := List.getElem?_of_mem hm
  obtain ⟨line, hline, hparse⟩ := forall₂_right (forall₂_of_mapM h) hi
  exact ⟨line, (List.mem_filter.1 (List.mem_of_getElem? hline)).1, hparse⟩

/-- The line of a report is printed JSON or a line of the stream. -/
theorem reportLine_cases (h : Completed s runId lines ms reports r) {report : Report} {l : String}
    (hl : r.reportLine report = .ok l) :
    Json.Printable l.toList ∨ ∃ line ∈ lines, l = Message.unended line := by
  unfold reportLine at hl
  split at hl
  · rename_i m _ henvelope
    cases hl
    obtain ⟨line, hline, hparse⟩ :=
      exists_line_of_mem h.messages (mem_of_envelope? h.held henvelope)
    exact .inr ⟨line, hline, (Message.parse_spec hparse).1⟩
  · obtain ⟨d, -, rfl⟩ := map_ok.1 hl
    refine .inl ?_
    unfold diagnosticLine
    split <;> exact Json.printable_render _

/-- A run sees an error exactly where the stream has one. -/
theorem Completed.sawError_iff (h : Completed s runId lines ms reports r) :
    r.sawError = true ↔ ∃ m ∈ ms, ∃ d, m.diagnostic = some d ∧ d.isError = true := by
  obtain ⟨cs, t, f, hcs, hf, hreports⟩ := h.session
  have haccounted := accounted_of_run hcs hf hreports
  obtain ⟨rfl, -, -⟩ := hcs.spec
  have hlevel : ∀ report ∈ reports, report.isError = true ↔
      ∃ x ∈ report.sources, x.diagnostic.isError = true := by
    intro report hreport
    rcases report_cases hf hreports hreport with hgrouped | ⟨d, seq, rfl⟩
    · exact hgrouped.isError_iff
    · exact Report.isError_passThrough d seq
  rw [h.sawError, Bool.or_eq_true, List.any_eq_true, List.any_eq_true]
  constructor
  · rintro (⟨m, hm, herror⟩ | ⟨report, hreport, herror⟩)
    · obtain ⟨d, hd, hpass⟩ := (Option.any_eq_true _ _).1 herror
      rw [Bool.and_eq_true] at hpass
      exact ⟨m, hm, d, hd, hpass.2⟩
    · obtain ⟨x, hx, herror⟩ := (hlevel report hreport).1 herror
      obtain ⟨k, -, -, hk, -⟩ := haccounted.genuine report hreport x hx
      obtain ⟨m, hm, hd⟩ := List.mem_filterMap.1 (List.mem_of_getElem? hk)
      exact ⟨m, hm, x.diagnostic, hd, herror⟩
  · rintro ⟨m, hm, d, hd, herror⟩
    by_cases hheld : (Classification.ofDiagnostic d).held
    · obtain ⟨k, hk⟩ := List.getElem?_of_mem (List.mem_filterMap.2 ⟨m, hm, hd⟩)
      have hc : ((ms.filterMap Message.diagnostic).map Classification.ofDiagnostic)[k]? =
          some (Classification.ofDiagnostic d) := by rw [List.getElem?_map, hk, Option.map_some]
      obtain ⟨p, ⟨report, x, hreport, hx, hseq⟩, -⟩ := haccounted.placed k _ hc hheld
      have hmem := List.mem_of_getElem? hreport
      have hsource := List.mem_of_getElem? hx
      obtain ⟨k', -, hk', hd', -⟩ := haccounted.genuine report hmem x hsource
      obtain rfl : k' = k := Int.natCast_inj.1 (hk'.symm.trans hseq)
      obtain rfl := Option.some.inj (hd'.symm.trans hk)
      exact .inr ⟨report, hmem, (hlevel report hmem).2 ⟨x, hsource, herror⟩⟩
    · refine .inl ⟨m, hm, ?_⟩
      rw [Message.letsErrorPass, hd, Option.any_some, herror, Bool.and_true]
      simpa using hheld

/-- What is printed in the format of messages: the lines that are passed on, then one line for each
report. -/
structure Printed (s : RenderSettings) (runId : String) (lines : List String)
    (reports : List Report) (r : Run) (printed : List String) : Prop where
  reports : List.Forall₂ (fun report l => r.reportLine report = .ok l) reports printed
  outputs : r.outputs = (echoed lines ++ printed).map .line
  oneLine : ∀ l ∈ printed, Json.Printable l.toList ∨ ∃ line ∈ lines, l = Message.unended line
  /-- Without terminal codes in the stream, the lines are printed as they are. -/
  stdout : ∀ (request : CommandLine.Request) (settings : Settings)
    (terminal : CommandLine.Terminal) (input : String), settings.render = s →
    Text.streamLines input = lines → (∀ line ∈ lines, '\x1b' ∉ line.toList) →
      (request.runOutcome settings terminal runId input).stdout =
        String.join ((echoed lines ++ printed).map (· ++ "\n"))

theorem not_mem_echoed (h : ∀ line ∈ lines, '\x1b' ∉ line.toList) :
    ∀ l ∈ echoed lines, '\x1b' ∉ l.toList := by
  intro l hl
  obtain ⟨line, hline, rfl⟩ := List.mem_map.1 hl
  have hmem := (List.mem_filter.1 (List.mem_filter.1 hline).1).1
  exact fun hc => h line hmem ((Message.toList_unended_prefix line).subset hc)

theorem Completed.printed (h : Completed s runId lines ms reports r)
    (hrun : ofLines s runId lines = ⟨r, none⟩) (hs : s.messageFormat = .json) :
    ∃ printed, Printed s runId lines reports r printed := by
  have hjson : asJson s = true := decide_eq_true hs
  obtain ⟨os, hos, houtputs⟩ := h.outputs
  obtain ⟨printed, hprinted, rfl⟩ := forall₂_of_map (hos.imp fun report o ho => by
    rw [reportOutput, if_pos hjson] at ho
    exact ho)
  have hlines : ∀ l ∈ printed,
      Json.Printable l.toList ∨ ∃ line ∈ lines, l = Message.unended line := by
    intro l hl
    obtain ⟨i, hi⟩ := List.getElem?_of_mem hl
    obtain ⟨report, -, hreport⟩ := forall₂_right hprinted hi
    exact reportLine_cases h hreport
  rw [echoed_of_parse hs h.messages, ← List.map_append] at houtputs
  refine ⟨printed, hprinted, houtputs, hlines, ?_⟩
  rintro request settings terminal input rfl rfl hcodes
  have hbare : ∀ l ∈ echoed (Text.streamLines input) ++ printed, '\x1b' ∉ l.toList := by
    intro l hl
    rcases List.mem_append.1 hl with hl | hl
    · exact not_mem_echoed hcodes l hl
    · rcases hlines l hl with hprintable | ⟨line, hline, rfl⟩
      · exact fun hc => absurd (hprintable _ hc).1 (by decide)
      · exact fun hc => hcodes line hline ((Message.toList_unended_prefix line).subset hc)
  have hstdout : (request.runOutcome settings terminal runId input).stdout =
      String.join (r.outputs.map (Output.text (terminal.palette settings.render.color))) := by
    unfold CommandLine.Request.runOutcome ofText
    rw [hrun]
  rw [hstdout, houtputs, List.map_map]
  exact congrArg String.join (List.map_congr_left fun l hl => Output.text_line (hbare l hl))

/-- A run that meets no fault prints, in the format of messages, the lines that are passed on and
one for each report of the session; in either format the command fails exactly where a diagnostic of
the stream is an error. -/
theorem printed_of_run (h : ofLines s runId lines = ⟨r, none⟩) :
    ∃ ms reports, Completed s runId lines ms reports r ∧
      (s.messageFormat = .json → ∃ printed, Printed s runId lines reports r printed) ∧
      (r.sawError = true ↔ ∃ m ∈ ms, ∃ d, m.diagnostic = some d ∧ d.isError = true) ∧
      ∀ (request : CommandLine.Request) (settings : Settings) (terminal : CommandLine.Terminal)
        (input : String), settings.render = s → Text.streamLines input = lines →
          ((request.runOutcome settings terminal runId input).exitCode = 1 ↔
            ∃ m ∈ ms, ∃ d, m.diagnostic = some d ∧ d.isError = true) := by
  obtain ⟨ms, reports, hcompleted⟩ := completed_of_run h
  refine ⟨ms, reports, hcompleted, hcompleted.printed h, hcompleted.sawError_iff, ?_⟩
  rintro request settings terminal input rfl rfl
  rw [← hcompleted.sawError_iff]
  unfold CommandLine.Request.runOutcome ofText
  rw [h]
  change (if r.sawError then 1 else 0) = 1 ↔ _
  cases r.sawError <;> decide

def noteMembers : Json.Members :=
  [("level", .str "note"), ("message", .str "required for `P` to implement `IsProviderFor<M>`")]

def unmetMembers : Json.Members :=
  [("level", .str "error"), ("message", .str ""),
    ("spans", .arr [.obj [("file_name", .str "a.rs"), ("is_primary", .bool true),
      ("text", .arr [.obj [("text", .str "\tP")]])]]),
    ("children", .arr [.obj noteMembers])]

def unmetEnvelope : Json.Members :=
  [("reason", .str "compiler-message"), ("message", .obj unmetMembers)]

/-- A line with a diagnostic at a provider, whose source line has a tab in it. -/
def unmetLine : String := (Json.obj unmetEnvelope).render .spaced

def tabbed : Span := ⟨"a.rs", 1, 1, 1, 1, true, 0, 0, none, [⟨"\tP", 1, 1⟩]⟩

def unmetThere : Diagnostic where
  level := "error"
  message := ""
  code := none
  spans := [tabbed]
  children := [⟨"note", "required for `P` to implement `IsProviderFor<M>`", none, [], [], none,
    some noteMembers⟩]
  rendered := none
  origin := some unmetMembers

def unmetMessage : Message :=
  ⟨unmetLine, some Message.compilerMessage, some unmetEnvelope, some unmetThere, none⟩

/-- A remark of the build tool. -/
def finished : Message := .plain "Finished" none

theorem ofMembers_unmet : Diagnostic.ofMembers unmetMembers = .ok unmetThere := by
  simp [unmetMembers, unmetThere, tabbed, noteMembers, Diagnostic.ofMembers,
    Diagnostic.childrenAmong, Diagnostic.childrenOf, Diagnostic.ofItems, Diagnostic.withChildren,
    Diagnostic.codeOf, Json.objects, Json.iterable, Json.Members.text?, Json.Members.textOr,
    Table.get?, Json.str?, Json.arr?, Json.obj?]
  rfl

theorem parse_unmet : Message.parse unmetLine = .ok unmetMessage := by
  have hfits : (Json.obj unmetEnvelope).Fits Json.maxNesting := by
    simp [Json.Fits, Json.FitMembers, Json.FitItems, unmetEnvelope, unmetMembers, noteMembers,
      Table.keys, Json.maxNesting]
  have hreread : Json.rereadMembers unmetEnvelope = unmetEnvelope := by
    simp only [unmetEnvelope, unmetMembers, noteMembers, Json.reread, Json.rereadMembers,
      Json.rereadItems]
  have hreason : unmetEnvelope.text? "reason" = some Message.compilerMessage := rfl
  have hmembers : Message.diagnosticMembers unmetEnvelope = some unmetMembers := by
    rw [Message.diagnosticMembers, hreason]
    rfl
  rw [unmetLine, Message.parse_render hfits, hreread, Message.ofEnvelope, hmembers,
    Option.mapM_some, ofMembers_unmet, hreason]
  rfl

theorem parse_finished : Message.parse "Finished\r\n" = .ok finished := by
  have hline : Message.unended "Finished\r\n" = "Finished" := by decide +kernel
  have hplain : (Text.trimLeft Text.isBlank "Finished".toList).head? ≠ some '{' := by
    decide +kernel
  rw [Message.parse, Message.parseWithin_plain (hline.symm ▸ hplain), hline]
  rfl

theorem parseStream_unmet :
    Message.parseStream [unmetLine, "Finished\r\n"] = .ok [unmetMessage, finished] := by
  have hblank : Text.isBlankText unmetLine = false := by
    rw [Text.isBlankText, unmetLine, Json.render, String.toList_ofList]
    rfl
  have hother : Text.isBlankText "Finished\r\n" = false := by decide +kernel
  rw [Message.parseStream, List.filter_cons, List.filter_cons, hblank, hother]
  exact mapM_cons_ok.2 ⟨_, _, parse_unmet, mapM_cons_ok.2 ⟨_, _, parse_finished, rfl, rfl⟩, rfl⟩

theorem outcome_unmetThere :
    ((Session.start "run").take unmetThere).outcome.map Classification.held = .ok true := by cbv

theorem groups_unmetThere :
    (Construction.ofErrors ((Session.start "run").take unmetThere).session.ledger.errors
      ((Session.start "run").take unmetThere).session.ledger.registry).result.map
        (fun b => (b.groups.map fun g => primaryMissing g.facts, b.failures.length)) =
      .ok ([none], 0) := by cbv

/-- The stream comes to its end in every rendering, with a report that shows where the provider is
missing and passes nothing through. -/
theorem completed_unmet (s : RenderSettings) : ∃ reports r,
    ofLines s "run" [unmetLine, "Finished\r\n"] = ⟨r, none⟩ ∧
      Completed s "run" [unmetLine, "Finished\r\n"] [unmetMessage, finished] reports r ∧
      ∃ report ∈ reports, report.isPassThrough = false ∧ tabbed ∈ report.spans := by
  have hstart : (Session.start "run").isFinalized = false := rfl
  have houtcome := outcome_unmetThere
  have hgraph := groups_unmetThere
  have hopen := isFinalized_take (.start "run") unmetThere
  have hfirst := ingest_open unmetThere hstart
  generalize (Session.start "run").take unmetThere = i at houtcome hgraph hopen hfirst
  obtain ⟨c, hc, hheld⟩ := map_ok.1 houtcome
  obtain ⟨b, hb, hpair⟩ := map_ok.1 hgraph
  obtain ⟨hmissing, hfailures⟩ := Prod.mk.inj hpair
  have hrun : Ingests (.start "run") [unmetThere] [c] i.session := .cons hfirst hc (.nil _)
  have hfinal := finalize_open s.charset (hopen.trans hstart)
  have hnone : ∀ g ∈ b.groups, primaryMissing g.facts = none := fun g hg =>
    List.mem_singleton.1 (hmissing ▸ List.mem_map_of_mem hg)
  obtain ⟨reports, hreports⟩ := exists_reports_of_no_missing s.charset hb hnone
  have haccounted := accounted_of_run hrun hfinal hreports
  have hgrouped : ∀ report ∈ reports, report.Grouped := by
    intro report hmem
    obtain ⟨b', grouped, hb', hgroups, hall⟩ := finalize_spec hfinal hreports
    obtain rfl : b' = b := Except.ok.inj (hb'.symm.trans hb)
    rw [hall, List.mem_mergeSort, List.length_eq_zero_iff.1 hfailures, List.flatMap_nil,
      List.append_nil] at hmem
    obtain ⟨k, hk⟩ := List.getElem?_of_mem hmem
    obtain ⟨g, -, hg⟩ := forall₂_right (forall₂_of_mapM hgroups) hk
    exact Report.grouped_ofGroup hg
  have hspans : ∀ report ∈ reports, ∀ span ∈ report.spans, span = tabbed := by
    intro report hmem span hspan
    rw [(hgrouped report hmem).spans, mem_appendNew] at hspan
    obtain ⟨d, hd, hspan⟩ := List.mem_flatMap.1 (hspan.resolve_left List.not_mem_nil)
    obtain ⟨x, hx, rfl⟩ := List.mem_map.1 hd
    obtain ⟨k, -, -, hk, -⟩ := haccounted.genuine report hmem x hx
    rw [List.mem_singleton.1 (List.mem_of_getElem? hk)] at hspan
    exact List.mem_singleton.1 hspan
  have hfault : ∀ report ∈ reports, report.drawFault? true Report.usualTabWidth = none :=
    fun report hmem => Report.drawFault?_eq_none fun span hspan => by
      rw [hspans report hmem span hspan]
      rfl
  have hout : ∀ r : Run, r.held = kept 0 [unmetMessage, finished] → ∀ report ∈ reports,
      ∃ o, r.reportOutput s report = .ok o := by
    intro r _ report hmem
    unfold reportOutput
    split
    · unfold reportLine
      rw [(hgrouped report hmem).reported, Report.emit_ok.2 ⟨hfault report hmem, rfl⟩]
      exact ⟨_, rfl⟩
    · rw [Report.draw_of_fault_none
        (Report.drawFault?_of_usual s.tabWidth.fitsTab (hfault report hmem) _)]
      exact ⟨_, rfl⟩
  obtain ⟨r, hend, hcompleted⟩ := exists_completed parseStream_unmet hrun hfinal hreports hout
  obtain ⟨p, ⟨report, x, hreport, hx, -⟩, -⟩ := haccounted.placed 0 c rfl hheld
  have hmem := List.mem_of_getElem? hreport
  have hsource := List.mem_of_getElem? hx
  obtain ⟨k, -, -, hk, -⟩ := haccounted.genuine report hmem x hsource
  have hspan : tabbed ∈ x.diagnostic.spans := by
    rw [List.mem_singleton.1 (List.mem_of_getElem? hk)]
    exact List.mem_cons_self
  refine ⟨reports, r, hend, hcompleted, report, hmem, (hgrouped report hmem).reported, ?_⟩
  rw [(hgrouped report hmem).spans, mem_appendNew]
  exact .inr (List.mem_flatMap.2 ⟨x.diagnostic, List.mem_map_of_mem hsource, hspan⟩)

/-- This stream in the format of messages. -/
theorem printed_unmet : ∃ r,
    ofLines { messageFormat := .json } "run" [unmetLine, "Finished\r\n"] = ⟨r, none⟩ ∧
      ∃ ms reports, Completed { messageFormat := .json } "run" [unmetLine, "Finished\r\n"] ms
        reports r ∧ r.sawError = true ∧ ∃ printed,
          Printed { messageFormat := .json } "run" [unmetLine, "Finished\r\n"] reports r printed := by
  obtain ⟨_, r, hend, hcompleted, -⟩ := completed_unmet { messageFormat := .json }
  obtain ⟨ms, reports, hrun, hprinted, hsaw, -⟩ := printed_of_run hend
  obtain rfl : ms = [unmetMessage, finished] :=
    Except.ok.inj (hrun.messages.symm.trans hcompleted.messages)
  have herror : unmetThere.isError = true := by decide +kernel
  exact ⟨r, hend, _, reports, hrun, hsaw.2 ⟨unmetMessage, List.mem_cons_self, unmetThere, rfl,
    herror⟩, hprinted rfl⟩

end Run

end TraitTrace
