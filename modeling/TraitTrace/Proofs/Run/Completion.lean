import TraitTrace.Proofs.Session.Ingestion
import TraitTrace.Run

/-! Runs that come to their end. The messages of the stream go through one session; what each is put
out as does not depend on the others, and the messages of held diagnostics are kept under the
numbers of these. -/

namespace TraitTrace

namespace Message

/-- Whether the diagnostic of a message is held back for the reports. -/
def isHeld (m : Message) : Bool := m.diagnostic.any fun d => (Classification.ofDiagnostic d).held

/-- Whether a message lets an error through. -/
def letsErrorPass (m : Message) : Bool :=
  m.diagnostic.any fun d => !(Classification.ofDiagnostic d).held && d.isError

/-- What a message is put out as when it comes. -/
def echo? (s : RenderSettings) (m : Message) : Option Output :=
  match m.diagnostic with
  | none => if Run.asJson s || m.envelope.isNone then some (.line m.line) else none
  | some d =>
    if (Classification.ofDiagnostic d).held then none
    else some (if Run.asJson s then .line m.line else .diagnostic d.text)

end Message

namespace Run

open Session

/-- The messages whose diagnostics are held, under the numbers of these from `n` on. -/
def kept (n : Nat) : List Message → List (Int × Message)
  | [] => []
  | m :: ms =>
    match m.diagnostic with
    | none => kept n ms
    | some d =>
      if (Classification.ofDiagnostic d).held then ((n : Int), m) :: kept (n + 1) ms
      else kept (n + 1) ms

/-- A run before and after some messages that met no fault. -/
structure Passes (s : RenderSettings) (r : Run) (ms : List Message) (r' : Run) : Prop where
  session : ∃ cs, Ingests r.session (ms.filterMap Message.diagnostic) cs r'.session
  outputs : r'.outputs = r.outputs ++ ms.filterMap (Message.echo? s)
  held : r'.held = r.held ++ kept r.session.nextSeq ms
  sawError : r'.sawError = (r.sawError || ms.any Message.letsErrorPass)

variable {s : RenderSettings} {r r' : Run}

theorem Passes.nil (s : RenderSettings) (r : Run) : Passes s r [] r :=
  ⟨⟨[], .nil _⟩, (List.append_nil _).symm, (List.append_nil _).symm, (Bool.or_false _).symm⟩

theorem kept_cons (n : Nat) (m : Message) (ms : List Message) :
    kept n (m :: ms) = kept n [m] ++ kept (n + m.diagnostic.toList.length) ms := by
  simp only [kept]
  cases m.diagnostic with
  | none => rfl
  | some d =>
    dsimp only
    split <;> rfl

theorem Passes.cons {m : Message} {ms : List Message} {t : Run} (h : Passes s r [m] t)
    (h' : Passes s t ms r') : Passes s r (m :: ms) r' := by
  have hone : ∀ {α : Type} (f : Message → Option α), (m :: ms).filterMap f =
      [m].filterMap f ++ ms.filterMap f := fun f => List.filterMap_append (l := [m])
  obtain ⟨cs, hcs⟩ := h.session
  obtain ⟨cs', hcs'⟩ := h'.session
  have hdiagnostic : [m].filterMap Message.diagnostic = m.diagnostic.toList := by
    cases hd : m.diagnostic <;> simp [hd]
  refine ⟨⟨cs ++ cs', ?_⟩, ?_, ?_, ?_⟩
  · rw [hone]
    exact hcs.append hcs'
  · rw [h'.outputs, h.outputs, hone, List.append_assoc]
  · rw [h'.held, h.held, hcs.nextSeq, hdiagnostic, kept_cons _ m ms, List.append_assoc]
  · rw [h'.sawError, h.sawError, List.any_cons, List.any_cons, List.any_nil, Bool.or_false,
      Bool.or_assoc]

/-- A message without a diagnostic is put out or left out, and leaves the rest as it is. -/
theorem pass_spec (s : RenderSettings) (r : Run) (m : Message) :
    (r.pass s m).session = r.session ∧ (r.pass s m).held = r.held ∧
      (r.pass s m).sawError = r.sawError ∧ (r.pass s m).outputs =
        r.outputs ++ if asJson s || m.envelope.isNone then [.line m.line] else [] := by
  unfold pass
  cases m.parseError <;> dsimp only <;> split <;> refine ⟨rfl, rfl, rfl, ?_⟩ <;> simp [put]

theorem passes_pass {m : Message} (hm : m.diagnostic = none) : Passes s r [m] (r.pass s m) := by
  obtain ⟨hsession, hheld, hsaw, houtputs⟩ := pass_spec s r m
  have hecho : [m].filterMap (Message.echo? s) =
      if asJson s || m.envelope.isNone then [.line m.line] else [] := by
    simp only [List.filterMap_cons, Message.echo?, hm, List.filterMap_nil]
    split <;> simp_all
  refine ⟨⟨[], ?_⟩, ?_, ?_, ?_⟩
  · rw [hsession]
    simpa [hm] using Ingests.nil r.session
  · rw [houtputs, hecho]
  · rw [hheld]
    simp [kept, hm]
  · rw [hsaw]
    simp [Message.letsErrorPass, hm]

/-- A message with a diagnostic that no fault meets is kept or put out. -/
theorem passes_take {m : Message} {d : Diagnostic} (hopen : r.session.isFinalized = false)
    (hm : m.diagnostic = some d) (h : r.take s m d = ⟨r', none⟩) : Passes s r [m] r' := by
  have hclass := (r.session.take_spec d).2.2
  have hingest := ingest_open d hopen
  unfold take at h
  generalize r.session.take d = i at h hclass hingest
  dsimp only at h
  split at h
  · cases h
  · rename_i c hc
    have hsession : Ingests r.session [d] [c] i.session := .cons hingest hc (.nil _)
    have hdiagnostic : [m].filterMap Message.diagnostic = [d] := by
      rw [List.filterMap_cons, hm, List.filterMap_nil]
    have hsame := congrArg Classification.held (hclass c hc)
    split at h
    · rename_i hheld
      rw [hsame] at hheld
      obtain rfl := (Ended.mk.inj h).1
      refine ⟨⟨_, hdiagnostic ▸ hsession⟩, ?_, ?_, ?_⟩
      · simp [Message.echo?, hm, hheld]
      · simp [kept, hm, hheld]
      · simp [Message.letsErrorPass, hm, hheld]
    · rename_i hheld
      rw [hsame] at hheld
      obtain rfl := (Ended.mk.inj h).1
      refine ⟨⟨_, hdiagnostic ▸ hsession⟩, ?_, ?_, ?_⟩
      · simp [Message.echo?, hm, hheld, put]
      · simp [kept, hm, hheld, put]
      · simp [Message.letsErrorPass, hm, hheld, put]

theorem passes_step {line : String} (hopen : r.session.isFinalized = false)
    (h : r.step s line = ⟨r', none⟩) : ∃ m, Message.parse line = .ok m ∧ Passes s r [m] r' := by
  unfold step at h
  split at h
  · cases h
  · rename_i m hm
    refine ⟨m, hm, ?_⟩
    split at h
    · rename_i hnone
      obtain rfl := (Ended.mk.inj h).1
      exact passes_pass hnone
    · rename_i d hd
      exact passes_take hopen hd h

theorem passes_steps {lines : List String} (hopen : r.session.isFinalized = false)
    (h : r.steps s lines = ⟨r', none⟩) :
    ∃ ms, lines.mapM Message.parse = .ok ms ∧ Passes s r ms r' := by
  induction lines generalizing r with
  | nil =>
    obtain rfl := (Ended.mk.inj h).1
    exact ⟨[], rfl, .nil s r⟩
  | cons line lines ih =>
    rw [steps] at h
    split at h
    · rename_i t ht
      obtain ⟨m, hm, hfirst⟩ := passes_step hopen ht
      obtain ⟨cs, hcs⟩ := hfirst.session
      obtain ⟨ms, hms, hrest⟩ := ih (hcs.isFinalized.trans hopen) h
      exact ⟨m :: ms, mapM_cons_ok.2 ⟨m, ms, hm, hms, rfl⟩, hfirst.cons hrest⟩
    · rename_i hfault
      exact absurd h (hfault r')

/-- A diagnostic that meets no fault in the session meets none in the run. -/
theorem exists_take {m : Message} {d : Diagnostic} {c : Classification}
    (h : (r.session.take d).outcome = .ok c) :
    ∃ r', r.take s m d = ⟨r', none⟩ ∧ r'.session = (r.session.take d).session := by
  unfold take
  generalize r.session.take d = i at h
  dsimp only
  rw [h]
  dsimp only
  split
  · exact ⟨_, rfl, rfl⟩
  · exact ⟨_, rfl, rfl⟩

/-- Messages whose diagnostics are taken in without a fault are taken by the run. -/
theorem exists_steps {lines : List String} {ms : List Message} {cs : List Classification}
    {t : Session} (hopen : r.session.isFinalized = false)
    (hms : lines.mapM Message.parse = .ok ms)
    (h : Ingests r.session (ms.filterMap Message.diagnostic) cs t) :
    ∃ r', r.steps s lines = ⟨r', none⟩ := by
  induction lines generalizing r ms cs with
  | nil => exact ⟨r, rfl⟩
  | cons line lines ih =>
    obtain ⟨m, more, hm, hmore, rfl⟩ := mapM_cons_ok.1 hms
    have hstep : ∃ t' cs', r.step s line = ⟨t', none⟩ ∧ t'.session.isFinalized = false ∧
        Ingests t'.session (more.filterMap Message.diagnostic) cs' t := by
      unfold step
      rw [hm]
      dsimp only
      cases hd : m.diagnostic with
      | none =>
        obtain ⟨cs', hsession⟩ := (passes_pass (s := s) (r := r) hd).session
        rw [List.filterMap_cons, hd] at hsession h
        refine ⟨r.pass s m, cs, rfl, hsession.isFinalized.trans hopen, ?_⟩
        rw [← (hsession.unique (.nil r.session)).2] at h
        exact h
      | some d =>
        rw [List.filterMap_cons, hd] at h
        cases h with
        | cons hi hc hrest =>
          rw [ingest_ok hi] at hc hrest
          obtain ⟨r', hr', hsession⟩ := exists_take (s := s) (m := m) hc
          rw [← hsession] at hrest
          refine ⟨r', _, hr', ?_, hrest⟩
          rw [hsession, isFinalized_take]
          exact hopen
    obtain ⟨t', cs', ht', hopen', hrest⟩ := hstep
    rw [steps, ht']
    exact ih hopen' hmore hrest

/-- What a report is put out as hangs on the messages kept. -/
theorem reportOutput_congr (h : r.held = r'.held) (report : Report) :
    r.reportOutput s report = r'.reportOutput s report := by
  unfold reportOutput reportLine envelope?
  rw [h]

theorem exists_putReports {reports : List Report}
    (h : ∀ report ∈ reports, ∃ o, r.reportOutput s report = .ok o) :
    ∃ r', r.putReports s reports = ⟨r', none⟩ := by
  induction reports generalizing r with
  | nil => exact ⟨r, rfl⟩
  | cons report reports ih =>
    obtain ⟨o, ho⟩ := h report List.mem_cons_self
    rw [putReports, ho]
    exact ih fun more hmore => h more (List.mem_cons_of_mem report hmore)

/-- The end of a run puts out the reports one by one. -/
theorem putReports_spec {reports : List Report} (h : r.putReports s reports = ⟨r', none⟩) :
    ∃ os, List.Forall₂ (fun report o => r.reportOutput s report = .ok o) reports os ∧
      r'.outputs = r.outputs ++ os ∧ r'.held = r.held ∧
      r'.sawError = (r.sawError || reports.any Report.isError) := by
  induction reports generalizing r with
  | nil =>
    obtain rfl := (Ended.mk.inj h).1
    exact ⟨[], .nil, (List.append_nil _).symm, rfl, (Bool.or_false _).symm⟩
  | cons report reports ih =>
    rw [putReports] at h
    split at h
    · cases h
    · rename_i o ho
      -- The output of a report hangs on the messages kept, which stay as they are.
      obtain ⟨os, hos, houtputs, hheld, hsaw⟩ := ih h
      refine ⟨o :: os, .cons ho hos, ?_, hheld, ?_⟩
      · rw [houtputs, put, List.append_assoc, List.singleton_append]
      · rw [hsaw, List.any_cons, Bool.or_assoc]

/-- A run that came to its end: the messages of its lines and the reports they led to. -/
structure Completed (s : RenderSettings) (runId : String) (lines : List String)
    (ms : List Message) (reports : List Report) (r : Run) : Prop where
  messages : Message.parseStream lines = .ok ms
  session : ∃ cs t f, Ingests (.start runId) (ms.filterMap Message.diagnostic) cs t ∧
    t.finalize s.charset = .ok f ∧ f.reports = .ok reports
  held : r.held = kept 0 ms
  outputs : ∃ os, List.Forall₂ (fun report o => r.reportOutput s report = .ok o) reports os ∧
    r.outputs = ms.filterMap (Message.echo? s) ++ os
  sawError : r.sawError = (ms.any Message.letsErrorPass || reports.any Report.isError)

theorem completed_of_run {runId : String} {lines : List String}
    (h : ofLines s runId lines = ⟨r, none⟩) : ∃ ms reports, Completed s runId lines ms reports r := by
  unfold ofLines at h
  split at h
  · rename_i t ht
    obtain ⟨ms, hms, hpasses⟩ := passes_steps rfl ht
    obtain ⟨cs, hcs⟩ := hpasses.session
    have hfinal := finalize_open s.charset hcs.isFinalized
    unfold finish at h
    dsimp only at h
    split at h
    · cases h
    · rename_i reports hreports
      obtain ⟨os, hos, houtputs, hheld, hsaw⟩ := putReports_spec h
      refine ⟨ms, reports, hms, ⟨cs, t.session, _, hcs, hfinal, hreports⟩, ?_, ⟨os, ?_, ?_⟩, ?_⟩
      · rw [hheld, hpasses.held]
        rfl
      · exact hos.imp fun report o ho => (reportOutput_congr hheld report).trans ho
      · rw [houtputs, hpasses.outputs]
        rfl
      · rw [hsaw, hpasses.sawError]
        rfl
  · rename_i hfault
    exact absurd h (hfault r)

/-- The messages of a run lead to its reports only. -/
theorem Completed.reports_unique {runId : String} {lines : List String} {ms : List Message}
    {cs : List Classification} {t : Session} {f : Finalized} {reports reports' : List Report}
    (h : Completed s runId lines ms reports' r)
    (hcs : Ingests (.start runId) (ms.filterMap Message.diagnostic) cs t)
    (hf : t.finalize s.charset = .ok f) (hreports : f.reports = .ok reports) :
    reports' = reports := by
  obtain ⟨cs', t', f', hcs', hf', hreports'⟩ := h.session
  obtain ⟨-, rfl⟩ := hcs'.unique hcs
  obtain rfl := Except.ok.inj (hf'.symm.trans hf)
  exact Except.ok.inj (hreports'.symm.trans hreports)

/-- A run comes to its end where its lines are read, its diagnostics are taken in, and its reports
can be put out. -/
theorem exists_completed {runId : String} {lines : List String} {ms : List Message}
    {cs : List Classification} {t : Session} {f : Finalized} {reports : List Report}
    (hms : Message.parseStream lines = .ok ms)
    (hcs : Ingests (.start runId) (ms.filterMap Message.diagnostic) cs t)
    (hf : t.finalize s.charset = .ok f) (hreports : f.reports = .ok reports)
    (hout : ∀ r : Run, r.held = kept 0 ms → ∀ report ∈ reports,
      ∃ o, r.reportOutput s report = .ok o) :
    ∃ r, ofLines s runId lines = ⟨r, none⟩ ∧ Completed s runId lines ms reports r := by
  obtain ⟨last, hsteps⟩ := exists_steps (s := s) (r := .start runId) rfl hms hcs
  obtain ⟨ms', hms', hpasses⟩ := passes_steps rfl hsteps
  obtain rfl : ms' = ms := Except.ok.inj (hms'.symm.trans hms)
  obtain ⟨cs', hcs'⟩ := hpasses.session
  obtain ⟨rfl, rfl⟩ := hcs'.unique hcs
  have hconclude : (last.session.conclude s.charset).reports = .ok reports := by
    rw [finalize_open s.charset hcs'.isFinalized] at hf
    rw [Except.ok.inj hf, hreports]
  have hheld : last.held = kept 0 ms' := hpasses.held
  obtain ⟨r, hr⟩ := exists_putReports (s := s)
    (r := { last with
      session := (last.session.conclude s.charset).session
      events := last.events ++ (last.session.conclude s.charset).events })
    fun report hmem => hout _ hheld report hmem
  have hend : ofLines s runId lines = ⟨r, none⟩ := by
    unfold ofLines
    rw [hsteps]
    unfold finish
    dsimp only
    rw [hconclude]
    exact hr
  obtain ⟨ms'', reports', hcompleted⟩ := completed_of_run hend
  obtain rfl : ms'' = ms' := Except.ok.inj (hcompleted.messages.symm.trans hms)
  obtain rfl := hcompleted.reports_unique hcs hf hreports
  exact ⟨r, hend, hcompleted⟩

end Run

end TraitTrace
