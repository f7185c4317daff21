import TraitTrace.Proofs.Chain.Tags
import TraitTrace.Proofs.FieldName.Faults
import TraitTrace.Proofs.Json.Textual
import TraitTrace.Proofs.Run.Echo

/-! Reports that are read back from the stream. The line of a report is the object that its first
source came in, with the report's diagnostic as its message. It is read back as this diagnostic
where messages are looked for there; a bare diagnostic is read from the object itself, whose own
message is no longer a text. A text of the stream that has half of a surrogate pair in it cannot be
printed, or joins with what it is printed next to; the runs are those of streams without. -/

namespace TraitTrace

open Json

namespace Json

theorem str?_reread (v : Json) : v.reread.str? = v.str? := by
  cases v <;> rfl

theorem text?_rereadMembers (ms : Members) (name : String) :
    Members.text? (rereadMembers ms) name = ms.text? name := by
  unfold Members.text?
  rw [get?_rereadMembers]
  cases Table.get? ms name with
  | none => rfl
  | some v => exact str?_reread v

theorem text?_set_of_ne {ms : Members} {name other : String} (v : Json) (h : name ≠ other) :
    Members.text? (Table.set ms name v) other = ms.text? other := by
  unfold Members.text?
  rw [Table.get?_set_of_ne ms v h]

end Json

theorem Diagnostic.message_of_ofMembers {data : Members} {d : Diagnostic}
    (h : ofMembers data = .ok d) : d.message = data.textOr "message" "" := by
  obtain ⟨_, _, _, -, -, -, rfl⟩ := ofMembers_spec h
  rfl

namespace Message

/-- A message with a diagnostic is a compiler message or, without a reason, a bare diagnostic. -/
theorem Reads.reason_cases {envelope : Members} {m : Message} {d : Diagnostic}
    (h : m.Reads envelope) (hd : m.diagnostic = some d) :
    m.reason = some compilerMessage ∨ m.reason = none := by
  obtain ⟨data, hdata, -⟩ := h.ofMembers hd
  unfold diagnosticMembers at hdata
  rw [← h.reason] at hdata
  split at hdata
  · rename_i reason hreason
    split at hdata
    · rename_i heq
      exact .inl (heq ▸ hreason)
    · cases hdata
  · rename_i hreason
    exact .inr hreason

/-- The members of a message with a diagnostic stay when it takes another diagnostic. -/
theorem Reads.withDiagnostic {envelope : Members} {m : Message} {d : Diagnostic}
    (h : m.Reads envelope) (hd : m.diagnostic = some d) (e : Diagnostic) :
    m.withDiagnostic e = Table.set envelope "message" e.toJson := by
  obtain ⟨data, hdata, -⟩ := h.ofMembers hd
  cases envelope with
  | nil => cases hdata
  | cons first more =>
    unfold Message.withDiagnostic
    rw [h.kept]

/-- A line whose diagnostic, if it carries one, has no lone surrogate in its texts and in the field
names of its tags. -/
def Textual (l : String) : Prop :=
  ∀ m d, parse l = .ok m → m.diagnostic = some d → Json.Textual l.toList ∧
    ∀ f ∈ (Classification.ofDiagnostic d).facts, ∀ tag, f.tag? = some tag → FieldName.Textual tag

/-- A diagnostic in the place of a message: how the line is read. -/
structure Carries (d : Diagnostic) (reason : Option String) (l : String) : Prop where
  member : ∃ envelope data d', Json.parse l = .ok (.obj envelope) ∧
    Table.get? envelope "message" = some (.obj data) ∧
    Diagnostic.ofMembers data = .ok d' ∧ d'.bare = d
  compiler : reason = some compilerMessage →
    ∃ m d', parse l = .ok m ∧ m.diagnostic = some d' ∧ d'.bare = d
  bare : reason = none → ∀ m d', parse l = .ok m → m.diagnostic = some d' → d'.message = ""

theorem carries_render {envelope : Members} {d : Diagnostic} {depth : Nat}
    (hfits : (Json.obj envelope).Fits maxNesting) (hd : d.Built depth)
    (hdepth : 2 * depth + 5 < maxNesting) :
    Carries d (envelope.text? "reason")
      ((Json.obj (Table.set envelope "message" d.toJson)).render .spaced) := by
  have hall : (Json.obj (Table.set envelope "message" d.toJson)).Fits maxNesting :=
    ⟨hfits.1, Table.nodup_keys_set hfits.2.1,
      hfits.2.2.set (Diagnostic.fits_toMembers d depth _ hd (by omega))⟩
  have hmessage : Table.get? (rereadMembers (Table.set envelope "message" d.toJson)) "message" =
      some (.obj d.toMembers) := by
    rw [get?_rereadMembers, Table.get?_set_self, Option.map_some, Diagnostic.toJson, reread,
      Diagnostic.reread_toMembers d depth hd]
  have hreason : Members.text? (rereadMembers (Table.set envelope "message" d.toJson)) "reason" =
      envelope.text? "reason" := by
    rw [text?_rereadMembers, text?_set_of_ne _ (show "message" ≠ "reason" by decide)]
  obtain ⟨d', hd', hbare⟩ := Diagnostic.ofMembers_toMembers d depth hd
  have hparse := parse_render hall
  have hjson := Json.parse_render hall
  rw [reread] at hjson
  generalize rereadMembers (Table.set envelope "message" d.toJson) = printed at *
  generalize (Json.obj (Table.set envelope "message" d.toJson)).render .spaced = l at hparse hjson ⊢
  refine ⟨⟨printed, d.toMembers, d', hjson, hmessage, hd', hbare⟩, fun hcompiler => ?_,
    fun hnone m e hm he => ?_⟩
  · have hmembers : diagnosticMembers printed = some d.toMembers := by
      rw [diagnosticMembers, hreason, hcompiler]
      dsimp only
      rw [if_pos rfl, hmessage]
      rfl
    refine ⟨⟨l, Members.text? printed "reason", some printed, some d', none⟩, d', ?_, rfl, hbare⟩
    rw [hparse, ofEnvelope, hmembers, Option.mapM_some, hd']
    rfl
  · obtain ⟨-, hreads⟩ := ofEnvelope_spec (hparse.symm.trans hm)
    obtain ⟨data, hdata, hof⟩ := hreads.ofMembers he
    rw [diagnosticMembers, hreason, hnone] at hdata
    dsimp only at hdata
    split at hdata
    · obtain rfl := Option.some.inj hdata
      rw [Diagnostic.message_of_ofMembers hof, Members.textOr, hmessage]
      rfl
    · cases hdata

end Message

namespace Run

open Session

variable {s : RenderSettings} {runId : String} {lines : List String} {ms : List Message}
  {reports : List Report} {r : Run}

/-- The message of a held diagnostic is kept under the number of the diagnostic. -/
theorem lookup_kept {n k : Nat} {d : Diagnostic}
    (hk : (ms.filterMap Message.diagnostic)[k]? = some d)
    (hheld : (Classification.ofDiagnostic d).held = true) :
    ∃ m ∈ ms, m.diagnostic = some d ∧ (kept n ms).lookup ((n + k : Nat) : Int) = some m := by
  induction ms generalizing n k with
  | nil => cases hk
  | cons m ms ih =>
    rw [List.filterMap_cons] at hk
    rw [kept]
    cases hm : m.diagnostic with
    | none =>
      rw [hm] at hk
      obtain ⟨o, ho, hd, hlookup⟩ := ih (n := n) hk
      exact ⟨o, List.mem_cons_of_mem m ho, hd, hlookup⟩
    | some e =>
      rw [hm] at hk
      dsimp only
      cases k with
      | zero =>
        obtain rfl := Option.some.inj hk
        rw [if_pos hheld]
        exact ⟨m, List.mem_cons_self, hm, List.lookup_cons_self⟩
      | succ k =>
        obtain ⟨o, ho, hd, hlookup⟩ := ih (n := n + 1) hk
        rw [Nat.add_right_comm, Nat.add_assoc] at hlookup
        refine ⟨o, List.mem_cons_of_mem m ho, hd, ?_⟩
        split
        · have hne : ((((n + (k + 1) : Nat) : Int)) == (n : Int)) = false := by
            rw [beq_eq_false_iff_ne]
            omega
          rw [List.lookup_cons, hne]
          exact hlookup
        · exact hlookup

/-- A run that comes to its end, over lines whose diagnostics have no lone surrogate. -/
structure Ends (s : RenderSettings) (runId : String) (lines : List String) (r : Run) : Prop where
  textual : ∀ l ∈ lines, Message.Textual l
  ended : ofLines s runId lines = ⟨r, none⟩

/-- The line of a report, in the envelope of its first source. -/
structure Reemitted (ms : List Message) (r : Run) (report : Report) (m : Message) (l : String) :
    Prop where
  source : m ∈ ms ∧ ∃ x, report.sources.head? = some x ∧ m.diagnostic = some x.diagnostic
  line : r.reportLine report = .ok l ∧ Output.line l ∈ r.outputs ∧
    ∀ palette, (Output.line l).text palette = l ++ "\n"
  textual : Json.Textual l.toList
  reason : m.reason = some Message.compilerMessage ∨ m.reason = none
  carries : Message.Carries report.toDiagnostic m.reason l

theorem Completed.sound (h : Completed s runId lines ms reports r) {m : Message} {d : Diagnostic}
    (hm : m ∈ ms) (hd : m.diagnostic = some d) : d.level ≠ "" ∧ ∀ s ∈ d.spans, s.Sound := by
  obtain ⟨line, -, hparse⟩ := exists_line_of_mem h.messages hm
  exact Message.sound_of_parse hparse hd

/-- The first source of a report has its message among those kept. -/
theorem Completed.exists_source (h : Completed s runId lines ms reports r) {report : Report}
    (hreport : report ∈ reports) : ∃ x m, report.sources.head? = some x ∧ m ∈ ms ∧
      m.diagnostic = some x.diagnostic ∧ r.envelope? report = some m := by
  obtain ⟨cs, t, f, hcs, hf, hreports⟩ := h.session
  have haccounted := accounted_of_run hcs hf hreports
  obtain ⟨rfl, -, -⟩ := hcs.spec
  obtain ⟨x, hx, -⟩ := haccounted.first report hreport
  obtain ⟨k, c, hseq, hk, hc, hheld⟩ :=
    haccounted.genuine report hreport x (List.mem_of_mem_head? hx)
  rw [List.getElem?_map, hk, Option.map_some] at hc
  obtain rfl := Option.some.inj hc
  obtain ⟨m, hm, hd, hlookup⟩ := lookup_kept (n := 0) hk hheld
  refine ⟨x, m, hx, hm, hd, ?_⟩
  rw [envelope?, hx, Option.bind_some, h.held, hseq]
  simpa using hlookup

theorem Completed.reemitted (hcompleted : Completed s runId lines ms reports r)
    (h : ofLines s runId lines = ⟨r, none⟩) (hs : s.messageFormat = .json) {report : Report}
    (hreport : report ∈ reports) (hbuilt : report.isPassThrough = false) :
    ∃ m l, Reemitted ms r report m l := by
  obtain ⟨cs, t, f, hcs, hf, hreports⟩ := hcompleted.session
  have haccounted := accounted_of_run hcs hf hreports
  have hgrouped : report.Grouped := by
    rcases report_cases hf hreports hreport with hgrouped | ⟨d, seq, rfl⟩
    · exact hgrouped
    · cases hbuilt
  obtain ⟨x, m, hx, hm, hd, henvelope⟩ := hcompleted.exists_source hreport
  have hsound : ∀ y ∈ report.sources,
      y.diagnostic.level ≠ "" ∧ ∀ s ∈ y.diagnostic.spans, s.Sound := by
    intro y hy
    obtain ⟨k, -, -, hk, -⟩ := haccounted.genuine report hreport y hy
    obtain ⟨o, ho, hdiagnostic⟩ := List.mem_filterMap.1 (List.mem_of_getElem? hk)
    exact hcompleted.sound ho hdiagnostic
  have hne : report.sources ≠ [] := List.ne_nil_of_mem (List.mem_of_mem_head? hx)
  have hdiagnostic := hgrouped.built_toDiagnostic hne hsound
  obtain ⟨line, -, hparse⟩ := exists_line_of_mem hcompleted.messages hm
  obtain ⟨envelope, hjson, hreads⟩ := (Message.parse_spec hparse).2 (by rw [hd]; nofun)
  obtain ⟨printed, hprinted⟩ := hcompleted.printed h hs
  obtain ⟨i, hi⟩ := List.getElem?_of_mem hreport
  obtain ⟨l, hl, hline⟩ := forall₂_left hprinted.reports hi
  have hrender : l = (Json.obj (Table.set envelope "message" report.toDiagnostic.toJson)).render
      .spaced := by
    have hemit := hline
    rw [reportLine, hbuilt, henvelope] at hemit
    obtain ⟨e, he, rfl⟩ := map_ok.1 hemit
    rw [diagnosticLine, hreads.withDiagnostic hd, (Report.emit_ok.1 he).2]
  have hcodes : '\x1b' ∉ l.toList := by
    rw [hrender]
    exact fun hc => absurd (printable_render _ _ hc).1 (by decide)
  refine ⟨m, l, ⟨hm, x, hx, hd⟩, ⟨hline, ?_, fun palette => Output.text_line hcodes⟩,
    hrender ▸ textual_render _, hreads.reason_cases hd, ?_⟩
  · rw [hprinted.outputs]
    exact List.mem_map_of_mem (List.mem_append_right _ (List.mem_of_getElem? hl))
  · rw [hrender, hreads.reason]
    exact Message.carries_render (fits_of_parse hjson) hdiagnostic (by decide)

/-- In the format of messages, a report that passes nothing through is read back from its line where
its first source came as a compiler message. A bare diagnostic keeps the report's diagnostic as its
message, and is read back without a text. -/
theorem reemitted_of_run (h : Ends s runId lines r) (hs : s.messageFormat = .json) :
    ∃ ms reports, Completed s runId lines ms reports r ∧
      ∀ report ∈ reports, report.isPassThrough = false → ∃ m l, Reemitted ms r report m l := by
  obtain ⟨ms, reports, hcompleted⟩ := completed_of_run h.ended
  exact ⟨ms, reports, hcompleted, fun _ => hcompleted.reemitted h.ended hs⟩

theorem tags_unmetThere :
    (Classification.ofDiagnostic unmetThere).facts.map Fact.tag? = [none] := by cbv

theorem textual_unmet : ∀ l ∈ [unmetLine, "Finished\r\n"], Message.Textual l := by
  refine List.forall_mem_cons.2 ⟨fun m d hm hd => ?_, List.forall_mem_singleton.2 ?_⟩
  · obtain rfl := Except.ok.inj (parse_unmet.symm.trans hm)
    obtain rfl := Option.some.inj hd
    refine ⟨textual_render _, fun f hf tag htag => ?_⟩
    have hnone := List.mem_map_of_mem (f := Fact.tag?) hf
    rw [tags_unmetThere, List.mem_singleton, htag] at hnone
    cases hnone
  · intro m d hm hd
    obtain rfl := Except.ok.inj (parse_finished.symm.trans hm)
    cases hd

/-- The report of one held compiler message is read back. -/
theorem reemitted_unmet : ∃ r,
    Ends { messageFormat := .json } "run" [unmetLine, "Finished\r\n"] r ∧
      ∃ report m l, report.isPassThrough = false ∧
        Reemitted [unmetMessage, finished] r report m l ∧
        ∃ m' d, Message.parse l = .ok m' ∧ m'.diagnostic = some d ∧
          d.bare = report.toDiagnostic := by
  obtain ⟨reports, r, hend, hcompleted, report, hreport, hbuilt, -⟩ :=
    completed_unmet { messageFormat := .json }
  have hends : Ends { messageFormat := .json } "run" [unmetLine, "Finished\r\n"] r :=
    ⟨textual_unmet, hend⟩
  obtain ⟨ms, reports', hrun, hall⟩ := reemitted_of_run hends rfl
  obtain rfl : ms = [unmetMessage, finished] :=
    Except.ok.inj (hrun.messages.symm.trans hcompleted.messages)
  obtain ⟨cs, t, f, hcs, hf, hreports⟩ := hcompleted.session
  obtain rfl := hrun.reports_unique hcs hf hreports
  obtain ⟨m, l, hline⟩ := hall report hreport hbuilt
  have hcompiler : m.reason = some Message.compilerMessage := by
    obtain ⟨hm, x, -, hd⟩ := hline.source
    rcases List.mem_cons.1 hm with rfl | hm
    · rfl
    · rw [List.mem_singleton.1 hm] at hd
      cases hd
  exact ⟨r, hends, report, m, l, hbuilt, hline, hline.carries.compiler hcompiler⟩

end Run

end TraitTrace
