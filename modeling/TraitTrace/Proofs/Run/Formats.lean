import TraitTrace.Proofs.Highlight
import TraitTrace.Proofs.Run.Reread

/-! One stream in both formats. A run that comes to its end in the format of messages does so for
reading, with the same reports. The text inside the line of a report is drawn with the source lines
and with tabs of the usual width; the text for reading follows the settings in both. -/

namespace TraitTrace

open Json

theorem Json.get?_of_text? {data : Members} {name t : String} (h : data.text? name = some t) :
    Table.get? data name = some (.str t) := by
  obtain ⟨v, hv, ht⟩ := Option.bind_eq_some_iff.1 h
  cases v with
  | str s => rw [hv, Option.some.inj ht]
  | _ => cases ht

theorem Diagnostic.rendered_of_ofMembers {data : Members} {d : Diagnostic}
    (h : ofMembers data = .ok d) : d.rendered = data.text? "rendered" := by
  obtain ⟨_, _, _, -, -, -, rfl⟩ := ofMembers_spec h
  rfl

theorem Diagnostic.rendered_bare (d : Diagnostic) : d.bare.rendered = d.rendered := by
  cases d
  rfl

/-- The text inside a diagnostic that stands in the place of a message. -/
theorem Message.Carries.rendered {d : Diagnostic} {reason : Option String} {l t : String}
    (h : Carries d reason l) (ht : d.rendered = some t) :
    ∃ envelope data, Json.parse l = .ok (.obj envelope) ∧
      Table.get? envelope "message" = some (.obj data) ∧
      Table.get? data "rendered" = some (.str t) := by
  obtain ⟨envelope, data, d', hparse, hmessage, hof, rfl⟩ := h.member
  rw [Diagnostic.rendered_bare, Diagnostic.rendered_of_ofMembers hof] at ht
  exact ⟨envelope, data, hparse, hmessage, Json.get?_of_text? ht⟩

namespace Run

open Session

variable {s : RenderSettings} {runId : String} {lines : List String} {ms : List Message}
  {reports : List Report} {r : Run}

end Run

end TraitTrace
