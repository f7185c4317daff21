import TraitTrace.Proofs.Report.Sources
import TraitTrace.Settings.Basic

/-! The text of a report and the text inside its compiler diagnostic. They are drawn alike but for
the source lines: the inner text always shows them, with tabs of the usual width. -/

namespace TraitTrace

/-- Tabs that 32 bits can count. -/
def FitsTab (tabWidth : Int) : Prop := -0x80000000 ≤ tabWidth ∧ tabWidth ≤ 0x7FFFFFFF

theorem TabWidth.fitsTab (t : TabWidth) : FitsTab t.val := by
  obtain ⟨n, hlow, hhigh⟩ := t
  exact ⟨by dsimp only; omega, by dsimp only; omega⟩

theorem fitsTab_usual : FitsTab Report.usualTabWidth := ⟨by decide, by decide⟩

namespace Report

/-- Where tabs can be counted, only the length of an underline can stop it. -/
theorem excerptFault?_congr {t t' : Int} (ht : FitsTab t) (ht' : FitsTab t') (s : Span) :
    excerptFault? t s = excerptFault? t' s := by
  unfold excerptFault?
  cases s.lines with
  | nil => rfl
  | cons l ls =>
    have hfits : ∀ {t : Int}, FitsTab t → ¬(t < -0x80000000 ∨ 0x7FFFFFFF < t) := by
      rintro t ⟨hlow, hhigh⟩
      omega
    dsimp only
    rw [if_neg (hfits ht), if_neg (hfits ht')]

theorem primarySpans_subset (spans : List Span) : primarySpans spans ⊆ spans := by
  unfold primarySpans
  dsimp only
  split
  · exact List.take_subset 1 spans
  · exact List.filter_subset_self spans

theorem draw_of_fault_none {r : Report} {showSource : Bool} {tabWidth : Int}
    (h : r.drawFault? showSource tabWidth = none) :
    r.draw showSource tabWidth = .ok (r.plain showSource tabWidth) := by
  rw [draw, h]

theorem emit_ok {r : Report} {d : Diagnostic} :
    r.emit = .ok d ↔ r.drawFault? true usualTabWidth = none ∧ r.toDiagnostic = d := by
  unfold emit
  cases r.drawFault? true usualTabWidth with
  | some f => exact ⟨nofun, nofun⟩
  | none => exact ⟨fun h => ⟨rfl, Except.ok.inj h⟩, fun h => congrArg Except.ok h.2⟩

/-- A report whose source lines can be underlined is drawn. -/
theorem drawFault?_eq_none {r : Report} {showSource : Bool} {tabWidth : Int}
    (h : ∀ s ∈ r.spans, excerptFault? tabWidth s = none) :
    r.drawFault? showSource tabWidth = none := by
  unfold drawFault?
  split
  · exact List.findSome?_eq_none_iff.2 fun s hs => h s (primarySpans_subset r.spans hs)
  · rfl

/-- What can be drawn inside a diagnostic can be drawn in any rendering. -/
theorem drawFault?_of_usual {r : Report} {tabWidth : Int} (ht : FitsTab tabWidth)
    (h : r.drawFault? true usualTabWidth = none) (showSource : Bool) :
    r.drawFault? showSource tabWidth = none := by
  have hfault := funext (excerptFault?_congr ht fitsTab_usual)
  cases showSource with
  | false => rfl
  | true =>
    rw [drawFault?, hfault]
    exact h

section Text

variable {r : Report} (h : r.isPassThrough = false)

include h

end Text

end Report

end TraitTrace
