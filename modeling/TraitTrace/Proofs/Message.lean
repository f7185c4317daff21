import TraitTrace.Message
import TraitTrace.Proofs.Diagnostic.Decoded
import TraitTrace.Proofs.Json.Printable

/-! Lines of a stream that are read as messages. A message keeps its line but for the line end; its
diagnostic was decoded from the JSON object on the line. A printed object is read as a message. -/

namespace TraitTrace.Message

open Json

/-- A line without the carriage returns and line feeds at its end. -/
def unended (line : String) : String :=
  String.ofList (Text.trimRight (fun c => c == '\r' || c == '\n') line.toList)

theorem toList_unended_prefix (line : String) : (unended line).toList <+: line.toList := by
  rw [unended, String.toList_ofList, Text.trimRight]
  have hdrop := List.dropWhile_suffix (l := line.toList.reverse) fun c => c == '\r' || c == '\n'
  simpa using List.reverse_prefix.2 hdrop

/-- What a message with an object on its line has from this object. -/
structure Reads (envelope : Members) (m : Message) : Prop where
  kept : m.envelope = some envelope
  reason : m.reason = envelope.text? "reason"
  diagnostic : (diagnosticMembers envelope).mapM Diagnostic.ofMembers = .ok m.diagnostic

theorem ofEnvelope_spec {line : String} {envelope : Members} {m : Message}
    (h : ofEnvelope line envelope = .ok m) : m.line = line ∧ m.Reads envelope := by
  obtain ⟨diagnostic, hd, h⟩ := bind_ok.1 h
  cases h
  exact ⟨rfl, rfl, rfl, hd⟩

/-- A message keeps its line. With a diagnostic, it has an object that the reader took. -/
theorem parse_spec {line : String} {m : Message} (h : parse line = .ok m) :
    m.line = unended line ∧ (m.diagnostic ≠ none →
      ∃ envelope, Json.parse (unended line) = .ok (.obj envelope) ∧ m.Reads envelope) := by
  unfold parse parseWithin at h
  dsimp only at h
  rw [← unended] at h
  split at h
  · split at h
    · rename_i envelope hparse
      obtain ⟨hline, hreads⟩ := ofEnvelope_spec h
      exact ⟨hline, fun _ => ⟨envelope, hparse, hreads⟩⟩
    · cases h
      exact ⟨rfl, fun hne => absurd rfl hne⟩
    · cases h
      exact ⟨rfl, fun hne => absurd rfl hne⟩
    · cases h
    · cases h
  · cases h
    exact ⟨rfl, fun hne => absurd rfl hne⟩

/-- A line that does not start with a brace is a message without a diagnostic. -/
theorem parseWithin_plain {room : Nat} {line : String}
    (h : (Text.trimLeft Text.isBlank (unended line).toList).head? ≠ some '{') :
    parseWithin room line = .ok (plain (unended line) none) := by
  rw [parseWithin, ← unended, if_neg h]

/-- The members that the diagnostic of a message is decoded from are the object on its line, or
stand in it. -/
theorem fits_diagnosticMembers {room : Nat} {envelope data : Members}
    (h : FitMembers room envelope) (hdata : diagnosticMembers envelope = some data) :
    ∃ room, FitMembers room data := by
  unfold diagnosticMembers at hdata
  split at hdata
  · split at hdata
    · obtain ⟨v, hv, hobj⟩ := Option.bind_eq_some_iff.1 hdata
      cases v with
      | obj ms =>
        obtain rfl := Option.some.inj hobj
        exact ⟨_, (h.get? hv).2.2⟩
      | _ => cases hobj
    · cases hdata
  · split at hdata
    · obtain rfl := Option.some.inj hdata
      exact ⟨room, h⟩
    · cases hdata

theorem Reads.ofMembers {envelope : Members} {m : Message} {d : Diagnostic} (h : m.Reads envelope)
    (hd : m.diagnostic = some d) :
    ∃ data, diagnosticMembers envelope = some data ∧ Diagnostic.ofMembers data = .ok d := by
  have hmap := h.diagnostic
  cases hdata : diagnosticMembers envelope with
  | none =>
    rw [hdata, hd] at hmap
    cases hmap
  | some data =>
    rw [hdata, hd] at hmap
    obtain ⟨e, he, hsome⟩ := map_ok.1 hmap
    exact ⟨data, rfl, Option.some.inj hsome ▸ he⟩

/-- The diagnostic of a message has a level and sound spans. -/
theorem sound_of_parse {line : String} {m : Message} {d : Diagnostic} (h : parse line = .ok m)
    (hd : m.diagnostic = some d) : d.level ≠ "" ∧ ∀ s ∈ d.spans, s.Sound := by
  obtain ⟨envelope, hparse, hreads⟩ := (parse_spec h).2 (by rw [hd]; nofun)
  obtain ⟨data, hdata, hof⟩ := hreads.ofMembers hd
  obtain ⟨room, hfits⟩ := fits_diagnosticMembers (fits_of_parse hparse).2.2 hdata
  exact Diagnostic.sound_of_ofMembers hfits hof

theorem unended_of_printable {line : String} (h : Printable line.toList) :
    unended line = line := by
  have hend : ∀ c, line.toList.getLast? = some c → (c == '\r' || c == '\n') = false := by
    intro c hc
    have hlow := (h c (List.mem_of_getLast? hc)).1
    rw [Bool.or_eq_false_iff, beq_eq_false_iff_ne, beq_eq_false_iff_ne]
    exact ⟨fun e => absurd (e ▸ hlow) (by decide), fun e => absurd (e ▸ hlow) (by decide)⟩
  rw [unended, Text.trimRight_eq_self hend, String.ofList_toList]

/-- A printed object is read as a message that has this object, but for its doubles. -/
theorem parse_render {envelope : Members} (h : (Json.obj envelope).Fits maxNesting) :
    parse ((Json.obj envelope).render .spaced) =
      ofEnvelope ((Json.obj envelope).render .spaced) (rereadMembers envelope) := by
  have hline := unended_of_printable (printable_render (.obj envelope))
  have hhead : (Text.trimLeft Text.isBlank
      ((Json.obj envelope).render .spaced).toList).head? = some '{' := by
    rw [render, String.toList_ofList, chars, Text.trimLeft_eq_self]
    · rfl
    · rintro c hc
      obtain rfl := Option.some.inj hc
      decide
  rw [parse, parseWithin, ← unended, hline, if_pos hhead, ← Json.parse, Json.parse_render h]
  rfl

end TraitTrace.Message
