import TraitTrace.Proofs.Diagnostic.Misplaced
import TraitTrace.Proofs.Json.Refusals
import TraitTrace.Proofs.Message

/-! Lines of a stream that stop their reader. Only a line that starts with a brace can: where JSON
is refused for another reason than a flaw, or where the diagnostic on the line has a scalar in the
place of a list. Every other line is a message that keeps the line. -/

namespace TraitTrace.Message

open Json

variable {room : Nat} {line : String} {m : Message} {fault : Fault}

/-- A line that is read as JSON: after blanks it starts with a brace. -/
def Opened (line : String) : Prop :=
  (Text.trimLeft Text.isBlank (unended line).toList).head? = some '{'

/-- Why a line stops a reader with this room for nesting. -/
inductive Refused (room : Nat) (line : String) : Fault → Prop
  | numeral {n : Nat} (hopen : Opened line)
      (h : Json.parseWithin room (unended line) = .error (.longNumeral n)) :
      Refused room line (.longNumeral n)
  | nesting {what : Container} (hopen : Opened line)
      (h : Json.parseWithin room (unended line) = .error (.tooDeep what)) :
      Refused room line (.deepNesting what)
  | scalar {envelope data : Members} {kind : ScalarKind} (hopen : Opened line)
      (h : Json.parseWithin room (unended line) = .ok (.obj envelope))
      (hdata : diagnosticMembers envelope = some data)
      (hscalar : Diagnostic.Misplaced data kind) : Refused room line (.notIterable kind)

/-- What a message tells of its line: the line itself, an error where the line should be an object
and is none, and a diagnostic where the object on the line has one. -/
structure Tells (room : Nat) (line : String) (m : Message) : Prop where
  kept : m.line = unended line
  parseError : m.parseError ≠ none ↔
    Opened line ∧ ∀ envelope, Json.parseWithin room (unended line) ≠ .ok (.obj envelope)
  diagnostic : m.diagnostic ≠ none ↔ Opened line ∧
    ∃ envelope data, Json.parseWithin room (unended line) = .ok (.obj envelope) ∧
      diagnosticMembers envelope = some data

theorem parseWithin_opened (h : Opened line) :
    parseWithin room line =
      match Json.parseWithin room (unended line) with
      | .ok (.obj envelope) => ofEnvelope (unended line) envelope
      | .ok _ => .ok (plain (unended line) (some "message is not a JSON object"))
      | .error (.flaw what position row column) =>
        .ok (plain (unended line)
          (some ("JSON parse error: " ++ flawText what position row column)))
      | .error (.longNumeral digits) => .error (.longNumeral digits)
      | .error (.tooDeep what) => .error (.deepNesting what) :=
  if_pos h

theorem ofEnvelope_error {envelope : Members} (h : ofEnvelope line envelope = .error fault) :
    ∃ data kind, diagnosticMembers envelope = some data ∧ fault = .notIterable kind ∧
      Diagnostic.Misplaced data kind := by
  obtain h | ⟨_, -, h⟩ := bind_error.1 h
  · cases hdata : diagnosticMembers envelope with
    | none =>
      rw [hdata] at h
      cases h
    | some data =>
      rw [hdata] at h
      cases hd : Diagnostic.ofMembers data with
      | ok d =>
        rw [Option.mapM_some, hd] at h
        cases h
      | error f =>
        rw [Option.mapM_some, hd] at h
        obtain rfl := Except.error.inj h
        obtain ⟨kind, hf, hmis⟩ := Diagnostic.misplaced_of_error hd
        exact ⟨data, kind, rfl, hf, hmis⟩
  · cases h

theorem refused_of_error (h : parseWithin room line = .error fault) : Refused room line fault := by
  by_cases hopen : Opened line
  · rw [parseWithin_opened hopen] at h
    split at h
    · rename_i hparse
      obtain ⟨data, kind, hdata, rfl, hmis⟩ := ofEnvelope_error h
      exact .scalar hopen hparse hdata hmis
    · cases h
    · cases h
    · rename_i hparse
      obtain rfl := Except.error.inj h
      exact .numeral hopen hparse
    · rename_i hparse
      obtain rfl := Except.error.inj h
      exact .nesting hopen hparse
  · rw [parseWithin_plain hopen] at h
    cases h

theorem not_ok_of_refused (h : Refused room line fault) : parseWithin room line ≠ .ok m := by
  intro hm
  cases h with
  | numeral hopen h | nesting hopen h =>
    rw [parseWithin_opened hopen, h] at hm
    cases hm
  | scalar hopen h hdata hscalar =>
    rw [parseWithin_opened hopen, h] at hm
    have hmap := (ofEnvelope_spec hm).2.diagnostic
    rw [hdata] at hmap
    obtain ⟨d, hd, -⟩ := map_ok.1 hmap
    exact Diagnostic.not_ok_of_misplaced hscalar d hd

theorem tells_plain
    (h : Opened line → ∀ envelope, Json.parseWithin room (unended line) ≠ .ok (.obj envelope))
    {e : Option String} (he : e ≠ none ↔ Opened line) :
    Tells room line (plain (unended line) e) where
  kept := rfl
  parseError := ⟨fun hne => ⟨he.1 hne, h (he.1 hne)⟩, fun hno => he.2 hno.1⟩
  diagnostic := ⟨fun hne => absurd rfl hne,
    fun ⟨hopen, envelope, _, hobj, _⟩ => absurd hobj (h hopen envelope)⟩

theorem ofEnvelope_diagnostic {envelope : Members} (h : ofEnvelope line envelope = .ok m) :
    m.parseError = none ∧
      (m.diagnostic ≠ none ↔ ∃ data, diagnosticMembers envelope = some data) := by
  obtain ⟨diagnostic, hd, h⟩ := bind_ok.1 h
  obtain rfl := Except.ok.inj h
  refine ⟨rfl, ?_⟩
  cases hdata : diagnosticMembers envelope with
  | none =>
    rw [hdata] at hd
    obtain rfl := Except.ok.inj hd
    exact ⟨fun hne => absurd rfl hne, nofun⟩
  | some data =>
    rw [hdata] at hd
    obtain ⟨d, -, rfl⟩ := map_ok.1 hd
    exact ⟨fun _ => ⟨data, rfl⟩, nofun⟩

theorem tells_of_ok (h : parseWithin room line = .ok m) : Tells room line m := by
  by_cases hopen : Opened line
  · rw [parseWithin_opened hopen] at h
    split at h
    · rename_i envelope hobj
      obtain ⟨herror, hdiag⟩ := ofEnvelope_diagnostic h
      exact {
        kept := (ofEnvelope_spec h).1
        parseError := ⟨fun hne => absurd herror hne, fun hno => absurd hobj (hno.2 envelope)⟩
        diagnostic := hdiag.trans
          ⟨fun ⟨data, hdata⟩ => ⟨hopen, envelope, data, hobj, hdata⟩,
            fun ⟨_, other, data, hother, hdata⟩ =>
              ⟨data, by rwa [Json.obj.inj (Except.ok.inj (hobj.symm.trans hother))]⟩⟩ }
    · rename_i v hnot hparse
      obtain rfl := Except.ok.inj h
      refine tells_plain (fun _ envelope hobj => ?_) ⟨fun _ => hopen, nofun⟩
      exact hnot envelope (Except.ok.inj (hparse.symm.trans hobj))
    · rename_i hparse
      obtain rfl := Except.ok.inj h
      exact tells_plain (fun _ envelope hobj => nomatch hparse.symm.trans hobj)
        ⟨fun _ => hopen, nofun⟩
    · cases h
    · cases h
  · rw [parseWithin_plain hopen] at h
    obtain rfl := Except.ok.inj h
    exact tells_plain (fun h => absurd h hopen) ⟨fun hne => absurd rfl hne, fun h => absurd h hopen⟩

/-- With any room for nesting, a line is read unless it is refused. Then the message keeps the line,
and has an error or no diagnostic where the line has none. Refused are long runs of digits, nesting
beyond the room, and scalars in the place of lists. -/
theorem kept_unless_refused (room : Nat) (line : String) :
    ((∃ m, parseWithin room line = .ok m ∧ Tells room line m) ↔
        ∀ fault, ¬Refused room line fault) ∧
      (∀ fault, parseWithin room line = .error fault → Refused room line fault) ∧
      (∀ n, Refused room line (.longNumeral n) → LongRun n line.toList) ∧
      ∀ what, Refused room line (.deepNesting what) → room < openings line.toList := by
  have hprefix := toList_unended_prefix line
  have hread : (∃ m, parseWithin room line = .ok m) ↔ ∀ fault, ¬Refused room line fault :=
    exists_ok_iff (fun fault h => ⟨fault, refused_of_error h⟩) fun _ _ h => not_ok_of_refused h
  refine ⟨⟨fun ⟨m, hm, _⟩ => hread.1 ⟨m, hm⟩, fun h => ?_⟩,
    fun fault => refused_of_error, fun n h => ?_, fun what h => ?_⟩
  · obtain ⟨m, hm⟩ := hread.2 h
    exact ⟨m, hm, tells_of_ok hm⟩
  · cases h with
    | numeral _ h =>
      obtain ⟨ds, hds, hrun⟩ := longRun_of_parse h
      exact ⟨ds, hds.trans hprefix.isInfix, hrun⟩
  · cases h with
    | nesting _ h => exact Nat.lt_of_lt_of_le (openings_of_parse h) hprefix.sublist.countP_le

end TraitTrace.Message
