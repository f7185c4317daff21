import TraitTrace.Diagnostic.Decode
import TraitTrace.Proofs.Json.Bounds

/-! What decoded diagnostics are like. Where decoding takes a default, the default is none of the
values that it replaces: no level and no name of a file is empty, and no line or column is zero. The
numbers are as short as those that were read. -/

namespace TraitTrace

/-- An integer that a reader takes. -/
def IsShort (n : Int) : Prop := (Nat.toDigits 10 n.natAbs).length ≤ Decimal.maxDigits

/-- A line or a column. -/
def IsPlace (n : Int) : Prop := n ≠ 0 ∧ IsShort n

theorem isPlace_one : IsPlace 1 := ⟨by decide, by unfold IsShort; decide⟩

theorem isShort_zero : IsShort 0 := by
  unfold IsShort
  decide

/-- A source line in which no place is zero. -/
structure SpanLine.Filled (l : SpanLine) : Prop where
  highlightStart : l.highlightStart ≠ 0
  highlightEnd : l.highlightEnd ≠ 0

/-- A span in which no place is zero and the name of the file is not empty. -/
structure Span.Filled (s : Span) : Prop where
  fileName : s.fileName ≠ ""
  lineStart : s.lineStart ≠ 0
  lineEnd : s.lineEnd ≠ 0
  columnStart : s.columnStart ≠ 0
  columnEnd : s.columnEnd ≠ 0
  lines : ∀ l ∈ s.lines, l.Filled

structure SpanLine.Sound (l : SpanLine) : Prop where
  highlightStart : IsPlace l.highlightStart
  highlightEnd : IsPlace l.highlightEnd

structure Span.Sound (s : Span) : Prop where
  fileName : s.fileName ≠ ""
  lineStart : IsPlace s.lineStart
  lineEnd : IsPlace s.lineEnd
  columnStart : IsPlace s.columnStart
  columnEnd : IsPlace s.columnEnd
  byteStart : IsShort s.byteStart
  byteEnd : IsShort s.byteEnd
  lines : ∀ l ∈ s.lines, l.Sound

theorem SpanLine.Sound.filled {l : SpanLine} (h : l.Sound) : l.Filled :=
  ⟨h.highlightStart.1, h.highlightEnd.1⟩

theorem Span.Sound.filled {s : Span} (h : s.Sound) : s.Filled :=
  ⟨h.fileName, h.lineStart.1, h.lineEnd.1, h.columnStart.1, h.columnEnd.1,
    fun l hl => (h.lines l hl).filled⟩

namespace Json

variable {room : Nat} {data : Members} {name : String}

theorem Members.textOr_ne_empty {fallback : String} (h : fallback ≠ "") :
    data.textOr name fallback ≠ "" := by
  unfold textOr
  split
  · split
    · exact h
    · rename_i s _ hs
      simpa using hs
  · exact h

/-- What holds of a default and of the other integers of an object holds of a member with it. -/
theorem Members.intOr_induction {p : Int → Prop} {fallback : Int} (hdefault : p fallback)
    (h : ∀ n, Table.get? data name = some (.int n) → n ≠ 0 → p n) :
    p (data.intOr name fallback) := by
  unfold intOr
  split
  · rename_i n hn
    split
    · exact hdefault
    · rename_i hne
      obtain ⟨v, hv, hint⟩ := Option.bind_eq_some_iff.1 hn
      cases v with
      | int k =>
        obtain rfl := Option.some.inj hint
        exact h k hv hne
      | _ => cases hint
  · exact hdefault

theorem FitMembers.isPlace_intOr {fallback : Int} (h : FitMembers room data)
    (hdefault : IsPlace fallback) : IsPlace (data.intOr name fallback) :=
  Members.intOr_induction hdefault fun _ hn hne => ⟨hne, h.get? hn⟩

theorem FitMembers.isShort_intOr {fallback : Int} (h : FitMembers room data)
    (hdefault : IsShort fallback) : IsShort (data.intOr name fallback) :=
  Members.intOr_induction hdefault fun _ hn _ => h.get? hn

/-- What is read as a list are the objects in an array. -/
theorem mem_objects {os : List Members} (h : Json.objects (Table.get? data name) = .ok os)
    {o : Members} :
    o ∈ os ↔ ∃ items, Table.get? data name = some (.arr items) ∧ .obj o ∈ items := by
  unfold Json.objects at h
  split at h
  · rename_i hnone
    cases h
    exact ⟨nofun, fun ⟨_, hitems, _⟩ => nomatch hnone.symm.trans hitems⟩
  · rename_i v hv
    obtain ⟨-, -, h⟩ := bind_ok.1 h
    cases h
    rw [List.mem_filterMap, hv]
    constructor
    · rintro ⟨w, hw, hobj⟩
      cases v with
      | arr items =>
        cases w with
        | obj ms =>
          obtain rfl := Option.some.inj hobj
          exact ⟨items, rfl, hw⟩
        | _ => cases hobj
      | _ => cases hw
    · rintro ⟨items, hitems, ho⟩
      obtain rfl := Option.some.inj hitems
      exact ⟨.obj o, ho, rfl⟩

theorem FitMembers.objects {os : List Members} (h : FitMembers room data)
    (hos : Json.objects (Table.get? data name) = .ok os) :
    ∀ o ∈ os, FitMembers (room - 1 - 1) o := by
  intro o ho
  obtain ⟨items, hitems, hobj⟩ := (mem_objects hos).1 ho
  exact (fitItems_iff.1 (h.get? hitems).2 _ hobj).2.2

end Json

open Json

variable {room : Nat} {data : Members}

theorem SpanLine.filled_ofMembers (data : Members) : (ofMembers data).Filled :=
  ⟨Members.intOr_induction (p := fun n => n ≠ 0) (by decide) fun _ _ h => h,
    Members.intOr_induction (p := fun n => n ≠ 0) (by decide) fun _ _ h => h⟩

theorem SpanLine.sound_ofMembers (h : FitMembers room data) : (ofMembers data).Sound :=
  ⟨h.isPlace_intOr isPlace_one, h.isPlace_intOr isPlace_one⟩

/-- What holds of one and of the integers of an object that are not zero holds of the places of a
span decoded from it, since a line or column that is missing is one or that of the start. -/
theorem Span.places_of_ofMembers {s : Span} {p : Int → Prop} (hs : ofMembers data = .ok s)
    (hone : p 1) (h : ∀ name n, Table.get? data name = some (.int n) → n ≠ 0 → p n) :
    (p s.lineStart ∧ p s.lineEnd) ∧ p s.columnStart ∧ p s.columnEnd := by
  obtain ⟨lines, -, hs⟩ := bind_ok.1 hs
  cases hs
  have hstart : p (data.intOr "line_start" 1) := Members.intOr_induction hone (h _)
  have hcolumn : p (data.intOr "column_start" 1) := Members.intOr_induction hone (h _)
  exact ⟨⟨hstart, Members.intOr_induction hstart (h _)⟩, hcolumn,
    Members.intOr_induction hcolumn (h _)⟩

/-- The source lines of a span are decoded from the objects in one of its members. -/
theorem Span.lines_of_ofMembers {s : Span} (hs : ofMembers data = .ok s) :
    ∃ os, Json.objects (Table.get? data "text") = .ok os ∧
      s.lines = os.map SpanLine.ofMembers := by
  obtain ⟨os, hos, hs⟩ := bind_ok.1 hs
  cases hs
  exact ⟨os, hos, rfl⟩

theorem Span.filled_of_ofMembers {s : Span} (hs : ofMembers data = .ok s) : s.Filled := by
  have hname : s.fileName ≠ "" := by
    obtain ⟨lines, -, hs⟩ := bind_ok.1 hs
    cases hs
    exact Members.textOr_ne_empty (by decide)
  obtain ⟨⟨hline, hlineEnd⟩, hcolumn, hcolumnEnd⟩ :=
    Span.places_of_ofMembers (p := fun n => n ≠ 0) hs (by decide) fun _ _ _ h => h
  refine ⟨hname, hline, hlineEnd, hcolumn, hcolumnEnd, fun l hl => ?_⟩
  obtain ⟨os, -, hlines⟩ := Span.lines_of_ofMembers hs
  obtain ⟨o, -, rfl⟩ := List.mem_map.1 (hlines ▸ hl)
  exact SpanLine.filled_ofMembers o

theorem Span.sound_of_ofMembers {s : Span} (h : FitMembers room data)
    (hs : ofMembers data = .ok s) : s.Sound := by
  obtain ⟨⟨hline, hlineEnd⟩, hcolumn, hcolumnEnd⟩ :=
    Span.places_of_ofMembers hs isPlace_one fun _ _ hn hne => ⟨hne, h.get? hn⟩
  obtain ⟨hbyte, hbyteEnd⟩ : IsShort s.byteStart ∧ IsShort s.byteEnd := by
    obtain ⟨lines, -, hs⟩ := bind_ok.1 hs
    cases hs
    exact ⟨h.isShort_intOr isShort_zero, h.isShort_intOr isShort_zero⟩
  refine ⟨(Span.filled_of_ofMembers hs).fileName, hline, hlineEnd, hcolumn, hcolumnEnd, hbyte,
    hbyteEnd, fun l hl => ?_⟩
  obtain ⟨os, hos, hlines⟩ := Span.lines_of_ofMembers hs
  obtain ⟨o, ho, rfl⟩ := List.mem_map.1 (hlines ▸ hl)
  exact SpanLine.sound_ofMembers (h.objects hos o ho)

/-- What a diagnostic is decoded from. -/
theorem Diagnostic.ofMembers_spec {d : Diagnostic} (h : ofMembers data = .ok d) :
    ∃ ranges spans children, Json.objects (Table.get? data "spans") = .ok ranges ∧
      ranges.mapM Span.ofMembers = .ok spans ∧ childrenAmong data = .ok children ∧
      d = withChildren data spans children := by
  rw [ofMembers] at h
  obtain ⟨ranges, hranges, h⟩ := bind_ok.1 h
  obtain ⟨spans, hspans, h⟩ := bind_ok.1 h
  obtain ⟨children, hchildren, h⟩ := bind_ok.1 h
  exact ⟨ranges, spans, children, hranges, hspans, hchildren, (Except.ok.inj h).symm⟩

/-- Decoding gives a level and sound spans. -/
theorem Diagnostic.sound_of_ofMembers {d : Diagnostic} (h : FitMembers room data)
    (hd : ofMembers data = .ok d) : d.level ≠ "" ∧ ∀ s ∈ d.spans, s.Sound := by
  obtain ⟨ranges, spans, children, hranges, hspans, -, rfl⟩ := ofMembers_spec hd
  refine ⟨Members.textOr_ne_empty (by decide), fun s hs => ?_⟩
  obtain ⟨i, hi⟩ := List.getElem?_of_mem hs
  obtain ⟨o, ho, hof⟩ := forall₂_right (forall₂_of_mapM hspans) hi
  exact Span.sound_of_ofMembers (h.objects hranges o (List.mem_of_getElem? ho)) hof

end TraitTrace
