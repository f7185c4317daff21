import TraitTrace.Diagnostic.Encode
import TraitTrace.Proofs.Diagnostic.Decoded

/-! Diagnostics without the members that they were decoded from are decoded from their encoding as
they were, but for codes without a text, which are lost. They need a level and spans with files and
places; the notes need the same. Those that were built are also read back from what is printed of
them. -/

namespace TraitTrace

open Json

def SpanLine.members (l : SpanLine) : Members := l.toJson.obj?.getD []

def Span.members (s : Span) : Members := s.toJson.obj?.getD []

namespace Diagnostic

mutual

/-- A diagnostic without the members that it and its notes were decoded from. -/
def bare : Diagnostic → Diagnostic
  | ⟨level, message, code, spans, children, rendered, _⟩ =>
    ⟨level, message, code, spans, bareNotes children, rendered, none⟩

def bareNotes : List Diagnostic → List Diagnostic
  | [] => []
  | d :: ds => bare d :: bareNotes ds

end

mutual

/-- A diagnostic without the codes that have no text, and its notes too. -/
def coded : Diagnostic → Diagnostic
  | ⟨level, message, code, spans, children, rendered, origin⟩ =>
    ⟨level, message, code.filter fun c => !c.isEmpty, spans, codedNotes children, rendered, origin⟩

def codedNotes : List Diagnostic → List Diagnostic
  | [] => []
  | d :: ds => coded d :: codedNotes ds

end

mutual

/-- A diagnostic with a level and with spans that are filled in, and its notes too. -/
def Filled : Diagnostic → Prop
  | ⟨level, _, _, spans, children, _, _⟩ =>
    level ≠ "" ∧ (∀ s ∈ spans, s.Filled) ∧ FilledNotes children

def FilledNotes : List Diagnostic → Prop
  | [] => True
  | d :: ds => Filled d ∧ FilledNotes ds

end

mutual

/-- A diagnostic that was built, with no note deeper than so many levels. -/
def Built : Nat → Diagnostic → Prop
  | depth, ⟨level, _, code, spans, children, _, origin⟩ =>
    level ≠ "" ∧ code ≠ some "" ∧ (∀ s ∈ spans, s.Sound) ∧ BuiltNotes depth children ∧ origin = none

def BuiltNotes : Nat → List Diagnostic → Prop
  | _, [] => True
  | 0, _ :: _ => False
  | depth + 1, d :: ds => Built depth d ∧ BuiltNotes (depth + 1) ds

end

end Diagnostic

theorem Json.objects_map {α : Type} (members : α → Members) (xs : List α) :
    Json.objects (some (.arr (xs.map fun x => .obj (members x)))) = .ok (xs.map members) := by
  have hobj : (Json.arr?  (.arr (xs.map fun x => .obj (members x)))).getD [] =
      xs.map fun x => .obj (members x) := rfl
  rw [Json.objects, hobj, List.filterMap_map]
  exact congrArg Except.ok (List.filterMap_eq_map (f := members) ▸ rfl)

theorem Json.textOr_str {data : Members} {name fallback s : String}
    (h : Table.get? data name = some (.str s)) (hs : s ≠ "" ∨ fallback = "") :
    data.textOr name fallback = s := by
  rw [Members.textOr, h]
  change (if s.isEmpty then fallback else s) = s
  split
  · rename_i hempty
    rw [String.isEmpty_iff] at hempty
    rcases hs with hs | hs
    · exact absurd hempty hs
    · rw [hs, hempty]
  · rfl

theorem Json.intOr_int {data : Members} {name : String} {fallback n : Int}
    (h : Table.get? data name = some (.int n)) (hn : n ≠ 0 ∨ fallback = 0) :
    data.intOr name fallback = n := by
  rw [Members.intOr, h]
  change (if n = 0 then fallback else n) = n
  split
  · rename_i hzero
    rcases hn with hn | hn
    · exact absurd hzero hn
    · rw [hn, hzero]
  · rfl

theorem Json.str?_ofOption (s : Option String) : (Json.ofOption s).str? = s := by
  cases s <;> rfl

theorem SpanLine.ofMembers_members {l : SpanLine} (h : l.Filled) : ofMembers l.members = l := by
  have htext : l.members.textOr "text" "" = l.text := Json.textOr_str rfl (.inr rfl)
  have hstart : l.members.intOr "highlight_start" 1 = l.highlightStart :=
    Json.intOr_int rfl (.inl h.highlightStart)
  have hend : l.members.intOr "highlight_end" 1 = l.highlightEnd :=
    Json.intOr_int rfl (.inl h.highlightEnd)
  rw [ofMembers, htext, hstart, hend]

theorem Span.ofMembers_members {s : Span} (h : s.Filled) : ofMembers s.members = .ok s := by
  have hname : s.members.textOr "file_name" "<unknown>" = s.fileName :=
    Json.textOr_str rfl (.inl h.fileName)
  have hline : s.members.intOr "line_start" 1 = s.lineStart :=
    Json.intOr_int rfl (.inl h.lineStart)
  have hcolumn : s.members.intOr "column_start" 1 = s.columnStart :=
    Json.intOr_int rfl (.inl h.columnStart)
  have hlineEnd : s.members.intOr "line_end" s.lineStart = s.lineEnd :=
    Json.intOr_int rfl (.inl h.lineEnd)
  have hcolumnEnd : s.members.intOr "column_end" s.columnStart = s.columnEnd :=
    Json.intOr_int rfl (.inl h.columnEnd)
  have hbyte : s.members.intOr "byte_start" 0 = s.byteStart := Json.intOr_int rfl (.inr rfl)
  have hbyteEnd : s.members.intOr "byte_end" 0 = s.byteEnd := Json.intOr_int rfl (.inr rfl)
  have hlabel : s.members.text? "label" = s.label := Json.str?_ofOption s.label
  have hprimary : ((Table.get? s.members "is_primary").map Json.isTruthy).getD false =
      s.isPrimary := rfl
  have hlines : Json.objects (Table.get? s.members "text") = .ok (s.lines.map SpanLine.members) :=
    Json.objects_map SpanLine.members s.lines
  have hread : (s.lines.map SpanLine.members).map SpanLine.ofMembers = s.lines := by
    rw [List.map_map]
    have hmap : s.lines.map (SpanLine.ofMembers ∘ SpanLine.members) = s.lines.map id :=
      List.map_congr_left fun l hl => SpanLine.ofMembers_members (h.lines l hl)
    exact hmap.trans (List.map_id s.lines)
  rw [ofMembers, hlines, hname, hline, hcolumn, hlineEnd, hcolumnEnd, hbyte, hbyteEnd, hlabel,
    hprimary]
  change Except.ok _ = Except.ok _
  rw [hread]

theorem Span.mapM_ofMembers {spans : List Span} (h : ∀ s ∈ spans, s.Filled) :
    (spans.map Span.members).mapM Span.ofMembers = .ok spans := by
  induction spans with
  | nil => rfl
  | cons s spans ih =>
    have hrest := ih fun o ho => h o (List.mem_cons_of_mem s ho)
    exact mapM_cons_ok.2 ⟨s, spans, ofMembers_members (h s List.mem_cons_self), hrest, rfl⟩

namespace Diagnostic

/-- A code without a text is not encoded. -/
theorem codeOf_builtMembers (d : Diagnostic) (items : List Json) :
    codeOf (d.builtMembers items) = d.code.filter fun c => !c.isEmpty := by
  have hcode : codeOf (d.builtMembers items) =
      (codeJson d.code).obj?.bind fun code => code.text? "code" := rfl
  rw [hcode]
  cases d.code with
  | none => rfl
  | some code =>
    rw [codeJson, Option.filter_some]
    cases code.isEmpty <;> rfl

mutual

/-- A diagnostic without its members is read back, with the members that it was read from. -/
theorem ofMembers_bare : ∀ d : Diagnostic, d.Filled →
    ∃ d', ofMembers d.bare.toMembers = .ok d' ∧ d'.bare = d.bare.coded
  | ⟨level, message, code, spans, children, rendered, origin⟩, h => by
    obtain ⟨hlevel, hspans, hnotes⟩ := h
    obtain ⟨notes, hread, hbare⟩ := ofItems_bareNotes children hnotes
    rw [bare, toMembers, Option.getD_none]
    generalize hd : (⟨level, message, code, spans, bareNotes children, rendered, none⟩ :
      Diagnostic) = d
    generalize hitems : toItems (bareNotes children) = items at hread ⊢
    have hobjects : Json.objects (Table.get? (d.builtMembers items) "spans") =
        .ok (d.spans.map Span.members) := Json.objects_map Span.members d.spans
    have hchildren : childrenAmong (d.builtMembers items) = .ok notes := by
      rw [← hread]
      simp [builtMembers, childrenAmong, childrenOf]
    have htext : (d.builtMembers items).textOr "message" "" = d.message :=
      Json.textOr_str rfl (.inr rfl)
    have hname : (d.builtMembers items).textOr "level" "error" = d.level :=
      Json.textOr_str rfl (.inl (hd ▸ hlevel))
    have hrendered : (d.builtMembers items).text? "rendered" = d.rendered :=
      Json.str?_ofOption d.rendered
    have hranges : (d.spans.map Span.members).mapM Span.ofMembers = .ok d.spans :=
      Span.mapM_ofMembers (hd ▸ hspans)
    refine ⟨withChildren (d.builtMembers items) d.spans notes, ?_, ?_⟩
    · rw [ofMembers, hobjects]
      change ((d.spans.map Span.members).mapM Span.ofMembers >>= _) = _
      rw [hranges, hchildren]
      rfl
    · rw [withChildren, htext, hname, hrendered, codeOf_builtMembers, bare, hbare, ← hd, coded]

theorem ofItems_bareNotes : ∀ ds : List Diagnostic, FilledNotes ds →
    ∃ ds', ofItems (toItems (bareNotes ds)) = .ok ds' ∧ bareNotes ds' = codedNotes (bareNotes ds)
  | [], _ => ⟨[], by rw [bareNotes, toItems, ofItems], rfl⟩
  | d :: ds, h => by
    obtain ⟨e, he, hbare⟩ := ofMembers_bare d h.1
    obtain ⟨es, hes, hrest⟩ := ofItems_bareNotes ds h.2
    refine ⟨e :: es, ?_, by rw [bareNotes, hbare, hrest, bareNotes, codedNotes]⟩
    rw [bareNotes, toItems, ofItems, he, hes]
    rfl

end

theorem filter_code_eq_self {code : Option String} :
    (code.filter fun c => !c.isEmpty) = code ↔ code ≠ some "" := by
  cases code with
  | none => simp
  | some c => simp [Option.filter_some]

mutual

theorem Built.spec : ∀ (d : Diagnostic) (depth : Nat), d.Built depth →
    d.Filled ∧ d.bare = d ∧ d.coded = d
  | ⟨level, message, code, spans, children, rendered, origin⟩, depth, h => by
    rw [Built] at h
    obtain ⟨hlevel, hcode, hspans, hnotes, rfl⟩ := h
    obtain ⟨hfilled, hbare, hcoded⟩ := BuiltNotes.spec children depth hnotes
    refine ⟨⟨hlevel, fun s hs => (hspans s hs).filled, hfilled⟩, by rw [bare, hbare], ?_⟩
    rw [coded, filter_code_eq_self.2 hcode, hcoded]

theorem BuiltNotes.spec : ∀ (ds : List Diagnostic) (depth : Nat), BuiltNotes depth ds →
    FilledNotes ds ∧ bareNotes ds = ds ∧ codedNotes ds = ds
  | [], _, _ => ⟨trivial, rfl, rfl⟩
  | d :: ds, depth + 1, h => by
    rw [BuiltNotes] at h
    obtain ⟨hfilled, hbare, hcoded⟩ := Built.spec d depth h.1
    obtain ⟨hfilled', hbare', hcoded'⟩ := BuiltNotes.spec ds (depth + 1) h.2
    exact ⟨⟨hfilled, hfilled'⟩, by rw [bareNotes, hbare, hbare'],
      by rw [codedNotes, hcoded, hcoded']⟩

end

/-- A built diagnostic is read back, with the members that it was read from. -/
theorem ofMembers_toMembers (d : Diagnostic) (depth : Nat) (h : d.Built depth) :
    ∃ d', ofMembers d.toMembers = .ok d' ∧ d'.bare = d := by
  obtain ⟨hfilled, hbare, hcoded⟩ := Built.spec d depth h
  have hread := ofMembers_bare d hfilled
  rw [hbare, hcoded] at hread
  exact hread

end Diagnostic

theorem SpanLine.fits_toJson {l : SpanLine} (h : l.Sound) {room : Nat} (hroom : 0 < room) :
    l.toJson.Fits room :=
  ⟨hroom, by simp [Table.keys], trivial, h.highlightStart.2, h.highlightEnd.2, trivial⟩

theorem Span.fits_toJson {s : Span} (h : s.Sound) {room : Nat} (hroom : 2 < room) :
    s.toJson.Fits room := by
  have hlines : FitItems (room - 1 - 1) (s.lines.map SpanLine.toJson) := by
    refine fitItems_iff.2 fun v hv => ?_
    obtain ⟨l, hl, rfl⟩ := List.mem_map.1 hv
    exact SpanLine.fits_toJson (h.lines l hl) (by omega)
  have hlabel : (Json.ofOption s.label).Fits (room - 1) := by
    cases s.label <;> trivial
  exact ⟨by omega, by simp [Table.keys], trivial, h.byteStart, h.byteEnd, h.lineStart.2,
    h.lineEnd.2, h.columnStart.2, h.columnEnd.2, trivial, ⟨by omega, hlines⟩, hlabel, trivial,
    trivial, trivial, trivial⟩

theorem Json.rereadItems_map {α : Type} {f : α → Json} {xs : List α}
    (h : ∀ x ∈ xs, (f x).reread = f x) : rereadItems (xs.map f) = xs.map f := by
  induction xs with
  | nil => rfl
  | cons x xs ih =>
    rw [List.map_cons, rereadItems, h x List.mem_cons_self,
      ih fun y hy => h y (List.mem_cons_of_mem x hy)]

theorem Json.reread_ofOption (s : Option String) : (Json.ofOption s).reread = .ofOption s := by
  cases s <;> rfl

theorem Span.reread_toJson (s : Span) : s.toJson.reread = s.toJson := by
  have hlines : rereadItems (s.lines.map SpanLine.toJson) = s.lines.map SpanLine.toJson :=
    Json.rereadItems_map fun _ _ => rfl
  simp only [toJson, reread, rereadMembers, hlines, Json.reread_ofOption]

namespace Diagnostic

theorem reread_codeJson (code : Option String) : (codeJson code).reread = codeJson code := by
  unfold codeJson
  split
  · split <;> rfl
  · rfl

mutual

/-- Of a built diagnostic, printing changes nothing. -/
theorem reread_toMembers : ∀ (d : Diagnostic) (depth : Nat), d.Built depth →
    rereadMembers d.toMembers = d.toMembers
  | ⟨level, message, code, spans, children, rendered, origin⟩, depth, h => by
    rw [Built] at h
    obtain ⟨-, -, -, hnotes, rfl⟩ := h
    have hspans : rereadItems (spans.map Span.toJson) = spans.map Span.toJson :=
      Json.rereadItems_map fun s _ => s.reread_toJson
    have hchildren := reread_toItems children depth hnotes
    rw [toMembers, Option.getD_none]
    simp only [builtMembers, rereadMembers, reread, hspans, hchildren, reread_codeJson,
      Json.reread_ofOption]

theorem reread_toItems : ∀ (ds : List Diagnostic) (depth : Nat), BuiltNotes depth ds →
    rereadItems (toItems ds) = toItems ds
  | [], _, _ => rfl
  | d :: ds, depth + 1, h => by
    rw [BuiltNotes] at h
    rw [toItems, rereadItems, reread, reread_toMembers d depth h.1,
      reread_toItems ds (depth + 1) h.2]

end

mutual

/-- A built diagnostic takes room for its spans and two levels for each level of its notes. -/
theorem fits_toMembers : ∀ (d : Diagnostic) (depth room : Nat), d.Built depth →
    2 * depth + 5 ≤ room → (Json.obj d.toMembers).Fits room
  | ⟨level, message, code, spans, children, rendered, origin⟩, depth, room, h, hroom => by
    rw [Built] at h
    obtain ⟨-, -, hsound, hnotes, rfl⟩ := h
    have hspans : FitItems (room - 1 - 1) (spans.map Span.toJson) := by
      refine fitItems_iff.2 fun v hv => ?_
      obtain ⟨s, hs, rfl⟩ := List.mem_map.1 hv
      exact Span.fits_toJson (hsound s hs) (by omega)
    have hchildren : FitItems (room - 1 - 1) (toItems children) :=
      fits_toItems children depth (room - 1 - 1) hnotes (by omega)
    have hcode : (codeJson code).Fits (room - 1) := by
      unfold codeJson
      split
      · split
        · trivial
        · exact ⟨by omega, by simp [Table.keys], trivial, trivial, trivial⟩
      · trivial
    have hrendered : (Json.ofOption rendered).Fits (room - 1) := by
      cases rendered <;> trivial
    rw [toMembers, Option.getD_none]
    exact ⟨by omega, by simp [builtMembers, Table.keys], trivial, trivial, hcode, trivial,
      ⟨by omega, hspans⟩, ⟨by omega, hchildren⟩, hrendered, trivial⟩

theorem fits_toItems : ∀ (ds : List Diagnostic) (depth room : Nat), BuiltNotes depth ds →
    2 * depth + 3 ≤ room → FitItems room (toItems ds)
  | [], _, _, _, _ => trivial
  | d :: ds, depth + 1, room, h, hroom => by
    rw [BuiltNotes] at h
    exact ⟨fits_toMembers d depth room h.1 (by omega),
      fits_toItems ds (depth + 1) room h.2 hroom⟩

end

end Diagnostic

end TraitTrace
