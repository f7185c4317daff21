import TraitTrace.Proofs.Fact.Refusal
import TraitTrace.Proofs.FieldName.Tagged

/-! Facts read back from their print. Each message of the diagnostic of a field that a context does
not have gives the facts that it states and no others: its types are found between their backticks,
none of the words of another message is found in it, and the paths of its types are dropped. -/

namespace TraitTrace

open Text TypeExpr

namespace Fragment

variable {f : Fragment}

theorem unsatisfiedBound_note (hroot : f.isRoot = false) : f.unsatisfiedBound = none := by
  rw [unsatisfiedBound, hroot]
  rfl

section FirstLine

variable {words rest : List Char}

theorem requiredFor_eq_none (hline : f.firstLine.toList = words ++ '`' :: rest)
    (hwords : ¬"required for".toList <+: words) : f.requiredFor = none := by
  have hnone := phraseAt_eq_none "required for `" (by decide) (by decide) hwords hline
    [.name, .words "` to implement `", .name, .words "`"]
  delta requiredFor
  rw [hnone]

theorem requiredByBound_eq_none (hline : f.firstLine.toList = words ++ '`' :: rest)
    (hwords : ¬"required by".toList <+: words) : f.requiredByBound = none := by
  have hnone := phraseAt_eq_none "required by a bound in `" (by decide) (by decide) hwords hline
    [.name, .words "`"]
  rw [requiredByBound, hnone]
  split <;> rfl

theorem requirement_eq_none (h : f.requiredFor = none) : f.requirement = none := by
  rw [requirement, h]
  split <;> rfl

theorem blanketRule_eq_none (h : f.requiredFor = none) : f.blanketRule = none := by
  unfold blanketRule
  rw [h]
  split
  · rfl
  · cases f.span <;> rfl

end FirstLine

/-- Words that begin the parts of a help line. -/
def helpMarks : List (List Char) :=
  ["the trait".toList, "but trait".toList, "the following".toList]

theorem helpMarks_spec : ∀ mark ∈ helpMarks, '`' ∉ mark ∧ ¬Spaced mark := by decide

theorem lacks_of_beforeFirst {s : List Char} (h : ∀ mark ∈ helpMarks, beforeFirst mark s = s) :
    ∀ mark ∈ helpMarks, ¬mark <:+: s := by
  intro mark hmark
  have hne : mark ≠ [] := fun hnil => (helpMarks_spec mark hmark).2 (hnil ▸ .nil)
  exact (not_infix_iff hne).2 (h mark hmark)

/-- A note in which none of these words stand. -/
structure Silent (f : Fragment) : Prop where
  isRoot : f.isRoot = false
  lacks : ∀ mark ∈ helpMarks, ¬mark <:+: f.message.toList

theorem otherTypes_eq_none (h : ¬"the following".toList <:+: f.message.toList) :
    otherTypes f.message = none := by
  have hnone := phraseIn_eq_none "the following other types implement trait `" (by decide)
    (by decide) h [.name, .words "`"]
  rw [otherTypes, hnone]
  rfl

namespace Silent

theorem unmet (h : f.Silent) : ¬"the trait".toList <:+: f.message.toList := h.lacks _ (.head _)

theorem but (h : f.Silent) : ¬"but trait".toList <:+: f.message.toList :=
  h.lacks _ (.tail _ (.head _))

theorem others (h : f.Silent) : ¬"the following".toList <:+: f.message.toList :=
  h.lacks _ (.tail _ (.tail _ (.head _)))

theorem missingField_eq (h : f.Silent) : f.missingField = none := by
  have htext : (String.ofList (beforeFirst "but trait".toList f.message.toList)).toList =
      f.message.toList := by
    rw [String.toList_ofList (l := beforeFirst "but trait".toList f.message.toList),
      beforeFirst_eq_self h.but]
  have hunmet := h.unmet
  rw [← htext] at hunmet
  have hnone := phraseIn_eq_none "the trait `" (by decide) (by decide) hunmet
    [.name, .words "` is not implemented for `", .name, .words "`"]
  unfold missingField notImplemented
  rw [h.isRoot, hnone]
  rfl

theorem alternateImpl_eq (h : f.Silent) : f.alternateImpl = none := by
  have hbut : butImplemented f.message = none := by
    have hnone := phraseIn_eq_none "but trait `" (by decide) (by decide) h.but
      [.name, .words "` is implemented for it"]
    rw [butImplemented, hnone]
    rfl
  unfold alternateImpl
  rw [h.isRoot, hbut, otherTypes_eq_none h.others]
  rfl

end Silent

section Required

variable {n : RequiredNote}

theorem silent_of_required (hroot : f.isRoot = false) (hm : f.message = n.text)
    (hs : n.subject.Compiled) (ht : n.trait.Compiled) : f.Silent := by
  have hwords : ∀ mark ∈ helpMarks, ¬mark <:+: "required for ".toList :=
    lacks_of_beforeFirst (by decide)
  have hbetween : ∀ mark ∈ helpMarks, ¬mark <:+: " to implement ".toList :=
    lacks_of_beforeFirst (by decide)
  refine ⟨hroot, fun mark hmark => ?_⟩
  obtain ⟨htick, hspaced⟩ := helpMarks_spec mark hmark
  rw [hm, n.toList_text]
  exact not_infix_pairLine htick hspaced hs ht (hwords mark hmark) (hbetween mark hmark)
    (lacks_of_beforeFirst (by decide) mark hmark)

theorem firstLine_required (hm : f.message = n.text) (hs : n.subject.Compiled)
    (ht : n.trait.Compiled) : f.firstLine = n.text := by
  rw [firstLine, hm]
  exact firstLine_pairLine n.toList_text (by decide) (by decide) (by decide) hs ht

theorem requiredFor_required (hm : f.message = n.text) (hs : n.subject.Compiled)
    (ht : n.trait.Compiled) :
    f.requiredFor = some (n.subject.bare.text, n.trait.bare.text) := by
  have hread : readParts
      [.words "required for `", .name, .words "` to implement `", .name, .words "`"]
      (pairLine "required for ".toList " to implement ".toList n.subject n.trait []) =
      some [n.subject.text, n.trait.text] := readParts_pairLine (by decide) (by decide) hs ht []
  delta requiredFor
  rw [firstLine_required hm hs ht, phraseAt, n.toList_text, hread]
  dsimp only
  rw [Tree.stripPaths_text hs.parts, Tree.stripPaths_text ht.parts]

theorem blanketRule_required (hroot : f.isRoot = false)
    (hfor : f.requiredFor = some (n.subject.bare.text, n.trait.bare.text)) :
    f.blanketRule.toList = if n.trait.usesProvider then
      (f.span.map fun span => .blanket ⟨n.subject.bare.text, span.location⟩).toList else [] := by
  have hclass := Contract.exists_classify_bare n.trait
  unfold blanketRule
  rw [hroot, if_neg Bool.false_ne_true, hfor]
  cases f.span with
  | none => cases n.trait.usesProvider <;> rfl
  | some span =>
    dsimp only [bind, Option.bind]
    split
    · rename_i heq
      rw [if_pos (hclass.1 ⟨_, _, _, heq⟩)]
      rfl
    · rename_i hother
      have huses : ¬n.trait.usesProvider = true := by
        intro huses
        obtain ⟨marker, context, extra, heq⟩ := hclass.2 huses
        exact hother _ _ _ heq
      rw [if_neg huses]
      rfl

theorem facts_required (hroot : f.isRoot = false) (hm : f.message = n.text)
    (hs : n.subject.Compiled) (ht : n.trait.Compiled) :
    f.facts = .required ⟨n.subject.bare.text, n.trait.bare.text, n.text⟩ ::
      if n.trait.usesProvider then
        (f.span.map fun span => .blanket ⟨n.subject.bare.text, span.location⟩).toList
      else [] := by
  have hsilent := silent_of_required hroot hm hs ht
  have hline := firstLine_required hm hs ht
  have hfor := requiredFor_required hm hs ht
  have hrequirement : f.requirement =
      some (.required ⟨n.subject.bare.text, n.trait.bare.text, n.text⟩) := by
    rw [requirement, hroot, hfor, hline]
    rfl
  have hbound := requiredByBound_eq_none ((congrArg _ hline).trans n.toList_text) (by decide)
  rw [facts, findings, unsatisfiedBound_note hroot, hrequirement, hbound, hsilent.missingField_eq,
    hsilent.alternateImpl_eq, ← blanketRule_required hroot hfor]
  cases f.blanketRule <;> rfl

end Required

section Last

variable {r : FieldRefusal}

theorem silent_of_last (hroot : f.isRoot = false) (hm : f.message = r.lastText)
    (hc : r.check.Compiled) : f.Silent := by
  have hwords : ∀ mark ∈ helpMarks, ¬mark <:+: "required by a bound in ".toList :=
    lacks_of_beforeFirst (by decide)
  refine ⟨hroot, fun mark hmark => ?_⟩
  obtain ⟨htick, hspaced⟩ := helpMarks_spec mark hmark
  rw [hm, r.toList_lastText]
  exact not_infix_append htick (hwords mark hmark) (not_infix_append htick
    (Tree.not_infix_print hc.parts hspaced) (lacks_of_beforeFirst (by decide) mark hmark))

theorem firstLine_last (hm : f.message = r.lastText) (hc : r.check.Compiled) :
    f.firstLine = r.lastText := by
  have hwords : OneLine "required by a bound in ".toList := by decide
  rw [firstLine, hm]
  refine firstLine_of_noBreak ?_ ?_
  · rw [r.toList_lastText]
    exact hwords.append_tick (hc.line.append_tick nofun)
  · rw [r.toList_lastText]
    exact strip_of_ends (a := 'r') rfl (b := '`') (by simp [List.getLast?_cons]) (by decide)
      (by decide)

theorem requiredByBound_last (hroot : f.isRoot = false) (hm : f.message = r.lastText)
    (hc : r.check.Compiled) :
    f.requiredByBound = some (.requiredBy (String.ofList r.check.bare.headText)) := by
  have hlist : r.lastText.toList =
      "required by a bound in `".toList ++ (r.check.print ++ '`' :: []) := by
    rw [r.toList_lastText]
    simp
  have htick : '`' :: [] = "`".toList ++ [] := rfl
  have hread : phraseAt [.words "required by a bound in `", .name, .words "`"] r.lastText =
      some [r.check.text] := by
    rw [phraseAt, hlist, readParts_words, readParts_name r.check.print_ne_nil hc.tick, htick,
      readParts_words]
    rfl
  have hhead : genericHead r.check.bare.text = String.ofList r.check.bare.headText := by
    rw [genericHead, Tree.parseGeneric_text]
  rw [requiredByBound, hroot, firstLine_last hm hc, hread]
  change some (Fact.requiredBy (genericHead (stripPaths r.check.text))) = _
  rw [Tree.stripPaths_text hc.parts, hhead]

theorem facts_last (hroot : f.isRoot = false) (hm : f.message = r.lastText)
    (hc : r.check.Compiled) :
    f.facts = [.requiredBy (String.ofList r.check.bare.headText)] := by
  have hsilent := silent_of_last hroot hm hc
  have hline := (congrArg String.toList (firstLine_last hm hc)).trans r.toList_lastText
  have hfor := requiredFor_eq_none hline (by decide)
  rw [facts, findings, unsatisfiedBound_note hroot, requirement_eq_none hfor,
    requiredByBound_last hroot hm hc, hsilent.missingField_eq, hsilent.alternateImpl_eq,
    blanketRule_eq_none hfor]
  rfl

end Last

section Help

variable {r : FieldRefusal}

theorem firstLine_help (hm : f.message = r.helpText) (hr : r.Compiled) :
    f.firstLine = r.unmet := by
  have hline : OneLine r.unmet.toList := by
    rw [r.toList_unmet]
    exact oneLine_pairLine (by decide) (by decide) hr.trait hr.context nofun
  have hstrip : strip r.unmet.toList = r.unmet.toList := by
    rw [r.toList_unmet]
    exact strip_of_ends (a := 't') rfl (getLast?_pairLine _ _ _ _) (by decide) (by decide)
  rw [firstLine, hm, FieldRefusal.helpText]
  split
  · exact firstLine_of_noBreak hline hstrip
  · rename_i o _
    refine firstLine_append hline hstrip ?_
    refine strip_of_ends (a := 't') (b := 't') ?_ ?_ (by decide) (by decide)
    · rw [r.toList_unmet]
      rfl
    · simp [o.toList_text, List.getLast?_cons]

theorem notImplemented_unmetLine (hr : r.Compiled) {t : String} {rest : List Char}
    (ht : t.toList = unmetLine r rest) :
    notImplemented t = some (r.trait.text, r.context.text) := by
  have hread : readParts
      [.words "the trait `", .name, .words "` is not implemented for `", .name, .words "`"]
      (pairLine "the trait ".toList " is not implemented for ".toList r.trait r.context rest) =
      some [r.trait.text, r.context.text] :=
    readParts_pairLine (by decide) (by decide) hr.trait hr.context rest
  delta notImplemented
  rw [phraseIn, ht, unmetLine, firstPlace_of_some hread]

theorem missingField_help (hroot : f.isRoot = false) (hm : f.message = r.helpText)
    (hr : r.Compiled) :
    f.missingField = some (.missing ⟨r.context.bare.text, r.tag.bare.text,
      f.span.map Span.location⟩) := by
  obtain ⟨rest, hbefore, -⟩ := r.beforeFirst_helpText hr
  have hfirst : (String.ofList (beforeFirst "but trait".toList f.message.toList)).toList =
      unmetLine r rest := by
    rw [String.toList_ofList (l := beforeFirst "but trait".toList f.message.toList), hm, hbefore]
  have htrait : r.trait.bare = Contract.fieldTree [] r.tag.bare := rfl
  unfold missingField
  rw [hroot, if_neg Bool.false_ne_true, notImplemented_unmetLine hr hfirst, Option.map_some]
  dsimp only [bind, Option.bind]
  rw [Tree.stripPaths_text hr.trait.parts, Tree.stripPaths_text hr.context.parts, htrait,
    Contract.classify_fieldTree, Contract.tag?_fieldTree]
  rfl

/-- Words that name another field, read where they stand. -/
theorem readParts_otherLine (hr : r.Compiled) :
    readParts [.words "but trait `", .name, .words "` is implemented for it"] r.otherLine =
      r.other.map fun o => [o.trait.text] := by
  rw [FieldRefusal.otherLine]
  cases hother : r.other with
  | none => rfl
  | some o =>
    have ho := hr.other o hother
    have hline : "but trait ".toList ++
        '`' :: (o.trait.print ++ "` is implemented for it".toList) =
          "but trait `".toList ++ (o.trait.print ++ '`' :: " is implemented for it".toList) := by
      simp
    have hlast : '`' :: " is implemented for it".toList =
        "` is implemented for it".toList ++ [] := by
      decide
    dsimp only
    rw [hline, readParts_words, readParts_name o.trait.print_ne_nil ho.tick, hlast,
      readParts_words]
    rfl

theorem butImplemented_help (hm : f.message = r.helpText) (hr : r.Compiled) :
    butImplemented f.message = r.other.map fun o => o.trait.text := by
  obtain ⟨rest, hbefore, htail⟩ := r.beforeFirst_helpText hr
  have hmark : ∀ s : List Char, ¬"but trait".toList <+: s →
      readParts [.words "but trait `", .name, .words "` is implemented for it"] s = none :=
    fun s hs => readParts_words_eq_none (fun hp => hs (List.IsPrefix.trans (by decide) hp)) _
  rw [← hbefore] at htail
  have hplace := firstPlace_beforeFirst hmark htail
  have hread := readParts_otherLine hr
  rw [butImplemented, hm, phraseIn, hplace]
  cases hother : r.other with
  | none =>
    rw [FieldRefusal.otherLine, hother]
    rfl
  | some o =>
    rw [hother, Option.map_some] at hread
    rw [firstPlace_of_some hread]
    rfl

theorem otherTypes_help (hm : f.message = r.helpText) (hr : r.Compiled) (hother : r.other = none) :
    otherTypes f.message = none := by
  refine otherTypes_eq_none ?_
  rw [hm, FieldRefusal.helpText, hother]
  dsimp only
  rw [r.toList_unmet]
  exact not_infix_pairLine (by decide) (by decide) hr.trait hr.context
    ((not_infix_iff (by decide)).2 (by decide)) ((not_infix_iff (by decide)).2 (by decide))
    ((not_infix_iff (by decide)).2 rfl)

theorem alternateImpl_help (hroot : f.isRoot = false) (hm : f.message = r.helpText)
    (hr : r.Compiled) :
    f.alternateImpl = r.other.map fun o =>
      .alternate ⟨some r.context.bare.text, Contract.fieldAccessTrait, [o.tag.bare.text]⟩ := by
  obtain ⟨rest, -, htail⟩ := r.beforeFirst_helpText hr
  have hline : f.message.toList = unmetLine r (rest ++ r.otherLine) := by
    rw [hm, htail]
    simp [unmetLine, pairLine]
  have hunmet := notImplemented_unmetLine hr hline
  unfold alternateImpl
  rw [hroot, if_neg Bool.false_ne_true, butImplemented_help hm hr, hunmet]
  cases hother : r.other with
  | none =>
    rw [Option.map_none]
    dsimp only
    rw [otherTypes_help hm hr hother]
    rfl
  | some o =>
    have htrait : o.trait.bare = Contract.fieldTree [] o.tag.bare := rfl
    rw [Option.map_some]
    dsimp only [Option.map_some]
    rw [Tree.stripPaths_text (hr.other o hother).parts, Tree.stripPaths_text hr.context.parts,
      htrait, Tree.parseGeneric_text]
    rfl

theorem facts_help (hroot : f.isRoot = false) (hm : f.message = r.helpText) (hr : r.Compiled) :
    f.facts = .missing ⟨r.context.bare.text, r.tag.bare.text, f.span.map Span.location⟩ ::
      (r.other.map fun o =>
        .alternate ⟨some r.context.bare.text, Contract.fieldAccessTrait,
          [o.tag.bare.text]⟩).toList := by
  have hline := (congrArg String.toList (firstLine_help hm hr)).trans r.toList_unmet
  have hfor := requiredFor_eq_none hline (by decide)
  rw [facts, findings, unsatisfiedBound_note hroot, requirement_eq_none hfor,
    requiredByBound_eq_none hline (by decide), missingField_help hroot hm hr,
    alternateImpl_help hroot hm hr, blanketRule_eq_none hfor]
  cases r.other <;> rfl

end Help

section Header

variable {r : FieldRefusal}

theorem firstLine_header (hm : f.message = r.header) (hr : r.Compiled) :
    f.firstLine = r.header := by
  have hwords : OneLine "the trait bound ".toList := by decide
  have hcolon : OneLine [':', ' '] := by decide
  have hlast : OneLine " is not satisfied".toList := by decide
  rw [firstLine, hm]
  refine firstLine_of_noBreak ?_ ?_
  · rw [r.toList_header]
    exact hwords.append_tick ((hr.context.line.append
      (hcolon.append hr.trait.line)).append_tick hlast)
  · rw [r.toList_header]
    exact strip_of_ends (a := 't') rfl (b := 'd') (by simp [List.getLast?_cons]) (by decide)
      (by decide)

theorem headerBound_header (hm : f.message = r.header) (hr : r.Compiled) :
    f.headerBound = some (r.context.bare.text, (Contract.fieldTree [] r.tag.bare).text) := by
  have hlist : r.header.toList = "the trait bound `".toList ++
      (r.context.print ++ ':' :: ' ' :: r.trait.print ++ "` is not satisfied".toList) := by
    rw [r.toList_header]
    simp
  have htrait : r.trait.bare = Contract.fieldTree [] r.tag.bare := rfl
  rw [headerBound, firstLine_header hm hr, hlist, afterChars?_append, Option.bind_some,
    beforeLast_append _ _ (by decide), Option.filter_some, if_pos (by simp),
    Option.bind_some, Tree.stripPaths_bound hr.context.parts hr.trait.parts, splitBound,
    String.toList_ofList, Tree.bound?_print, htrait]
  rfl

theorem facts_header (hroot : f.isRoot = true) (hm : f.message = r.header) (hr : r.Compiled) :
    f.facts = [.unsatisfied ⟨r.context.bare.text, (Contract.fieldTree [] r.tag.bare).text,
        f.span.map Span.location⟩, .missing ⟨r.context.bare.text, r.tag.bare.text, none⟩] := by
  have hbound := headerBound_header hm hr
  have hmissing : f.missingField =
      some (.missing ⟨r.context.bare.text, r.tag.bare.text, none⟩) := by
    unfold missingField
    rw [hroot, if_pos rfl, hbound]
    dsimp only [bind, Option.bind]
    rw [Contract.classify_fieldTree, Contract.tag?_fieldTree]
    rfl
  have hnotes : f.requirement = none ∧ f.requiredByBound = none ∧ f.alternateImpl = none ∧
      f.blanketRule = none := by
    unfold requirement requiredByBound alternateImpl blanketRule
    rw [hroot]
    exact ⟨rfl, rfl, rfl, rfl⟩
  obtain ⟨hrequirement, hrequired, halternate, hblanket⟩ := hnotes
  rw [facts, findings, hrequirement, hrequired, hmissing, halternate, hblanket, unsatisfiedBound,
    hroot, if_pos rfl, hbound]
  rfl

end Header

end Fragment

def Fragment.ofNote (d : Diagnostic) : Fragment :=
  ⟨d.level, d.message, d.primarySpan.or d.spans.head?, false⟩

theorem Diagnostic.facts_eq (d : Diagnostic) :
    d.facts = (Fragment.mk d.level d.message d.primarySpan true).facts ++
      d.children.flatMap fun c => (Fragment.ofNote c).facts := by
  rw [facts, Fragment.ofDiagnostic, List.flatMap_cons, List.flatMap_map]
  rfl

namespace FieldRefusal

variable {r : FieldRefusal} {d : Diagnostic}

/-- A diagnostic of a missing field gives exactly the facts that it states, in their order. -/
theorem facts_of_shows (hr : r.Compiled) (hd : r.Shows d) : d.facts = r.facts d := by
  have hheader := Fragment.facts_header (f := ⟨d.level, d.message, d.primarySpan, true⟩) rfl
    hd.header hr
  have hhelp := Fragment.facts_help (f := .ofNote r.help) rfl hd.help hr
  have hrequired : ∀ n ∈ r.required, (Fragment.ofNote n.note).facts = n.facts := by
    intro n hn
    obtain ⟨hs, ht⟩ := hr.required n hn
    rw [Fragment.facts_required rfl (hd.required n hn) hs ht, RequiredNote.facts, Diagnostic.place,
      Option.map_map]
    rfl
  have hlast := Fragment.facts_last (f := .ofNote r.last) rfl hd.last hr.check
  rw [d.facts_eq, hd.children, hheader, List.flatMap_cons, hhelp, List.flatMap_append,
    List.flatMap_map, List.flatMap_congr hrequired, List.flatMap_singleton, hlast, facts]
  simp [Fragment.ofNote, Diagnostic.place]

def appModules : List Name := [⟨"app".toList, by decide, by decide⟩]

def libraryModules : List Name := [⟨"cgp".toList, by decide, by decide⟩]

def appTree : Tree := .leaf ⟨appModules, ⟨"App".toList, by decide, by decide⟩⟩

def lineSpan (line : Int) : Span := ⟨"src/lib.rs", line, line, 1, 9, true, 0, 8, none, []⟩

def noteOf (message : String) (spans : List Span) : Diagnostic :=
  ⟨"note", message, none, spans, [], none, none⟩

/-- A provider's requirement, by the rule of line 12. -/
def areaNote : RequiredNote where
  subject := .leaf ⟨appModules, ⟨"Area".toList, by decide, by decide⟩⟩
  trait := .applied ⟨libraryModules, ⟨Contract.providerUseTrait.toList, by decide, by decide⟩⟩
    (.more (.leaf ⟨appModules, ⟨"AreaPart".toList, by decide, by decide⟩⟩) FieldName.space
      (.last appTree))
  note := noteOf ("required for `app::Area` to implement " ++
    "`cgp::IsProviderFor<app::AreaPart, app::App>`") [lineSpan 12]

/-- A field of two places, the second one hidden, that is not in a context with another field. -/
def heightRefusal : FieldRefusal where
  context := appTree
  path := libraryModules
  tag := FieldName.tagTree libraryModules
    [⟨.chars, _, some 'h', .visible (.raw (by decide) (by decide))⟩, ⟨.iota, _, none, .hidden⟩]
  other := some ⟨⟨[' ', ' '], by decide⟩, libraryModules, FieldName.tagTree libraryModules
    [⟨.chars, _, some 'w', .visible (.raw (by decide) (by decide))⟩]⟩
  required := [areaNote]
  check := .leaf ⟨appModules, ⟨"CanUseArea".toList, by decide, by decide⟩⟩
  help := noteOf ("the trait `cgp::HasField<cgp::Symbol<2, cgp::Chars<'h', ι<_, cgp::Nil>>>>` " ++
    "is not implemented for `app::App`\n" ++
    "  but trait `cgp::HasField<cgp::Symbol<1, cgp::Chars<'w', cgp::Nil>>>` " ++
    "is implemented for it") [lineSpan 5]
  last := noteOf "required by a bound in `app::CanUseArea`" []

def heightDiagnostic : Diagnostic where
  level := "error"
  message := "the trait bound `app::App: " ++
    "cgp::HasField<cgp::Symbol<2, cgp::Chars<'h', ι<_, cgp::Nil>>>>` is not satisfied"
  code := some "E0277"
  spans := [lineSpan 20]
  children := [heightRefusal.help, areaNote.note, heightRefusal.last]
  rendered := none
  origin := none

theorem compiled_height : heightRefusal.Compiled := by
  have hplain : ∀ {modules : List Name} {name : Name}, (∀ n ∈ modules, n.IsAscii) →
      leadsTo name.chars = true → Head.Plain ⟨modules, name⟩ :=
    fun hmodules hname => ⟨hmodules, fun _ => hname⟩
  have happ : ∀ n ∈ appModules, n.IsAscii := by decide
  have hlibrary : ∀ n ∈ libraryModules, n.IsAscii := by decide
  have hcontext : appTree.Compiled := ⟨hplain happ rfl, by decide +kernel, by decide +kernel⟩
  have htag : ∀ nodes, (FieldName.tagTree libraryModules nodes).Forall Head.Plain IsWritten :=
    FieldName.forall_tagTree hlibrary
  refine ⟨hcontext, ⟨⟨hplain hlibrary rfl, htag _⟩, by decide +kernel, by decide +kernel⟩, ?_, ?_,
    ⟨hplain happ rfl, by decide +kernel, by decide +kernel⟩⟩
  · intro o ho
    cases ho
    exact ⟨⟨hplain hlibrary rfl, htag _⟩, by decide +kernel, by decide +kernel⟩
  · intro n hn
    obtain rfl := List.mem_singleton.1 hn
    exact ⟨⟨hplain happ rfl, by decide +kernel, by decide +kernel⟩,
      ⟨⟨hplain hlibrary rfl, hplain happ rfl, hcontext.parts⟩, by decide +kernel,
        by decide +kernel⟩⟩

theorem shows_height : heightRefusal.Shows heightDiagnostic where
  header := by
    rw [← String.toList_inj, toList_header, heightDiagnostic, String.toList_append]
    decide +kernel
  help := by
    rw [← String.toList_inj, toList_helpText, heightRefusal, noteOf]
    simp only [String.toList_append]
    decide +kernel
  required := by
    intro n hn
    obtain rfl := List.mem_singleton.1 hn
    rw [← String.toList_inj, RequiredNote.toList_text, areaNote, noteOf, String.toList_append]
    decide +kernel
  last := by
    rw [← String.toList_inj, toList_lastText]
    decide +kernel
  children := rfl

theorem facts_of_shows_height : heightRefusal.Compiled ∧ heightRefusal.Shows heightDiagnostic ∧
    heightDiagnostic.facts =
      [.unsatisfied ⟨"App", "HasField<Symbol<2, Chars<'h', ι<_, Nil>>>>",
          some ⟨"src/lib.rs", 20, 1⟩⟩,
        .missing ⟨"App", "Symbol<2, Chars<'h', ι<_, Nil>>>", none⟩,
        .missing ⟨"App", "Symbol<2, Chars<'h', ι<_, Nil>>>", some ⟨"src/lib.rs", 5, 1⟩⟩,
        .alternate ⟨some "App", "HasField", ["Symbol<1, Chars<'w', Nil>>"]⟩,
        .required ⟨"Area", "IsProviderFor<AreaPart, App>", areaNote.note.message⟩,
        .blanket ⟨"Area", ⟨"src/lib.rs", 12, 1⟩⟩, .requiredBy "CanUseArea"] := by
  have hfacts := facts_of_shows compiled_height shows_height
  exact ⟨compiled_height, shows_height, hfacts.trans rfl⟩

end FieldRefusal

end TraitTrace
