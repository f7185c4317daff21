import TraitTrace.Fact.Fragment
import TraitTrace.Proofs.Text.Phrase
import TraitTrace.Proofs.TypeExpr.Spaced

/-! The diagnostic of a field that a context does not have: a header with the bound, a help line
that may go on with another field, notes on what requires the bound, and a last note on the check.
Its types stand between backticks, and none of the words around them is found in a type. -/

namespace TraitTrace

open Text TypeExpr

/-- Characters that stay on one line. -/
def OneLine (s : List Char) : Prop := ∀ c ∈ s, isLineBreak c = false

instance (s : List Char) : Decidable (OneLine s) := List.decidableBAll _ s

namespace TypeExpr.Tree

/-- A type as the compiler prints it: on one line, with paths of ASCII identifiers and with literals
that stand for characters. -/
structure Compiled (t : Tree) : Prop where
  parts : t.Forall Head.Plain IsWritten
  line : OneLine t.print
  tick : '`' ∉ t.print

/-- A use of a provider with arguments. -/
def usesProvider : Tree → Bool
  | applied head args =>
    head.name.chars = Contract.providerUseTrait.toList && !args.toList.isEmpty
  | _ => false

end TypeExpr.Tree

namespace Contract

def fieldName : Name := ⟨fieldAccessTrait.toList, by decide, by decide⟩

/-- `HasField` of a tag, with the modules that lead to it. -/
def fieldTree (path : List Name) (tag : Tree) : Tree := .applied ⟨path, fieldName⟩ (.last tag)

theorem classify_fieldTree (tag : Tree) :
    classify (fieldTree [] tag).text = .fieldAccess tag.text := by
  have hparse := (fieldTree [] tag).parseGeneric_text
  have hhead : String.ofList (fieldTree [] tag).headText = fieldAccessTrait := rfl
  rw [hhead] at hparse
  rw [classify, hparse]
  rfl

theorem tag?_fieldTree (tag : Tree) : FieldName.tag? (fieldTree [] tag).text = some tag.text := by
  rw [FieldName.tag?, Tree.parseGeneric_text]
  rfl

theorem exists_classify_providerUse {text name : String} {args : List String}
    (h : parseGeneric text = ⟨name, args⟩) :
    (∃ marker context extra, classify text = .providerUse marker context extra) ↔
      name = providerUseTrait ∧ args ≠ [] := by
  rw [classify, h]
  cases args with
  | nil => simp
  | cons first more =>
    dsimp only
    by_cases hprovider : name = providerUseTrait
    · have hconsumer : ¬providerUseTrait = consumerUseTrait := by decide
      rw [hprovider, if_neg hconsumer, if_pos rfl]
      exact ⟨fun _ => ⟨rfl, List.cons_ne_nil _ _⟩, fun _ => ⟨_, _, _, rfl⟩⟩
    · refine ⟨?_, fun h => absurd h.1 hprovider⟩
      rintro ⟨marker, context, extra, h⟩
      rw [if_neg hprovider] at h
      split at h
      · cases h
      · split at h <;> cases h

/-- Of printed traits, the uses of a provider with arguments are classified so. -/
theorem exists_classify_bare (t : Tree) :
    (∃ marker context extra, classify t.bare.text = .providerUse marker context extra) ↔
      t.usesProvider = true := by
  rw [exists_classify_providerUse t.bare.parseGeneric_text]
  cases t with
  | applied head args =>
    have hname : String.ofList head.name.chars = providerUseTrait ↔
        head.name.chars = providerUseTrait.toList :=
      ⟨fun h => by rw [← h, String.toList_ofList], fun h => by rw [h, String.ofList_toList]⟩
    simp [Tree.usesProvider, Tree.bare, Tree.headText, Tree.args, Head.bare_text, hname,
      args.toList_bare]
  | leaf head => simp [Tree.usesProvider, Tree.bare, Tree.args]
  | lifetime name => simp [Tree.usesProvider, Tree.bare, Tree.args]
  | literal chars isLiteral => simp [Tree.usesProvider, Tree.bare, Tree.args]
  | group bracket items => simp [Tree.usesProvider, Tree.bare, Tree.args]

end Contract

/-- Words with two types between backticks. -/
def pairLine (words between : List Char) (s t : Tree) (rest : List Char) : List Char :=
  words ++ '`' :: (s.print ++ '`' :: (between ++ '`' :: (t.print ++ '`' :: rest)))

section PairLine

variable {words between : List Char} {s t : Tree}

theorem readParts_pairLine {w v : String} (hw : w.toList = words ++ ['`'])
    (hv : v.toList = '`' :: (between ++ ['`'])) (hs : s.Compiled) (ht : t.Compiled)
    (rest : List Char) :
    readParts [.words w, .name, .words v, .name, .words "`"] (pairLine words between s t rest) =
      some [s.text, t.text] := by
  have htick : "`".toList = ['`'] := rfl
  have hlist : pairLine words between s t rest =
      w.toList ++ (s.print ++ '`' :: (between ++ '`' :: (t.print ++ '`' :: rest))) := by
    rw [hw, List.append_assoc]
    rfl
  have hnext : '`' :: (between ++ '`' :: (t.print ++ '`' :: rest)) =
      v.toList ++ (t.print ++ '`' :: rest) := by
    rw [hv, List.cons_append, List.append_assoc]
    rfl
  have hlast : '`' :: rest = "`".toList ++ rest := rfl
  rw [hlist, readParts_words, readParts_name s.print_ne_nil hs.tick, hnext, readParts_words,
    readParts_name t.print_ne_nil ht.tick, hlast, readParts_words]
  rfl

theorem not_infix_pairLine {mark rest : List Char} (htick : '`' ∉ mark) (hmark : ¬Spaced mark)
    (hs : s.Compiled) (ht : t.Compiled) (hwords : ¬mark <:+: words)
    (hbetween : ¬mark <:+: between) (hrest : ¬mark <:+: rest) :
    ¬mark <:+: pairLine words between s t rest :=
  not_infix_append htick hwords (not_infix_append htick (Tree.not_infix_print hs.parts hmark)
    (not_infix_append htick hbetween
      (not_infix_append htick (Tree.not_infix_print ht.parts hmark) hrest)))

end PairLine

/-- The place of a note, which is that of its first range if it has no primary one. -/
def Diagnostic.place (d : Diagnostic) : Option Location :=
  (d.primarySpan.or d.spans.head?).map Span.location

/-- A note that a trait is required for a subject. -/
structure RequiredNote where
  subject : Tree
  trait : Tree
  note : Diagnostic

namespace RequiredNote

def text (n : RequiredNote) : String :=
  "required for `" ++ n.subject.text ++ "` to implement `" ++ n.trait.text ++ "`"

/-- The requirement, and the place of the rule by which a provider requires it. -/
def facts (n : RequiredNote) : List Fact :=
  .required ⟨n.subject.bare.text, n.trait.bare.text, n.text⟩ ::
    if n.trait.usesProvider then
      (n.note.place.map fun place => .blanket ⟨n.subject.bare.text, place⟩).toList
    else []

end RequiredNote

/-- A field that the context has. -/
structure OtherField where
  indent : Gap
  path : List Name
  tag : Tree

namespace OtherField

def trait (o : OtherField) : Tree := Contract.fieldTree o.path o.tag

/-- The second line of the help line. -/
def text (o : OtherField) : String :=
  String.ofList o.indent.chars ++ "but trait `" ++ o.trait.text ++ "` is implemented for it"

end OtherField

/-- A field that a context does not have, with what the compiler says of it. -/
structure FieldRefusal where
  context : Tree
  path : List Name
  tag : Tree
  other : Option OtherField
  required : List RequiredNote
  check : Tree
  help : Diagnostic
  last : Diagnostic

namespace FieldRefusal

def trait (r : FieldRefusal) : Tree := Contract.fieldTree r.path r.tag

def header (r : FieldRefusal) : String :=
  "the trait bound `" ++ r.context.text ++ ": " ++ r.trait.text ++ "` is not satisfied"

def unmet (r : FieldRefusal) : String :=
  "the trait `" ++ r.trait.text ++ "` is not implemented for `" ++ r.context.text ++ "`"

def helpText (r : FieldRefusal) : String :=
  match r.other with
  | none => r.unmet
  | some o => r.unmet ++ "\n" ++ o.text

def lastText (r : FieldRefusal) : String := "required by a bound in `" ++ r.check.text ++ "`"

/-- A diagnostic with these messages; its ranges, levels and renderings may be any. -/
structure Shows (r : FieldRefusal) (d : Diagnostic) : Prop where
  header : d.message = r.header
  help : r.help.message = r.helpText
  required : ∀ n ∈ r.required, n.note.message = n.text
  last : r.last.message = r.lastText
  children : d.children = r.help :: (r.required.map RequiredNote.note ++ [r.last])

structure Compiled (r : FieldRefusal) : Prop where
  context : r.context.Compiled
  trait : r.trait.Compiled
  other : ∀ o ∈ r.other, o.trait.Compiled
  required : ∀ n ∈ r.required, n.subject.Compiled ∧ n.trait.Compiled
  check : r.check.Compiled

/-- What is stated: the bound, the field, once by the header and once by the help line, the other
field, the requirements and the check. -/
def facts (r : FieldRefusal) (d : Diagnostic) : List Fact :=
  let context := r.context.bare.text
  let tag := r.tag.bare.text
  [.unsatisfied ⟨context, (Contract.fieldTree [] r.tag.bare).text,
      d.primarySpan.map Span.location⟩,
    .missing ⟨context, tag, none⟩,
    .missing ⟨context, tag, r.help.place⟩] ++
  (r.other.map fun o =>
    .alternate ⟨some context, Contract.fieldAccessTrait, [o.tag.bare.text]⟩).toList ++
  r.required.flatMap RequiredNote.facts ++
  [.requiredBy (String.ofList r.check.bare.headText)]

end FieldRefusal

theorem OneLine.append {s t : List Char} (hs : OneLine s) (ht : OneLine t) : OneLine (s ++ t) :=
  List.forall_mem_append.2 ⟨hs, ht⟩

theorem OneLine.append_tick {s t : List Char} (hs : OneLine s) (ht : OneLine t) :
    OneLine (s ++ '`' :: t) :=
  hs.append (List.forall_mem_cons.2 ⟨by decide, ht⟩)

theorem oneLine_pairLine {words between rest : List Char} {s t : Tree} (hwords : OneLine words)
    (hbetween : OneLine between) (hs : s.Compiled) (ht : t.Compiled) (hrest : OneLine rest) :
    OneLine (pairLine words between s t rest) :=
  hwords.append_tick (hs.line.append_tick (hbetween.append_tick (ht.line.append_tick hrest)))

theorem strip_of_ends {s : List Char} {a b : Char} (ha : s.head? = some a)
    (hb : s.getLast? = some b) (hblank : isBlank a = false) (hblank' : isBlank b = false) :
    strip s = s := by
  refine strip_eq_self (fun c hc => ?_) fun c hc => ?_
  · rw [ha] at hc
    cases hc
    exact hblank
  · rw [hb] at hc
    cases hc
    exact hblank'

theorem getLast?_pairLine (words between : List Char) (s t : Tree) :
    (pairLine words between s t []).getLast? = some '`' := by
  simp [pairLine, List.getLast?_cons]

/-- A line of two types that begins with a word is its own first line. -/
theorem firstLine_pairLine {text : String} {c : Char} {words between : List Char} {s t : Tree}
    (htext : text.toList = pairLine (c :: words) between s t []) (hc : isBlank c = false)
    (hwords : OneLine (c :: words)) (hbetween : OneLine between) (hs : s.Compiled)
    (ht : t.Compiled) : Text.firstLine text = text := by
  refine firstLine_of_noBreak ?_ ?_
  · rw [htext]
    exact oneLine_pairLine hwords hbetween hs ht nofun
  · rw [htext]
    exact strip_of_ends rfl (getLast?_pairLine _ _ s t) hc (by decide)

theorem RequiredNote.toList_text (n : RequiredNote) : n.text.toList =
    pairLine "required for ".toList " to implement ".toList n.subject n.trait [] := by
  change ("required for `" ++ n.subject.text ++ "` to implement `" ++ n.trait.text ++
    "`").toList = _
  simp [pairLine, Tree.toList_text]

theorem FieldRefusal.toList_header (r : FieldRefusal) : r.header.toList =
    "the trait bound ".toList ++ '`' :: (r.context.print ++ ([':', ' '] ++ r.trait.print) ++
      '`' :: " is not satisfied".toList) := by
  change ("the trait bound `" ++ r.context.text ++ ": " ++ r.trait.text ++
    "` is not satisfied").toList = _
  simp [Tree.toList_text]

theorem FieldRefusal.toList_lastText (r : FieldRefusal) :
    r.lastText.toList = "required by a bound in ".toList ++ '`' :: (r.check.print ++ ['`']) := by
  change ("required by a bound in `" ++ r.check.text ++ "`").toList = _
  simp [Tree.toList_text]

/-- The first line of a help line, with what follows it. -/
def unmetLine (r : FieldRefusal) (rest : List Char) : List Char :=
  pairLine "the trait ".toList " is not implemented for ".toList r.trait r.context rest

theorem FieldRefusal.toList_unmet (r : FieldRefusal) : r.unmet.toList = unmetLine r [] := by
  change ("the trait `" ++ r.trait.text ++ "` is not implemented for `" ++ r.context.text ++
    "`").toList = _
  simp [unmetLine, pairLine, Tree.toList_text]

theorem OtherField.toList_text (o : OtherField) : o.text.toList =
    o.indent.chars ++ ("but trait ".toList ++
      '`' :: (o.trait.print ++ "` is implemented for it".toList)) := by
  change (String.ofList o.indent.chars ++ "but trait `" ++ o.trait.text ++
    "` is implemented for it").toList = _
  simp [Tree.toList_text]

namespace FieldRefusal

theorem toList_helpText (r : FieldRefusal) : r.helpText.toList =
    unmetLine r (match r.other with | none => [] | some o => '\n' :: o.text.toList) := by
  rw [helpText]
  cases r.other with
  | none => exact r.toList_unmet
  | some o =>
    dsimp only
    rw [String.toList_append, String.toList_append, r.toList_unmet]
    simp [unmetLine, pairLine]

/-- What follows the words that name another field. -/
def otherLine (r : FieldRefusal) : List Char :=
  match r.other with
  | none => []
  | some o => "but trait ".toList ++ '`' :: (o.trait.print ++ "` is implemented for it".toList)

/-- The words that name another field stand only in the second line. -/
theorem beforeFirst_helpText {r : FieldRefusal} (hr : r.Compiled) : ∃ rest,
    beforeFirst "but trait".toList r.helpText.toList = unmetLine r rest ∧
      r.helpText.toList = unmetLine r rest ++ r.otherLine := by
  have hlacks : ¬"but trait".toList <:+: unmetLine r [] :=
    not_infix_pairLine (by decide) (by decide) hr.trait hr.context
      ((not_infix_iff (by decide)).2 (by decide)) ((not_infix_iff (by decide)).2 (by decide))
      ((not_infix_iff (by decide)).2 rfl)
  have happend : ∀ rest : List Char, unmetLine r [] ++ rest = unmetLine r rest := by
    intro rest
    simp [unmetLine, pairLine]
  rw [r.toList_helpText, otherLine]
  cases r.other with
  | none => exact ⟨[], beforeFirst_eq_self hlacks, (List.append_nil _).symm⟩
  | some o =>
    have hgap : ∀ c ∈ o.indent.chars, "but trait".toList.head? ≠ some c := by
      intro c hc heq
      cases heq
      exact absurd (o.indent.all_blank _ hc) (by decide)
    have hsecond : "but trait ".toList ++
        '`' :: (o.trait.print ++ "` is implemented for it".toList) = "but trait".toList ++
          ' ' :: '`' :: (o.trait.print ++ "` is implemented for it".toList) := by
      simp
    dsimp only
    refine ⟨'\n' :: o.indent.chars, ?_, ?_⟩
    · rw [← happend, beforeFirst_append (by decide) hlacks, o.toList_text,
        beforeFirst_skip hgap (by decide), hsecond, beforeFirst_mark (by decide), List.append_nil,
        happend]
    · rw [o.toList_text, ← happend, ← happend ('\n' :: o.indent.chars), List.append_assoc,
        List.cons_append]

end FieldRefusal

end TraitTrace
