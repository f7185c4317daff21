import TraitTrace.Proofs.Chain.Shape

/-! Facts that can be read. Reading facts as a chain decodes the tags of the fields that the chain
names and nothing else, so that only a tag that cannot be decoded stops it. -/

namespace TraitTrace.Chain

open TraitTrace.Path TypeExpr

/-- The tag that a trait gives access to, if it is a field access. -/
def accessTag? (traitText : String) : Option String :=
  match Contract.classify traitText with
  | .fieldAccess tag => some tag
  | _ => none

theorem exists_addRequirements_iff {checkName : Option String} {missing : Option MissingField}
    {header : Option UnsatisfiedBound} {rs : List Requirement} {p : Path} :
    (∃ q, addRequirements checkName missing header p rs = .ok q) ↔
      ∀ r ∈ rs, ∀ tag, accessTag? r.traitName = some tag → ∃ name, FieldName.decode tag = .ok name
      := by
  induction rs generalizing p with
  | nil => exact ⟨fun _ r hr => absurd hr List.not_mem_nil, fun _ => ⟨p, rfl⟩⟩
  | cons r rs ih =>
    rw [List.forall_mem_cons, accessTag?, addRequirements]
    cases Contract.classify r.traitName with
    | consumerUse marker => simpa using ih
    | providerUse marker context extra => simpa using ih
    | fieldAccess tag =>
      dsimp only
      constructor
      · rintro ⟨q, hq⟩
        obtain ⟨name, hname, hq⟩ := bind_ok.1 hq
        refine ⟨fun t ht => ?_, ih.1 ⟨q, hq⟩⟩
        obtain rfl := Option.some.inj ht
        exact ⟨name, hname⟩
      · rintro ⟨htag, hrest⟩
        obtain ⟨name, hname⟩ := htag tag rfl
        obtain ⟨q, hq⟩ := ih.2 hrest
        exact ⟨q, bind_ok.2 ⟨name, hname, hq⟩⟩
    | plainTrait name args =>
      dsimp only
      split <;> simpa using ih

theorem exists_headerStep_iff (subject traitText : String) :
    (∃ s, headerStep subject traitText (Contract.classify traitText) = .ok s) ↔
      ∀ tag, accessTag? traitText = some tag → ∃ name, FieldName.decode tag = .ok name := by
  rw [accessTag?]
  cases Contract.classify traitText with
  | consumerUse marker => exact ⟨fun _ _ => nofun, fun _ => ⟨_, rfl⟩⟩
  | providerUse marker context extra => exact ⟨fun _ _ => nofun, fun _ => ⟨_, rfl⟩⟩
  | plainTrait name args => exact ⟨fun _ _ => nofun, fun _ => ⟨_, rfl⟩⟩
  | fieldAccess tag =>
    constructor
    · rintro ⟨s, hs⟩ t ht
      obtain rfl := Option.some.inj ht
      obtain ⟨name, hname, -⟩ := map_ok.1 hs
      exact ⟨name, hname⟩
    · intro h
      obtain ⟨name, hname⟩ := h tag rfl
      exact ⟨_, map_ok.2 ⟨name, hname, rfl⟩⟩

theorem exists_addHeader_iff {p : Path} {b : UnsatisfiedBound} :
    (∃ q, addHeader p b = .ok q) ↔
      ∀ tag, accessTag? b.traitName = some tag → ∃ name, FieldName.decode tag = .ok name := by
  rw [← exists_headerStep_iff b.context]
  have halone : ∀ f : Step → Path,
      (∃ q, (headerStep b.context b.traitName (Contract.classify b.traitName)).map f = .ok q) ↔
        ∃ s, headerStep b.context b.traitName (Contract.classify b.traitName) = .ok s := by
    intro f
    constructor
    · rintro ⟨q, hq⟩
      obtain ⟨s, hs, -⟩ := map_ok.1 hq
      exact ⟨s, hs⟩
    · rintro ⟨s, hs⟩
      exact ⟨f s, map_ok.2 ⟨s, hs, rfl⟩⟩
  unfold addHeader
  dsimp only
  split
  · exact halone _
  · -- Only the header's own step is decoded, and no field access is settled otherwise.
    cases hshape : Contract.classify b.traitName with
    | fieldAccess tag => simpa [isSameRequirement, hshape] using halone _
    | consumerUse marker => exact ⟨fun _ => ⟨_, rfl⟩, fun _ => by split <;> exact ⟨_, rfl⟩⟩
    | providerUse marker context extra =>
      exact ⟨fun _ => ⟨_, rfl⟩, fun _ => by split <;> exact ⟨_, rfl⟩⟩
    | plainTrait name args =>
      refine ⟨fun _ => ⟨_, rfl⟩, fun _ => ?_⟩
      dsimp only
      repeat' split
      all_goals exact ⟨_, rfl⟩

/-- The tag of another field that the context of the missing field has, if a hint tells one. -/
def siblingTag? (m : MissingField) (a : AlternateImpl) : Option String :=
  match a.context, a.otherArgs with
  | some context, tag :: _ => if a.isAnchored && sameType context m.context then some tag else none
  | _, _ => none

theorem siblingName_eq (m : MissingField) (name : FieldName) (a : AlternateImpl) :
    siblingName m name a =
      match siblingTag? m a with
      | some tag => (FieldName.decode tag).map fun other => if other = name then none else some other
      | none => .ok none := by
  unfold siblingName siblingTag?
  cases a.context with
  | none => rfl
  | some context =>
    cases a.otherArgs with
    | nil => rfl
    | cons tag more =>
      dsimp only
      split <;> rfl

theorem exists_siblings_iff (m : MissingField) (name : FieldName) (parent : Option Nat)
    (as : List AlternateImpl) :
    (∃ beside, siblings m name parent as = .ok beside) ↔
      ∀ a ∈ as, ∀ tag, siblingTag? m a = some tag → ∃ other, FieldName.decode tag = .ok other := by
  induction as with
  | nil => exact ⟨fun _ a ha => absurd ha List.not_mem_nil, fun _ => ⟨[], rfl⟩⟩
  | cons a as ih =>
    rw [List.forall_mem_cons, ← ih, siblings, siblingName_eq]
    constructor
    · rintro ⟨beside, h⟩
      obtain ⟨other, hother, h⟩ := bind_ok.1 h
      obtain ⟨more, hmore, -⟩ := bind_ok.1 h
      refine ⟨fun tag htag => ?_, more, hmore⟩
      rw [htag] at hother
      obtain ⟨decoded, hdecoded, -⟩ := map_ok.1 hother
      exact ⟨decoded, hdecoded⟩
    · rintro ⟨htag, more, hmore⟩
      have hother : ∃ other, (match siblingTag? m a with
          | some tag =>
            (FieldName.decode tag).map fun other => if other = name then none else some other
          | none => .ok none) = .ok other := by
        cases h : siblingTag? m a with
        | none => exact ⟨none, rfl⟩
        | some tag =>
          obtain ⟨decoded, hdecoded⟩ := htag tag h
          exact ⟨_, map_ok.2 ⟨decoded, hdecoded, rfl⟩⟩
      obtain ⟨other, hother⟩ := hother
      cases other with
      | none => exact ⟨more, bind_ok.2 ⟨none, hother, bind_ok.2 ⟨more, hmore, rfl⟩⟩⟩
      | some other => exact ⟨_, bind_ok.2 ⟨some other, hother, bind_ok.2 ⟨more, hmore, rfl⟩⟩⟩

/-- The tags that are decoded when facts are read. -/
def readTags (facts : List Fact) : List String :=
  (facts.filterMap Fact.required?).filterMap (fun r => accessTag? r.traitName) ++
    match primaryMissing facts, (facts.filterMap Fact.unsatisfied?).head? with
    | some m, _ => m.tag :: (facts.filterMap Fact.alternate?).filterMap (siblingTag? m)
    | none, some b => (accessTag? b.traitName).toList
    | none, none => []

/-- Ends a chain whose requirements were added. -/
def ending (facts : List Fact) (p : Path) : Except Fault (List Step) := do
  match primaryMissing facts, (facts.filterMap Fact.unsatisfied?).head? with
  | some m, _ =>
    let name ← FieldName.decode m.tag
    let p := addMissing p m name
    let beside ← siblings m name (p.head?.bind Step.parent) (facts.filterMap Fact.alternate?)
    return p.reverse ++ beside
  | none, some b => return (← addHeader p b).reverse
  | none, none => return p.markUnsatisfied.reverse

theorem exists_ending_iff {facts : List Fact} {p : Path} :
    (∃ steps, ending facts p = .ok steps) ↔
      ∀ tag ∈ (match primaryMissing facts, (facts.filterMap Fact.unsatisfied?).head? with
        | some m, _ => m.tag :: (facts.filterMap Fact.alternate?).filterMap (siblingTag? m)
        | none, some b => (accessTag? b.traitName).toList
        | none, none => []), ∃ name, FieldName.decode tag = .ok name := by
  unfold ending
  cases primaryMissing facts with
  | some m =>
    dsimp only
    rw [List.forall_mem_cons]
    constructor
    · rintro ⟨steps, h⟩
      obtain ⟨name, hname, h⟩ := bind_ok.1 h
      obtain ⟨beside, hbeside, -⟩ := bind_ok.1 h
      refine ⟨⟨name, hname⟩, fun tag htag => ?_⟩
      obtain ⟨a, ha, htag⟩ := List.mem_filterMap.1 htag
      exact (exists_siblings_iff ..).1 ⟨beside, hbeside⟩ a ha tag htag
    · rintro ⟨⟨name, hname⟩, hbeside⟩
      obtain ⟨beside, hbeside⟩ := (exists_siblings_iff m name
        ((addMissing p m name).head?.bind Step.parent) (facts.filterMap Fact.alternate?)).2
        fun a ha tag htag => hbeside tag (List.mem_filterMap.2 ⟨a, ha, htag⟩)
      exact ⟨_, bind_ok.2 ⟨name, hname, bind_ok.2 ⟨beside, hbeside, rfl⟩⟩⟩
  | none =>
    cases (facts.filterMap Fact.unsatisfied?).head? with
    | some b =>
      simp only [Option.mem_toList]
      rw [← exists_addHeader_iff (p := p)]
      constructor
      · rintro ⟨steps, h⟩
        obtain ⟨q, hq, -⟩ := bind_ok.1 h
        exact ⟨q, hq⟩
      · rintro ⟨q, hq⟩
        exact ⟨_, bind_ok.2 ⟨q, hq, rfl⟩⟩
    | none => exact ⟨fun _ tag htag => absurd htag List.not_mem_nil, fun _ => ⟨_, rfl⟩⟩

theorem exists_stepsOf_iff {facts : List Fact} {context checkName : Option String} :
    (∃ steps, stepsOf facts context checkName = .ok steps) ↔
      ∀ tag ∈ readTags facts, ∃ name, FieldName.decode tag = .ok name := by
  have hrequired : (∃ p, addRequirements checkName (primaryMissing facts)
        (facts.filterMap Fact.unsatisfied?).head? (startPath context checkName)
        (facts.filterMap Fact.required?).reverse = .ok p) ↔
      ∀ tag ∈ (facts.filterMap Fact.required?).filterMap (fun r => accessTag? r.traitName),
        ∃ name, FieldName.decode tag = .ok name := by
    rw [exists_addRequirements_iff]
    simp only [List.mem_reverse, List.mem_filterMap]
    exact ⟨fun h tag ⟨r, hr, htag⟩ => h r hr tag htag, fun h r hr tag htag => h tag ⟨r, hr, htag⟩⟩
  unfold readTags
  rw [List.forall_mem_append, ← hrequired]
  constructor
  · rintro ⟨steps, h⟩
    obtain ⟨p, hp, h⟩ := bind_ok.1 h
    exact ⟨⟨p, hp⟩, exists_ending_iff.1 ⟨steps, h⟩⟩
  · rintro ⟨⟨p, hp⟩, hend⟩
    obtain ⟨steps, h⟩ := (exists_ending_iff (p := p)).2 hend
    exact ⟨steps, bind_ok.2 ⟨p, hp, h⟩⟩

end TraitTrace.Chain
