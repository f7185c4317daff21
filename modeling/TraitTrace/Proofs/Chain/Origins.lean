import TraitTrace.Proofs.Chain.Shape

/-! Requirements and their steps. Every requirement but the checked trait leaves one step in the
chain, outermost first, and the step says what the requirement says. What ends the path changes at
most the status of its last step and the trait of a provider. -/

namespace TraitTrace

/-- Whether a requirement leaves a step; the checked trait does not. -/
def Requirement.leavesStep (checkName : Option String) (r : Requirement) : Bool :=
  match Contract.classify r.traitName with
  | .plainTrait name _ => checkName ≠ some name
  | _ => true

namespace Step

/-- A step that says what a requirement says, whatever its place and its status. -/
def Says (s : Step) (r : Requirement) : Prop :=
  match Contract.classify r.traitName with
  | .consumerUse marker =>
    s.kind = .consumer ∧ s.context = some r.subject ∧ s.marker = some marker
  | .providerUse marker context extra =>
    s.kind = .provider ∧ s.context = context ∧ s.marker = some marker ∧
      s.provider = some r.subject ∧ s.extraArgs = extra
  | .fieldAccess _ => s.kind = .field ∧ s.context = some r.subject
  | .plainTrait name args =>
    (s.kind = .getter ∨ s.kind = .consumer) ∧ s.context = some r.subject ∧ s.marker = none ∧
      s.contract = some (Contract.traitText name args)

theorem Says.keeps {s t : Step} {r : Requirement} (hs : s.Says r) (ht : s.Keeps t) : t.Says r := by
  unfold Says at hs ⊢
  split at hs
  · obtain ⟨hkind, hcontext, hmarker⟩ := hs
    exact ⟨ht.kind.trans hkind, ht.context.trans hcontext, ht.marker.trans hmarker⟩
  · obtain ⟨hkind, hcontext, hmarker, hprovider, hextra⟩ := hs
    exact ⟨ht.kind.trans hkind, ht.context.trans hcontext, ht.marker.trans hmarker,
      ht.provider.trans hprovider, ht.extraArgs.trans hextra⟩
  · exact ⟨ht.kind.trans hs.1, ht.context.trans hs.2⟩
  · obtain ⟨hkind, hcontext, hmarker, hcontract⟩ := hs
    have hplain : s.kind ≠ .provider := by
      rcases hkind with h | h <;> rw [h] <;> nofun
    rw [ht.kind, ht.context, ht.marker, ht.contract hplain]
    exact ⟨hkind, hcontext, hmarker, hcontract⟩

section Shapes

variable {r : Requirement}

theorem says_consumerUse {marker : String}
    (h : Contract.classify r.traitName = .consumerUse marker) :
    (consumerUse r.subject marker).Says r := by
  rw [Says, h]
  exact ⟨rfl, rfl, rfl⟩

theorem says_providerUse {marker : String} {context : Option String} {extra : List String}
    (h : Contract.classify r.traitName = .providerUse marker context extra) :
    (providerUse r.subject marker context extra).Says r := by
  rw [Says, h]
  exact ⟨rfl, rfl, rfl, rfl, rfl⟩

theorem says_fieldOf {tag : String} (h : Contract.classify r.traitName = .fieldAccess tag)
    (name : FieldName) : (fieldOf r.subject name).Says r := by
  rw [Says, h]
  exact ⟨rfl, rfl⟩

theorem says_plain {name : String} {args : List String}
    (h : Contract.classify r.traitName = .plainTrait name args) (isGetter : Bool) :
    (if isGetter then getter r.subject (Contract.traitText name args)
      else consumerTrait r.subject (Contract.traitText name args)).Says r := by
  rw [Says, h]
  cases isGetter with
  | true => exact ⟨.inl rfl, rfl, rfl, rfl⟩
  | false => exact ⟨.inr rfl, rfl, rfl, rfl⟩

end Shapes

end Step

namespace Path

/-- A path that has the steps of another one below further ones. -/
def Retains (p q : Path) : Prop := ∃ more p', q = more ++ p' ∧ List.Forall₂ Step.Keeps p p'

theorem forall₂_keeps (p : Path) : List.Forall₂ Step.Keeps p p :=
  List.forall₂_same.2 fun s _ => .refl s

theorem Ends.retains {p q : Path} (h : Ends p q) : p.Retains q := by
  cases h with
  | below _ _ => exact ⟨[_], p, rfl, forall₂_keeps p⟩
  | change hkeeps _ _ => exact ⟨[], _, rfl, .cons hkeeps (forall₂_keeps _)⟩

end Path

namespace Chain

open TraitTrace.Path

/-- Requirements that leave steps leave them in their order. -/
theorem says_addRequirements {checkName : Option String} {missing : Option MissingField}
    {header : Option UnsatisfiedBound} {rs : List Requirement} {p q : Path}
    (hq : addRequirements checkName missing header p rs = .ok q) :
    ∃ made, q = made.reverse ++ p ∧
      List.Forall₂ (fun r s => s.Says r) (rs.filter (Requirement.leavesStep checkName)) made := by
  induction rs generalizing p with
  | nil =>
    cases hq
    exact ⟨[], rfl, .nil⟩
  | cons r rs ih =>
    -- A step that says what the requirement says comes on top of the path.
    have hstep : ∀ {s : Step} {p' : Path}, s.Says r → r.leavesStep checkName = true →
        (∃ parent, p' = { s with parent := parent } :: p) →
        addRequirements checkName missing header p' rs = .ok q →
        ∃ made, q = made.reverse ++ p ∧
          List.Forall₂ (fun r s => s.Says r) ((r :: rs).filter (Requirement.leavesStep checkName))
            made := by
      rintro s - hs hleaves ⟨parent, rfl⟩ hq
      obtain ⟨made, rfl, hmade⟩ := ih hq
      refine ⟨{ s with parent := parent } :: made, ?_, ?_⟩
      · rw [List.reverse_cons, List.append_assoc, List.singleton_append]
      · rw [List.filter_cons_of_pos hleaves]
        exact .cons (hs.keeps ⟨rfl, rfl, rfl, rfl, rfl, fun _ => rfl⟩) hmade
    unfold addRequirements at hq
    split at hq
    · rename_i marker hshape
      refine hstep (Step.says_consumerUse hshape) ?_ ⟨_, rfl⟩ hq
      rw [Requirement.leavesStep, hshape]
    · rename_i marker context extra hshape
      refine hstep (Step.says_providerUse hshape) ?_ (p.exists_addProvider _) hq
      rw [Requirement.leavesStep, hshape]
    · rename_i tag hshape
      obtain ⟨name, -, hq⟩ := bind_ok.1 hq
      refine hstep (Step.says_fieldOf hshape name) ?_ ⟨_, rfl⟩ hq
      rw [Requirement.leavesStep, hshape]
    · rename_i name args hshape
      have hleaves : r.leavesStep checkName = true ↔ checkName ≠ some name := by
        rw [Requirement.leavesStep, hshape]
        exact decide_eq_true_iff
      split at hq
      · rename_i hchecked
        rw [List.filter_cons_of_neg (fun h => hleaves.1 h hchecked)]
        exact ih hq
      · rename_i hchecked
        exact hstep (Step.says_plain hshape _) (hleaves.2 hchecked) ⟨_, rfl⟩ hq

theorem retains_stepsOf {facts : List Fact} {context checkName : Option String} {steps : List Step}
    (h : stepsOf facts context checkName = .ok steps) :
    ∃ p q beside, addRequirements checkName (primaryMissing facts)
        (facts.filterMap Fact.unsatisfied?).head? (startPath context checkName)
        (facts.filterMap Fact.required?).reverse = .ok p ∧
      p.Retains q ∧ steps = q.reverse ++ beside := by
  obtain ⟨p, hp, hended⟩ := ended_stepsOf h
  cases hended with
  | missing _ _ hends _ _ _ _ => exact ⟨p, _, _, hp, hends.retains, rfl⟩
  | header _ _ hends => exact ⟨p, _, [], hp, hends.retains, (List.append_nil _).symm⟩
  | last _ _ hends => exact ⟨p, _, [], hp, hends.retains, (List.append_nil _).symm⟩
  | nothing _ _ hnil =>
    rw [hnil] at hp
    exact ⟨[], [], [], hp, ⟨[], [], rfl, .nil⟩, rfl⟩

/-- The requirements of facts that leave steps, outermost first. -/
def leaving (facts : List Fact) (checkName : Option String) : List Requirement :=
  (facts.filterMap Fact.required?).reverse.filter (Requirement.leavesStep checkName)

theorem length_startPath (context checkName : Option String) :
    (startPath context checkName).length = checkName.toList.length := by
  cases checkName <;> rfl

theorem says_stepsOf {facts : List Fact} {context checkName : Option String} {steps : List Step}
    {r : Requirement} {k : Nat} (h : stepsOf facts context checkName = .ok steps)
    (hk : (leaving facts checkName)[k]? = some r) :
    ∃ s, steps[checkName.toList.length + k]? = some s ∧ s.Says r := by
  obtain ⟨p, q, beside, hp, ⟨more, p', rfl, hkeeps⟩, rfl⟩ := retains_stepsOf h
  obtain ⟨made, rfl, hmade⟩ := says_addRequirements hp
  obtain ⟨t, ht, hsays⟩ := forall₂_left hmade hk
  replace hkeeps := List.forall₂_reverse_iff.2 hkeeps
  rw [List.reverse_append, List.reverse_reverse] at hkeeps
  have hplace : ((startPath context checkName).reverse ++ made)[checkName.toList.length + k]? =
      some t := by
    rw [← length_startPath context, ← List.length_reverse, List.getElem?_append_right (by omega),
      Nat.add_sub_cancel_left]
    exact ht
  obtain ⟨s, hs, hkept⟩ := forall₂_left hkeeps hplace
  refine ⟨s, ?_, hsays.keeps hkept⟩
  rw [List.reverse_append, List.append_assoc, List.getElem?_append_left (lt_length_of_getElem? hs)]
  exact hs

/-- The step that a chain has for a requirement: such steps stand in the order of the requirements,
below the checked trait if there is one. -/
def Makes (facts : List Fact) (c : Chain) (r : Requirement) (s : Step) : Prop :=
  ∃ k : Nat, (leaving facts c.checkName)[k]? = some r ∧
    c.steps[c.checkName.toList.length + k]? = some s

theorem Makes.says {facts : List Fact} {context : Option String} {c : Chain} {r : Requirement}
    {s : Step} (hm : c.Makes facts r s) (h : ofFacts facts context = .ok c) : s.Says r := by
  obtain ⟨steps, hsteps, h⟩ := bind_ok.1 h
  cases h
  obtain ⟨k, hk, hs⟩ := hm
  obtain ⟨t, ht, hsays⟩ := says_stepsOf hsteps hk
  rw [ht] at hs
  rw [← Option.some.inj hs]
  exact hsays

end Chain

end TraitTrace
