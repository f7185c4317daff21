import TraitTrace.Proofs.Chain.Shape
import TraitTrace.Registry.Lessons

/-! The context a chain is read with. Facts that tell a context are read with that one. Facts that
tell none have no header and no missing field, and then only the checked trait takes the context
that is given; so neither what stops the reading nor what the chain teaches depends on it. -/

namespace TraitTrace

namespace Step

/-- A checked trait in another context; every other step stays as it is. -/
def inContext (context : Option String) (s : Step) : Step :=
  if s.kind = .check then { s with context := context } else s

theorem inContext_of_ne {context : Option String} {s : Step} (h : s.kind ≠ .check) :
    s.inContext context = s := if_neg h

@[simp] theorem kind_inContext (context : Option String) (s : Step) :
    (s.inContext context).kind = s.kind := by
  unfold inContext
  split <;> rfl

@[simp] theorem parent_inContext (context : Option String) (s : Step) :
    (s.inContext context).parent = s.parent := by
  unfold inContext
  split <;> rfl

end Step

namespace Path

variable {context : Option String}

/-- A path with its checked trait in another context. -/
def inContext (context : Option String) (p : Path) : Path := p.map (Step.inContext context)

theorem inContext_below (p : Path) {s : Step} (hs : s.kind ≠ .check) :
    inContext context (p.below s) = (inContext context p).below s := by
  have hnew : ∀ parent, Step.inContext context { s with parent := parent } =
      { s with parent := parent } := fun parent => Step.inContext_of_ne hs
  rw [below, below, inContext, inContext, List.map_cons, hnew, List.isEmpty_map, List.length_map]

theorem inContext_beside (p : Path) {s : Step} (hs : s.kind ≠ .check) :
    inContext context (p.beside s) = (inContext context p).beside s := by
  have hnew : ∀ parent, Step.inContext context { s with parent := parent } =
      { s with parent := parent } := fun parent => Step.inContext_of_ne hs
  have hparent : (inContext context p).head?.bind Step.parent = p.head?.bind Step.parent := by
    cases p with
    | nil => rfl
    | cons last p => exact last.parent_inContext context
  rw [beside, beside, hparent, inContext, List.map_cons, hnew]
  rfl

theorem inContext_addProvider (p : Path) {s : Step} (hs : s.kind ≠ .check) :
    inContext context (p.addProvider s) = (inContext context p).addProvider s := by
  cases p with
  | nil => exact inContext_below [] hs
  | cons last p =>
    have hcase : (last.kind = .provider ∧ !last.nests s) ↔
        ((last.inContext context).kind = .provider ∧ !(last.inContext context).nests s) := by
      rw [Step.kind_inContext]
      apply and_congr_right
      intro hprovider
      rw [Step.inContext_of_ne (by rw [hprovider]; exact nofun)]
    have hcons : inContext context (last :: p) = last.inContext context :: inContext context p := rfl
    by_cases h : last.kind = .provider ∧ !last.nests s
    · rw [addProvider, if_pos h, inContext_beside _ hs, hcons, addProvider, if_pos (hcase.1 h)]
    · rw [addProvider, if_neg h, inContext_below _ hs, hcons, addProvider,
        if_neg fun h' => h (hcase.2 h')]

theorem inContext_markUnsatisfied (p : Path) :
    inContext context p.markUnsatisfied = (inContext context p).markUnsatisfied := by
  cases p with
  | nil => rfl
  | cons last p =>
    have hlast : Step.inContext context { last with status := .unsatisfied } =
        { last.inContext context with status := .unsatisfied } := by
      unfold Step.inContext
      dsimp only
      split <;> rfl
    rw [markUnsatisfied, mapLast, inContext, List.map_cons, hlast]
    rfl

end Path

namespace Chain

open TraitTrace.Path

theorem addRequirements_inContext (context checkName : Option String)
    (missing : Option MissingField) (header : Option UnsatisfiedBound) (p : Path)
    (rs : List Requirement) :
    addRequirements checkName missing header (p.inContext context) rs =
      (addRequirements checkName missing header p rs).map (Path.inContext context) := by
  induction rs generalizing p with
  | nil => rfl
  | cons r rs ih =>
    unfold addRequirements
    cases Contract.classify r.traitName with
    | consumerUse marker =>
      dsimp only
      rw [← inContext_below p (Step.isPlain_consumerUse _ _).1, ih]
    | providerUse marker provided extra =>
      dsimp only
      rw [← inContext_addProvider p (Step.isPlain_providerUse _ _ _ _).1, ih]
    | fieldAccess tag =>
      dsimp only
      cases FieldName.decode tag with
      | error fault => rfl
      | ok name =>
        change addRequirements _ _ _ _ rs = Except.map _ (addRequirements _ _ _ _ rs)
        rw [← inContext_below p (Step.isPlain_fieldOf _ _).1, ih]
    | plainTrait name args =>
      dsimp only
      split
      · exact ih p
      · rw [← inContext_below, ih]
        split
        · exact (Step.isPlain_getter _ _).1
        · exact (Step.isPlain_consumerTrait _ _).1

/-- Facts from which no context can be read off have no header and no missing field. -/
theorem bare_of_contextless {facts : List Fact} (h : rootContext facts = none) :
    primaryMissing facts = none ∧ facts.filterMap Fact.unsatisfied? = [] := by
  unfold rootContext at h
  dsimp only at h
  split at h
  · cases h
  · split at h
    · cases h
    · rename_i hheader
      rw [Option.map_eq_none_iff, List.head?_eq_none_iff] at h
      rw [List.head?_eq_none_iff] at hheader
      refine ⟨?_, hheader⟩
      rw [primaryMissing, h]
      rfl

theorem stepsOf_contextless {facts : List Fact} (h : rootContext facts = none)
    (context checkName : Option String) :
    stepsOf facts context checkName =
      (stepsOf facts none checkName).map (List.map (Step.inContext context)) := by
  obtain ⟨hmissing, hheader⟩ := bare_of_contextless h
  have hsteps : ∀ given : Option String, stepsOf facts given checkName =
      (addRequirements checkName none none (startPath given checkName)
        (facts.filterMap Fact.required?).reverse).map fun p => p.markUnsatisfied.reverse := by
    intro given
    unfold stepsOf
    rw [hmissing, hheader]
    change (do
      let p ← addRequirements checkName none none (startPath given checkName) _
      return p.markUnsatisfied.reverse) = _
    cases addRequirements checkName none none (startPath given checkName) _ <;> rfl
  have hstart : startPath context checkName = (startPath none checkName).inContext context := by
    cases checkName <;> rfl
  rw [hsteps, hsteps, hstart, addRequirements_inContext]
  cases addRequirements checkName none none (startPath none checkName) _ with
  | error fault => rfl
  | ok p =>
    simp only [Except.map]
    rw [← inContext_markUnsatisfied, Path.inContext, List.map_reverse]

/-- Facts that tell no context are read with the one that is given. -/
theorem ofFacts_contextless {facts : List Fact} (h : rootContext facts = none)
    (context : Option String) :
    ofFacts facts context = (ofFacts facts none).map fun c =>
      ⟨nonempty? context, c.checkName, c.steps.map (Step.inContext (nonempty? context))⟩ := by
  have hempty : nonempty? none = none := rfl
  unfold ofFacts
  dsimp only
  rw [h, Option.or_none, Option.or_none, hempty, stepsOf_contextless h (nonempty? context)]
  cases stepsOf facts none ((facts.filterMap Fact.requiredBy?).getLast?) with
  | error fault => rfl
  | ok steps => rfl

/-- Facts that tell a context are read with that one. -/
theorem ofFacts_rootContext (facts : List Fact) :
    ofFacts facts (rootContext facts) = ofFacts facts none := by
  have hsame : (nonempty? (rootContext facts)).or (rootContext facts) =
      (nonempty? none).or (rootContext facts) := by
    cases h : rootContext facts with
    | none => rfl
    | some name =>
      unfold nonempty?
      rw [Option.filter_some]
      split <;> rfl
  unfold ofFacts
  rw [hsame]

theorem consumerLessons_inContext (context : Option String) (s : Step) (children : List Step) :
    consumerLessons (s.inContext context) (children.map (Step.inContext context)) =
      consumerLessons s children := by
  by_cases hs : s.kind = .consumer
  · rw [Step.inContext_of_ne (by rw [hs]; exact nofun)]
    unfold consumerLessons
    split
    · rw [List.filterMap_map]
      apply List.filterMap_congr
      intro child _
      by_cases hc : child.kind = .check
      · have hother : child.kind ≠ .provider := by
          rw [hc]
          exact nofun
        rw [Function.comp_apply, Step.kind_inContext, if_neg fun h => hother h.1,
          if_neg fun h => hother h.1]
      · rw [Function.comp_apply, Step.inContext_of_ne hc]
    · rfl
  · have hnone : ∀ (t : Step) (ts : List Step), t.kind ≠ .consumer → consumerLessons t ts = [] := by
      intro t ts ht
      unfold consumerLessons
      split
      · rename_i hk _
        exact absurd hk ht
      · rfl
    rw [hnone _ _ hs, hnone _ _ (by rw [Step.kind_inContext]; exact hs)]

theorem providerLessons_inContext (context : Option String) (s : Step) :
    providerLessons (s.inContext context) = providerLessons s := by
  unfold Step.inContext
  split <;> rfl

/-- What a chain teaches does not depend on the context of the checked trait. -/
theorem lessons_inContext (c : Chain) (context given : Option String) :
    lessons ⟨given, c.checkName, c.steps.map (Step.inContext context)⟩ = c.lessons := by
  have hchildren : ∀ i, childrenOf ⟨given, c.checkName, c.steps.map (Step.inContext context)⟩ i =
      c.childrenOf i := by
    intro i
    unfold childrenOf
    rw [List.length_map]
    apply List.filter_congr
    intro j _
    rw [List.getElem?_map]
    cases c.steps[j]? with
    | none => rfl
    | some s =>
      rw [Option.map_some, Option.bind_some, Option.bind_some, Step.parent_inContext]
  unfold lessons
  rw [List.zipIdx_map, List.flatMap_map]
  apply List.flatMap_congr
  rintro ⟨s, i⟩ _
  dsimp only [Prod.map_apply, id_eq]
  have hfilter : (c.childrenOf i).filterMap ((c.steps.map (Step.inContext context))[·]?) =
      ((c.childrenOf i).filterMap (c.steps[·]?)).map (Step.inContext context) := by
    rw [List.map_filterMap]
    apply List.filterMap_congr
    intro j _
    exact List.getElem?_map
  rw [hchildren, hfilter, consumerLessons_inContext, providerLessons_inContext]

/-- Under every context that a record of the facts may be given, they teach the same or are stopped
by the same fault. -/
theorem lessons_ofFacts {facts : List Fact} {context : Option String}
    (h : rootContext facts = none ∨ context = rootContext facts) :
    (ofFacts facts context).map lessons = (ofFacts facts none).map lessons := by
  rcases h with hnone | rfl
  · rw [ofFacts_contextless hnone]
    cases ofFacts facts none with
    | error fault => rfl
    | ok c => exact congrArg Except.ok (lessons_inContext c _ _)
  · rw [ofFacts_rootContext]

end Chain

end TraitTrace
