import TraitTrace.Proofs.Chain.Reading
import TraitTrace.Proofs.Fact.Missing

/-! The leaf of a chain. Reading facts marks exactly one step as unmet: the steps above it are
implied, and only fields that the context has stand after it, beside the missing one. -/

namespace TraitTrace

namespace Path

def Implied (p : Path) : Prop := ∀ s ∈ p, s.status = .implied

theorem Implied.below {p : Path} {s : Step} (hp : p.Implied) (hs : s.status = .implied) :
    (p.below s).Implied := by
  intro t ht
  rcases List.mem_cons.1 ht with rfl | ht
  · exact hs
  · exact hp t ht

theorem Implied.addProvider {p : Path} {s : Step} (hp : p.Implied) (hs : s.status = .implied) :
    (p.addProvider s).Implied := by
  obtain ⟨parent, hadd⟩ := p.exists_addProvider s
  rw [hadd]
  intro t ht
  rcases List.mem_cons.1 ht with rfl | ht
  · exact hs
  · exact hp t ht

end Path

namespace Chain

open TraitTrace.Path Relation TypeExpr

section Requirements

variable {checkName : Option String} {missing : Option MissingField}
  {header : Option UnsatisfiedBound}

theorem implied_addRequirements {rs : List Requirement} {p q : Path}
    (hq : addRequirements checkName missing header p rs = .ok q) (hp : p.Implied) : q.Implied := by
  induction rs generalizing p with
  | nil =>
    cases hq
    exact hp
  | cons r rs ih =>
    unfold addRequirements at hq
    split at hq
    · exact ih hq (hp.below rfl)
    · exact ih hq (hp.addProvider rfl)
    · obtain ⟨name, -, hq⟩ := bind_ok.1 hq
      exact ih hq (hp.below rfl)
    · split at hq
      · exact ih hq hp
      · refine ih hq (hp.below ?_)
        split <;> rfl

theorem length_le_of_grows {p q : Path} (h : ReflTransGen Grows p q) : p.length ≤ q.length := by
  have hkinds := (kinds_suffix_all h).length_le
  rwa [kinds, kinds, List.length_map, List.length_map] at hkinds

/-- Without a checked trait every requirement leaves a step. -/
theorem length_lt_addRequirements {r : Requirement} {rs : List Requirement} {p q : Path}
    (hq : addRequirements none missing header p (r :: rs) = .ok q) : p.length < q.length := by
  have hbelow : ∀ {s : Step}, addRequirements none missing header (p.below s) rs = .ok q →
      p.length < q.length := fun hq => length_le_of_grows (grows_addRequirements hq)
  unfold addRequirements at hq
  split at hq
  · exact hbelow hq
  · obtain ⟨parent, hadd⟩ := p.exists_addProvider _
    rw [hadd] at hq
    exact length_le_of_grows (grows_addRequirements hq)
  · obtain ⟨name, -, hq⟩ := bind_ok.1 hq
    exact hbelow hq
  · rw [if_neg nofun] at hq
    exact hbelow hq

theorem addRequirements_eq_nil {context : Option String} {rs : List Requirement} {p : Path}
    (hp : addRequirements checkName missing header (startPath context checkName) rs = .ok p) :
    p = [] ↔ checkName = none ∧ rs = [] := by
  cases checkName with
  | some name =>
    have hle := length_le_of_grows (grows_addRequirements hp)
    constructor
    · rintro rfl
      exact absurd hle (Nat.not_succ_le_zero 0)
    · rintro ⟨hname, -⟩
      cases hname
  | none =>
    cases rs with
    | nil =>
      cases hp
      exact ⟨fun _ => ⟨rfl, rfl⟩, fun _ => rfl⟩
    | cons r rs =>
      have hlt := length_lt_addRequirements hp
      constructor
      · rintro rfl
        exact absurd hlt (Nat.not_lt_zero _)
      · rintro ⟨-, hrs⟩
        cases hrs

end Requirements

/-- A field of the same context as a missing one, with another name. -/
structure OtherField (m : MissingField) (name : FieldName) (s : Step) : Prop where
  context : s.context = some m.context
  field : ∃ other, s.field = some other ∧ other ≠ name

theorem siblings_other {m : MissingField} {name : FieldName} {parent : Option Nat}
    {as : List AlternateImpl} {beside : List Step} (h : siblings m name parent as = .ok beside) :
    ∀ t ∈ beside, OtherField m name t := by
  induction as generalizing beside with
  | nil =>
    cases h
    exact fun t ht => absurd ht List.not_mem_nil
  | cons a as ih =>
    obtain ⟨other, hother, h⟩ := bind_ok.1 h
    obtain ⟨more, hmore, h⟩ := bind_ok.1 h
    cases other with
    | none =>
      cases h
      exact ih hmore
    | some other =>
      cases h
      intro t ht
      rcases List.mem_cons.1 ht with rfl | ht
      · refine ⟨rfl, other, rfl, ?_⟩
        rw [siblingName_eq] at hother
        split at hother
        · obtain ⟨decoded, -, heq⟩ := map_ok.1 hother
          split at heq
          · cases heq
          · rename_i hne
            obtain rfl := Option.some.inj heq
            exact hne
        · cases hother
      · exact ih hmore t ht

/-- A satisfied field beside the leaf, where the leaf is the missing field. -/
structure BesideMissing (facts : List Fact) (leaf s : Step) : Prop where
  kind : s.kind = .field
  status : s.status = .satisfied
  parent : s.parent = leaf.parent
  missing : ∃ m name, primaryMissing facts = some m ∧ FieldName.decode m.tag = .ok name ∧
    leaf.kind = .field ∧ leaf.context = some m.context ∧ leaf.field = some name ∧
    OtherField m name s

/-- Steps that end in an unmet one, but for fields beside it. -/
structure Leafed (facts : List Fact) (before : List Step) (leaf : Step) (beside : List Step) :
    Prop where
  implied : ∀ s ∈ before, s.status = .implied
  unmet : leaf.status = .unsatisfied
  satisfied : ∀ s ∈ beside, BesideMissing facts leaf s

theorem leafed_of_ends {facts : List Fact} {p q : Path} (hp : p.Implied) (hq : Ends p q) :
    ∃ before leaf, q.reverse = before ++ [leaf] ∧ Leafed facts before leaf [] := by
  obtain ⟨leaf, rest, rfl, hleaf, hrest⟩ := hq.unmet
  refine ⟨rest.reverse, leaf, List.reverse_cons, fun s hs => ?_, hleaf, fun s hs => ?_⟩
  · exact hp s (hrest (List.mem_reverse.1 hs))
  · exact absurd hs List.not_mem_nil

theorem implied_startPath (context checkName : Option String) :
    (startPath context checkName).Implied := by
  cases checkName with
  | none => exact fun s hs => absurd hs List.not_mem_nil
  | some name =>
    intro s hs
    rw [List.mem_singleton.1 hs]
    rfl

/-- Facts without a checked trait, a missing field, a header and a requirement. -/
def Bare (facts : List Fact) (checkName : Option String) : Prop :=
  checkName = none ∧ facts.filterMap Fact.missing? = [] ∧
    facts.filterMap Fact.unsatisfied? = [] ∧ facts.filterMap Fact.required? = []

/-- Bare facts have no step; any others are read as steps with one leaf. -/
theorem leafed_stepsOf {facts : List Fact} {context checkName : Option String} {steps : List Step}
    (h : stepsOf facts context checkName = .ok steps) :
    (Bare facts checkName ∧ steps = []) ∨ (¬Bare facts checkName ∧ ∃ before leaf beside,
      steps = before ++ leaf :: beside ∧ Leafed facts before leaf beside) := by
  obtain ⟨p, hp, hended⟩ := ended_stepsOf h
  have himplied := implied_addRequirements hp (implied_startPath context checkName)
  have hnil := addRequirements_eq_nil hp
  rw [List.reverse_eq_nil_iff] at hnil
  cases hended with
  | @missing m name leaf q beside hm hname hends hkind hcontext hfield hbeside =>
    obtain ⟨hstatus, hrest⟩ := hends.leaf_spec
    refine .inr ⟨fun hbare => ?_, q.reverse, leaf, beside, ?_, fun s hs => ?_, hstatus,
      fun s hs => ?_⟩
    · rw [primaryMissing_eq_none.2 hbare.2.1] at hm
      cases hm
    · rw [List.reverse_cons, List.append_assoc, List.singleton_append]
    · exact himplied s (hrest (List.mem_reverse.1 hs))
    · obtain ⟨hsk, hss, hsp⟩ := siblings_spec hbeside s hs
      exact ⟨hsk, hss, hsp, m, name, hm, hname, hkind, hcontext, hfield,
        siblings_other hbeside s hs⟩
  | header _ hb hends =>
    obtain ⟨before, leaf, hsteps, hleafed⟩ := leafed_of_ends himplied hends
    refine .inr ⟨fun hbare => ?_, before, leaf, [], hsteps, hleafed⟩
    rw [hbare.2.2.1] at hb
    cases hb
  | last _ hsome hends =>
    obtain ⟨before, leaf, hsteps, hleafed⟩ := leafed_of_ends himplied hends
    refine .inr ⟨fun hbare => ?_, before, leaf, [], hsteps, hleafed⟩
    exact hsome (hnil.2 ⟨hbare.1, hbare.2.2.2⟩)
  | nothing hm hb hempty =>
    obtain ⟨hname, hrequired⟩ := hnil.1 hempty
    exact .inl ⟨⟨hname, primaryMissing_eq_none.1 hm, List.head?_eq_none_iff.1 hb, hrequired⟩, rfl⟩

/-- A missing field is an unmet step of its chain. -/
theorem unmet_of_missing {facts : List Fact} {context : Option String} {c : Chain} {m : MissingField}
    (h : ofFacts facts context = .ok c) (hm : primaryMissing facts = some m) :
    ∃ name, FieldName.decode m.tag = .ok name ∧ ∃ s ∈ c.steps, s.kind = .field ∧
      s.context = some m.context ∧ s.field = some name ∧ s.status = .unsatisfied := by
  obtain ⟨steps, hsteps, h⟩ := bind_ok.1 h
  cases h
  obtain ⟨p, hp, hended⟩ := ended_stepsOf hsteps
  have hsome : primaryMissing facts ≠ none := by
    rw [hm]
    exact nofun
  cases hended with
  | @missing m' name leaf q beside hm' hname hends hkind hcontext hfield _ =>
    rw [hm] at hm'
    obtain rfl := Option.some.inj hm'
    exact ⟨name, hname, leaf, List.mem_append_left _ (List.mem_reverse.2 List.mem_cons_self), hkind,
      hcontext, hfield, hends.leaf_spec.1⟩
  | header hnone _ _ => exact absurd hnone hsome
  | last hnone _ _ => exact absurd hnone hsome
  | nothing hnone _ _ => exact absurd hnone hsome

/-- No parent stands at the leaf or after it. -/
theorem Ordered.parent_lt_leaf {before beside : List Step} {leaf : Step}
    (h : Ordered (before ++ leaf :: beside)) (hb : ∀ s ∈ beside, s.parent = leaf.parent) :
    ∀ s ∈ before ++ leaf :: beside, ∀ j, s.parent = some j → j < before.length := by
  have hleaf : ∀ j, leaf.parent = some j → j < before.length := by
    intro j hj
    refine h.parent_lt before.length j leaf ?_ hj
    rw [List.getElem?_append_right (Nat.le_refl _), Nat.sub_self]
    rfl
  intro s hs j hj
  rcases List.mem_append.1 hs with hs | hs
  · obtain ⟨i, hi⟩ := List.getElem?_of_mem hs
    have hlt := lt_length_of_getElem? hi
    rw [← List.getElem?_append_left hlt] at hi
    exact Nat.lt_trans (h.parent_lt i j s hi hj) hlt
  · rcases List.mem_cons.1 hs with rfl | hs
    · exact hleaf j hj
    · rw [hb s hs] at hj
      exact hleaf j hj

/-- What stands before the leaf, at its place and after it. -/
theorem getElem?_leafed {before beside : List Step} {leaf s : Step} {i : Nat}
    (h : (before ++ leaf :: beside)[i]? = some s) :
    (i < before.length ∧ s ∈ before) ∨ (i = before.length ∧ s = leaf) ∨
      (before.length < i ∧ s ∈ beside) := by
  rw [List.getElem?_append] at h
  split at h
  · rename_i hlt
    exact .inl ⟨hlt, List.mem_of_getElem? h⟩
  · rename_i hle
    obtain ⟨k, rfl⟩ := Nat.exists_eq_add_of_le (Nat.le_of_not_lt hle)
    rw [Nat.add_sub_cancel_left] at h
    cases k with
    | zero => exact .inr (.inl ⟨rfl, (Option.some.inj h).symm⟩)
    | succ k =>
      rw [List.getElem?_cons_succ] at h
      exact .inr (.inr ⟨by omega, List.mem_of_getElem? h⟩)

theorem Leafed.status_eq {facts : List Fact} {before beside : List Step} {leaf s : Step} {i : Nat}
    (h : Leafed facts before leaf beside) (hs : (before ++ leaf :: beside)[i]? = some s) :
    s.status = if i < before.length then .implied
      else if i = before.length then .unsatisfied else .satisfied := by
  rcases getElem?_leafed hs with ⟨hlt, hmem⟩ | ⟨rfl, rfl⟩ | ⟨hlt, hmem⟩
  · rw [if_pos hlt]
    exact h.implied s hmem
  · rw [if_neg (Nat.lt_irrefl _), if_pos rfl]
    exact h.unmet
  · rw [if_neg (Nat.lt_asymm hlt), if_neg (Nat.ne_of_gt hlt)]
    exact (h.satisfied s hmem).status

theorem Leafed.countP_unmet {facts : List Fact} {before beside : List Step} {leaf : Step}
    (h : Leafed facts before leaf beside) :
    (before ++ leaf :: beside).countP (fun s => s.status = .unsatisfied) = 1 := by
  have hbefore : before.countP (fun s => s.status = .unsatisfied) = 0 := by
    rw [List.countP_eq_zero]
    intro s hs
    rw [h.implied s hs]
    decide
  have hbeside : beside.countP (fun s => s.status = .unsatisfied) = 0 := by
    rw [List.countP_eq_zero]
    intro s hs
    rw [(h.satisfied s hs).status]
    decide
  have hleaf : (leaf :: beside).countP (fun s => s.status = .unsatisfied) = 1 := by
    rw [List.countP_cons, hbeside, h.unmet]
    rfl
  rw [List.countP_append, hbefore, hleaf]

theorem bare_iff {facts : List Fact} :
    Bare facts (facts.filterMap Fact.requiredBy?).getLast? ↔
      ∀ f ∈ facts, f.requiredBy? = none ∧ f.missing? = none ∧ f.unsatisfied? = none ∧
        f.required? = none := by
  unfold Bare
  simp only [List.getLast?_eq_none_iff, List.filterMap_eq_nil_iff]
  exact ⟨fun h f hf => ⟨h.1 f hf, h.2.1 f hf, h.2.2.1 f hf, h.2.2.2 f hf⟩, fun h =>
    ⟨fun f hf => (h f hf).1, fun f hf => (h f hf).2.1, fun f hf => (h f hf).2.2.1,
      fun f hf => (h f hf).2.2.2⟩⟩

/-- A chain that facts are read as. -/
structure Formed (facts : List Fact) (c : Chain) : Prop where
  root : ∀ s, c.root = some s → s.parent = none
  parent_lt : ∀ (i j : Nat) (s : Step), c.steps[i]? = some s → s.parent = some j → j < i
  check_first : ∀ (i : Nat) (s : Step), c.steps[i]? = some s → s.kind = .check → i = 0
  one_unmet : c.steps ≠ [] → c.steps.countP (fun s => s.status = .unsatisfied) = 1
  /-- Steps before the unmet one are implied, steps after it are satisfied. -/
  statuses : ∀ (i j : Nat) (leaf s : Step), c.steps[i]? = some leaf → leaf.status = .unsatisfied →
    c.steps[j]? = some s →
    s.status = if j < i then .implied else if j = i then .unsatisfied else .satisfied
  satisfied : ∀ s ∈ c.steps, s.status = .satisfied →
    ∃ leaf ∈ c.steps, leaf.status = .unsatisfied ∧ BesideMissing facts leaf s
  childless : ∀ (i : Nat) (s : Step), c.steps[i]? = some s → s.status ≠ .implied →
    ∀ t ∈ c.steps, t.parent ≠ some i
  empty : c.steps = [] ↔ ∀ f ∈ facts, f.requiredBy? = none ∧ f.missing? = none ∧
    f.unsatisfied? = none ∧ f.required? = none

theorem formed_ofFacts {facts : List Fact} {context : Option String} {c : Chain}
    (h : ofFacts facts context = .ok c) : Formed facts c := by
  obtain ⟨steps, hsteps, h⟩ := bind_ok.1 h
  cases h
  have hordered := (shaped_stepsOf hsteps).ordered
  have hroot : ∀ s, steps.head? = some s → s.parent = none := by
    intro s hs
    rw [List.head?_eq_getElem?] at hs
    cases hp : s.parent with
    | none => rfl
    | some j => exact absurd (hordered.parent_lt 0 j s hs hp) (Nat.not_lt_zero j)
  rcases leafed_stepsOf hsteps with ⟨hbare, rfl⟩ | ⟨hbare, before, leaf, beside, rfl, hleafed⟩
  · refine ⟨hroot, hordered.parent_lt, hordered.check_first, fun h => absurd rfl h, ?_, ?_, ?_,
      fun _ => bare_iff.1 hbare, fun _ => rfl⟩
    · exact fun i j leaf s hleaf => nomatch hleaf
    · exact fun s hs => absurd hs List.not_mem_nil
    · exact fun i s _ _ t ht => absurd ht List.not_mem_nil
  · -- The unmet step can only be the leaf.
    have hplace : ∀ (i : Nat) (s : Step), (before ++ leaf :: beside)[i]? = some s →
        s.status ≠ .implied → before.length ≤ i := by
      intro i s hs hstatus
      rcases getElem?_leafed hs with ⟨-, hmem⟩ | ⟨rfl, -⟩ | ⟨hlt, -⟩
      · exact absurd (hleafed.implied s hmem) hstatus
      · exact Nat.le_refl _
      · exact Nat.le_of_lt hlt
    refine ⟨hroot, hordered.parent_lt, hordered.check_first, fun _ => hleafed.countP_unmet, ?_, ?_,
      ?_, fun h => ?_, fun h => ?_⟩
    · intro i j unmet s hunmet hstatus hs
      have hi : i = before.length := by
        rcases getElem?_leafed hunmet with ⟨-, hmem⟩ | ⟨rfl, -⟩ | ⟨-, hmem⟩
        · rw [hleafed.implied unmet hmem] at hstatus
          cases hstatus
        · rfl
        · rw [(hleafed.satisfied unmet hmem).status] at hstatus
          cases hstatus
      rw [hi]
      exact hleafed.status_eq hs
    · intro s hs hstatus
      refine ⟨leaf, List.mem_append_right _ List.mem_cons_self, hleafed.unmet, ?_⟩
      obtain ⟨i, hi⟩ := List.getElem?_of_mem hs
      rcases getElem?_leafed hi with ⟨-, hmem⟩ | ⟨-, rfl⟩ | ⟨-, hmem⟩
      · rw [hleafed.implied s hmem] at hstatus
        cases hstatus
      · rw [hleafed.unmet] at hstatus
        cases hstatus
      · exact hleafed.satisfied s hmem
    · intro i s hs hstatus t ht hparent
      have hlt := hordered.parent_lt_leaf (fun u hu => (hleafed.satisfied u hu).parent) t ht i hparent
      exact absurd hlt (Nat.not_lt.2 (hplace i s hs hstatus))
    · exact absurd (List.append_eq_nil_iff.1 h).2 (List.cons_ne_nil leaf beside)
    · exact absurd (bare_iff.2 h) hbare

/-- Facts are read as a chain exactly when the tags in them can be decoded, and then the chain has
one leaf, with the satisfied fields beside it. -/
theorem formed_of_decoded (facts : List Fact) (context : Option String) :
    ((∃ c, ofFacts facts context = .ok c) ↔
        ∀ tag ∈ readTags facts, ∃ name, FieldName.decode tag = .ok name) ∧
      ∀ c, ofFacts facts context = .ok c → Formed facts c := by
  refine ⟨?_, fun c hc => formed_ofFacts hc⟩
  rw [← exists_stepsOf_iff]
  constructor
  · rintro ⟨c, hc⟩
    obtain ⟨steps, hsteps, -⟩ := bind_ok.1 hc
    exact ⟨steps, hsteps⟩
  · rintro ⟨steps, hsteps⟩
    exact ⟨_, bind_ok.2 ⟨steps, hsteps, rfl⟩⟩

end Chain

end TraitTrace
