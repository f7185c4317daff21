import TraitTrace.Proofs.Chain.Growth
import TraitTrace.Proofs.Places

/-! The shape of a chain. Parents stand before their children, a checked trait only stands first,
and every consumer is named. A step besides the first that hangs below nothing is either a provider
in a run of providers that starts the chain, or a satisfied field beside a missing one that starts
it; a chain with a checked trait has no such step. -/

namespace TraitTrace

def Step.IsTopProvider (s : Step) : Prop := s.kind = .provider ∧ s.parent = none

namespace Path

open Relation

/-- What a step of a path under construction keeps to, over the steps before it. -/
structure Fits (p : Path) (s : Step) : Prop where
  parent_lt : ∀ j, s.parent = some j → j < p.length
  check_first : s.kind = .check → p = []
  named : s.IsNamed
  top : s.parent = none → p = [] ∨ (s.kind = .provider ∧ ∀ t ∈ p, t.IsTopProvider)

/-- A path in which every step fits those before it. -/
def Sound : Path → Prop
  | [] => True
  | s :: p => Sound p ∧ Fits p s

theorem fits_below {p : Path} {s : Step} (hs : s.IsPlain) :
    Fits p { s with parent := if p.isEmpty then none else some (p.length - 1) } := by
  refine ⟨fun j hj => ?_, fun hc => absurd hc hs.1, hs.2, fun hnone => ?_⟩
  · dsimp only at hj
    split at hj
    · cases hj
    · rename_i hne
      have hpos : 0 < p.length := List.length_pos_iff.2 fun hp => hne (by rw [hp]; rfl)
      have := Option.some.inj hj
      omega
  · dsimp only at hnone
    split at hnone
    · rename_i hempty
      exact .inl (List.isEmpty_iff.1 hempty)
    · cases hnone

theorem fits_beside {last : Step} {p : Path} {s : Step} (hlast : Fits p last)
    (hl : last.kind = .provider) (hs : s.kind = .provider) :
    Fits (last :: p) { s with parent := last.parent } := by
  refine ⟨fun j hj => ?_, fun hc => ?_, fun hc => ?_, fun hnone => .inr ⟨hs, fun t ht => ?_⟩⟩
  · exact Nat.lt_succ_of_lt (hlast.parent_lt j hj)
  · cases hs.symm.trans hc
  · cases hs.symm.trans hc
  · rcases List.mem_cons.1 ht with rfl | ht
    · exact ⟨hl, hnone⟩
    · rcases hlast.top hnone with rfl | ⟨-, hall⟩
      · cases ht
      · exact hall t ht

theorem Fits.change {last new : Step} {p : Path} (h : Fits p last) (hk : new.kind = last.kind)
    (hp : new.parent = last.parent) (hn : last.IsNamed → new.IsNamed) : Fits p new := by
  obtain ⟨hlt, hc, hnamed, htop⟩ := h
  refine ⟨?_, ?_, hn hnamed, ?_⟩
  · rw [hp]
    exact hlt
  · rw [hk]
    exact hc
  · rw [hp, hk]
    exact htop

theorem Sound.grows {p q : Path} (h : Sound p) (hg : Grows p q) : Sound q := by
  cases hg with
  | below hs => exact ⟨h, fits_below hs⟩
  | beside hl hs => exact ⟨h, fits_beside h.2 hl hs⟩
  | change hk hp hn => exact ⟨h.1, h.2.change hk hp hn⟩

theorem Sound.grows_all {p q : Path} (h : Sound p) (hg : ReflTransGen Grows p q) : Sound q := by
  induction hg with
  | refl => exact h
  | tail _ hstep ih => exact ih.grows hstep

def kinds (p : Path) : List StepKind := p.map Step.kind

theorem kinds_suffix {p q : Path} (hg : Grows p q) : kinds p <:+ kinds q := by
  cases hg with
  | below => exact List.suffix_cons _ _
  | beside => exact List.suffix_cons _ _
  | change hk =>
    refine ⟨[], ?_⟩
    rw [List.nil_append, kinds, kinds, List.map_cons, List.map_cons, hk]

theorem kinds_suffix_all {p q : Path} (hg : ReflTransGen Grows p q) : kinds p <:+ kinds q := by
  induction hg with
  | refl => exact List.suffix_rfl
  | tail _ hstep ih => exact ih.trans (kinds_suffix hstep)

end Path

namespace Chain

open TraitTrace.Path Relation

/-- Steps whose parents stand before them, with a checked trait only in front and every consumer
named. -/
structure Ordered (steps : List Step) : Prop where
  parent_lt : ∀ (i j : Nat) (s : Step), steps[i]? = some s → s.parent = some j → j < i
  check_first : ∀ (i : Nat) (s : Step), steps[i]? = some s → s.kind = .check → i = 0
  named : ∀ s ∈ steps, s.IsNamed

/-- Steps of which only the first, or a run of providers from the first on, hang below nothing. -/
def TopRun (steps : List Step) : Prop :=
  ∀ (i : Nat) (s : Step), steps[i]? = some s → s.parent = none →
    i = 0 ∨ ∀ t ∈ steps.take (i + 1), t.IsTopProvider

/-- A missing field on its own with the fields that its context has. -/
def LoneField (steps : List Step) : Prop :=
  ∃ leaf others, steps = leaf :: others ∧ leaf.kind = .field ∧ leaf.status = .unsatisfied ∧
    ∀ t ∈ others, t.kind = .field ∧ t.status = .satisfied ∧ t.parent = none

theorem ordered_append {steps : List Step} {s : Step} (h : Ordered steps)
    (hlt : ∀ j, s.parent = some j → j < steps.length) (hc : s.kind = .check → steps = [])
    (hn : s.IsNamed) : Ordered (steps ++ [s]) := by
  constructor
  · intro i j t ht hp
    rcases getElem?_concat ht with ht | ⟨rfl, rfl⟩
    · exact h.parent_lt i j t ht hp
    · exact hlt j hp
  · intro i t ht hk
    rcases getElem?_concat ht with ht | ⟨rfl, rfl⟩
    · exact h.check_first i t ht hk
    · rw [hc hk]
      rfl
  · intro t ht
    rcases List.mem_append.1 ht with ht | ht
    · exact h.named t ht
    · rw [List.mem_singleton.1 ht]
      exact hn

theorem ordered_reverse {p : Path} (h : Sound p) : Ordered p.reverse := by
  induction p with
  | nil => exact ⟨by simp, by simp, by simp⟩
  | cons s p ih =>
    rw [List.reverse_cons]
    apply ordered_append (ih h.1)
    · rw [List.length_reverse]
      exact h.2.parent_lt
    · intro hc
      rw [h.2.check_first hc]
      rfl
    · exact h.2.named

theorem topRun_reverse {p : Path} (h : Sound p) : TopRun p.reverse := by
  induction p with
  | nil => exact fun i s hs => by simp at hs
  | cons s p ih =>
    rw [List.reverse_cons]
    intro i t ht hnone
    rcases getElem?_concat ht with ht | ⟨rfl, rfl⟩
    · have hi := lt_length_of_getElem? ht
      rw [List.take_append_of_le_length hi]
      exact ih h.1 i t ht hnone
    · rcases h.2.top hnone with rfl | ⟨hk, hall⟩
      · exact .inl rfl
      · refine .inr fun u hu => ?_
        rcases List.mem_append.1 (List.mem_of_mem_take hu) with hu | hu
        · exact hall u (List.mem_reverse.1 hu)
        · rw [List.mem_singleton.1 hu]
          exact ⟨hk, hnone⟩

theorem siblings_spec {m : MissingField} {name : FieldName} {parent : Option Nat}
    {as : List AlternateImpl} {beside : List Step} (h : siblings m name parent as = .ok beside) :
    ∀ t ∈ beside, t.kind = .field ∧ t.status = .satisfied ∧ t.parent = parent := by
  induction as generalizing beside with
  | nil =>
    cases h
    simp
  | cons a as ih =>
    obtain ⟨other, -, h⟩ := bind_ok.1 h
    obtain ⟨more, hmore, h⟩ := bind_ok.1 h
    cases other with
    | none =>
      cases h
      exact ih hmore
    | some other =>
      cases h
      intro t ht
      rcases List.mem_cons.1 ht with rfl | ht
      · exact ⟨rfl, rfl, rfl⟩
      · exact ih hmore t ht

theorem ordered_siblings {steps beside : List Step} {parent : Option Nat} (h : Ordered steps)
    (hlt : ∀ j, parent = some j → j < steps.length)
    (hb : ∀ t ∈ beside, t.kind = .field ∧ t.status = .satisfied ∧ t.parent = parent) :
    Ordered (steps ++ beside) := by
  induction beside generalizing steps with
  | nil =>
    rw [List.append_nil]
    exact h
  | cons t beside ih =>
    obtain ⟨hk, -, hp⟩ := hb t List.mem_cons_self
    have hnext : Ordered (steps ++ [t]) := by
      apply ordered_append h
      · rw [hp]
        exact hlt
      · intro hc
        cases hk.symm.trans hc
      · intro hc
        cases hk.symm.trans hc
    rw [← List.singleton_append, ← List.append_assoc]
    apply ih hnext
    · intro j hj
      rw [List.length_append]
      exact Nat.lt_add_right _ (hlt j hj)
    · exact fun u hu => hb u (List.mem_cons_of_mem t hu)

theorem topRun_siblings {steps beside : List Step} {parent : Option Nat} (h : TopRun steps)
    (hparent : parent ≠ none) (hb : ∀ t ∈ beside, t.parent = parent) :
    TopRun (steps ++ beside) := by
  intro i s hs hnone
  rw [List.getElem?_append] at hs
  split at hs
  · rename_i hi
    rw [List.take_append_of_le_length hi]
    exact h i s hs hnone
  · have hp := hb s (List.mem_of_getElem? hs)
    exact absurd (hp.symm.trans hnone) hparent

/-- The path on which facts are read, before the first requirement. -/
def startPath (context checkName : Option String) : Path :=
  match checkName with
  | some name => Path.below [] (.check context name)
  | none => []

theorem sound_startPath (context checkName : Option String) :
    Sound (startPath context checkName) := by
  cases checkName with
  | none => exact trivial
  | some name =>
    refine ⟨trivial, ?_, fun _ => rfl, ?_, fun _ => .inl rfl⟩
    · intro j hj
      cases hj
    · intro hc
      cases hc

theorem kinds_startPath (context : Option String) (name : String) :
    kinds (startPath context (some name)) = [.check] := rfl

/-- The steps of a path that facts end: the missing field with the fields beside it, else the header,
else the last requirement, if there is one. -/
inductive Ended (facts : List Fact) (p : Path) : List Step → Prop
  | missing {m : MissingField} {name : FieldName} {leaf : Step} {q : Path} {beside : List Step} :
      primaryMissing facts = some m → FieldName.decode m.tag = .ok name → Ends p (leaf :: q) →
      leaf.kind = .field → leaf.context = some m.context → leaf.field = some name →
      siblings m name leaf.parent (facts.filterMap Fact.alternate?) = .ok beside →
      Ended facts p ((leaf :: q).reverse ++ beside)
  | header {b : UnsatisfiedBound} {q : Path} : primaryMissing facts = none →
      (facts.filterMap Fact.unsatisfied?).head? = some b → Ends p q → Ended facts p q.reverse
  | last {q : Path} : primaryMissing facts = none → p ≠ [] → Ends p q → Ended facts p q.reverse
  | nothing : primaryMissing facts = none → (facts.filterMap Fact.unsatisfied?).head? = none →
      p = [] → Ended facts p []

theorem ended_stepsOf {facts : List Fact} {context checkName : Option String} {steps : List Step}
    (h : stepsOf facts context checkName = .ok steps) :
    ∃ p, addRequirements checkName (primaryMissing facts)
        (facts.filterMap Fact.unsatisfied?).head? (startPath context checkName)
        (facts.filterMap Fact.required?).reverse = .ok p ∧ Ended facts p steps := by
  unfold stepsOf at h
  obtain ⟨p, hp, h⟩ := bind_ok.1 h
  refine ⟨p, hp, ?_⟩
  split at h
  · rename_i m hm
    obtain ⟨name, hname, h⟩ := bind_ok.1 h
    obtain ⟨beside, hbeside, h⟩ := bind_ok.1 h
    obtain ⟨leaf, q, hleaf, hends, hkind, hcontext, hfield⟩ := ends_addMissing p m name
    rw [hleaf] at hbeside h
    cases h
    exact .missing hm hname hends hkind hcontext hfield hbeside
  · rename_i b hm hb
    obtain ⟨q, hq, h⟩ := bind_ok.1 h
    cases h
    exact .header hm hb (ends_addHeader hq)
  · rename_i hm hb
    cases h
    cases p with
    | nil => exact .nothing hm hb rfl
    | cons last p => exact .last hm (List.cons_ne_nil last p) (ends_markUnsatisfied last p)

/-- A path that grew from a checked trait starts with it. -/
theorem head_check {context : Option String} {name : String} {p : Path}
    (hg : ReflTransGen Grows (startPath context (some name)) p) :
    ∃ s, p.reverse.head? = some s ∧ s.kind = .check := by
  obtain ⟨more, hmore⟩ := kinds_suffix_all hg
  rw [kinds_startPath] at hmore
  have hkinds : p.reverse.map Step.kind = .check :: more.reverse := by
    rw [List.map_reverse, ← kinds, ← hmore, List.reverse_append]
    rfl
  obtain ⟨s, steps, hsteps, hs, -⟩ := List.map_eq_cons_iff.1 hkinds
  exact ⟨s, by rw [hsteps]; rfl, hs⟩

/-- The shape of the steps of facts. -/
structure Shaped (checkName : Option String) (steps : List Step) : Prop where
  ordered : Ordered steps
  top : TopRun steps ∨ LoneField steps
  check : checkName ≠ none → ∃ s, steps.head? = some s ∧ s.kind = .check

theorem shaped_reverse {context checkName : Option String} {p : Path}
    (hg : ReflTransGen Grows (startPath context checkName) p) : Shaped checkName p.reverse := by
  have hsound := (sound_startPath context checkName).grows_all hg
  refine ⟨ordered_reverse hsound, .inl (topRun_reverse hsound), fun hname => ?_⟩
  cases checkName with
  | none => exact absurd rfl hname
  | some name => exact head_check hg

/-- The fields that the context does have stand beside the missing one. -/
theorem shaped_missing {context checkName : Option String} {leaf : Step} {p : Path}
    {beside : List Step} (hg : ReflTransGen Grows (startPath context checkName) (leaf :: p))
    (hk : leaf.kind = .field) (hs : leaf.status = .unsatisfied)
    (hb : ∀ t ∈ beside, t.kind = .field ∧ t.status = .satisfied ∧ t.parent = leaf.parent) :
    Shaped checkName ((leaf :: p).reverse ++ beside) := by
  have hsound := (sound_startPath context checkName).grows_all hg
  obtain ⟨hordered, htop, hcheck⟩ := shaped_reverse hg
  refine ⟨?_, ?_, fun hname => ?_⟩
  · apply ordered_siblings hordered _ hb
    intro j hj
    have hlt := hsound.2.parent_lt j hj
    rw [List.length_reverse, List.length_cons]
    omega
  · by_cases hnone : leaf.parent = none
    · -- A field below nothing is the whole path, so that its siblings are below nothing too.
      right
      rcases hsound.2.top hnone with rfl | ⟨hprovider, -⟩
      · refine ⟨leaf, beside, rfl, hk, hs, fun t ht => ?_⟩
        obtain ⟨htk, hts, htp⟩ := hb t ht
        exact ⟨htk, hts, htp.trans hnone⟩
      · cases hk.symm.trans hprovider
    · left
      exact topRun_siblings (topRun_reverse hsound) hnone fun t ht => (hb t ht).2.2
  · obtain ⟨s, hhead, hkind⟩ := hcheck hname
    exact ⟨s, by rw [List.head?_append, hhead]; rfl, hkind⟩

/-- Every chain that facts are read as has its shape. -/
theorem shaped_stepsOf {facts : List Fact} {context checkName : Option String} {steps : List Step}
    (h : stepsOf facts context checkName = .ok steps) : Shaped checkName steps := by
  obtain ⟨p, hp, hended⟩ := ended_stepsOf h
  have hgrows : ReflTransGen Grows (startPath context checkName) p := grows_addRequirements hp
  cases hended with
  | missing _ _ hends hkind _ _ hbeside =>
    exact shaped_missing (hgrows.tail hends.grows) hkind hends.leaf_spec.1 (siblings_spec hbeside)
  | header _ _ hends => exact shaped_reverse (hgrows.tail hends.grows)
  | last _ _ hends => exact shaped_reverse (hgrows.tail hends.grows)
  | nothing _ _ hnil =>
    rw [hnil] at hgrows
    exact shaped_reverse hgrows

theorem shaped_ofFacts {facts : List Fact} {context : Option String} {c : Chain}
    (h : ofFacts facts context = .ok c) : Shaped c.checkName c.steps := by
  obtain ⟨steps, hsteps, h⟩ := bind_ok.1 h
  cases h
  exact shaped_stepsOf hsteps

/-- A step besides the first that hangs below nothing stands in a chain without a checked trait, in
a run of providers from the first step on or beside a lone missing field. -/
theorem Shaped.late {checkName : Option String} {steps : List Step} (h : Shaped checkName steps)
    {i : Nat} {s : Step} (hs : steps[i]? = some s) (hnone : s.parent = none) (hi : i ≠ 0) :
    checkName = none ∧ ((∀ t ∈ steps.take (i + 1), t.IsTopProvider) ∨ LoneField steps) := by
  have hcase : (∀ t ∈ steps.take (i + 1), t.IsTopProvider) ∨ LoneField steps := by
    rcases h.top with hrun | hlone
    · exact .inl ((hrun i s hs hnone).resolve_left hi)
    · exact .inr hlone
  refine ⟨?_, hcase⟩
  by_contra hname
  obtain ⟨first, hfirst, hkind⟩ := h.check hname
  obtain ⟨more, rfl⟩ := List.head?_eq_some_iff.1 hfirst
  rcases hcase with hrun | ⟨leaf, others, hsteps, hk, -, -⟩
  · have hprovider := (hrun first (by rw [List.take_succ_cons]; exact List.mem_cons_self)).1
    cases hkind.symm.trans hprovider
  · cases hsteps
    cases hkind.symm.trans hk

end Chain

end TraitTrace
