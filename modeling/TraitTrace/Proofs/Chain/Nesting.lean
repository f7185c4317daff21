import TraitTrace.Proofs.Chain.Origins
import TraitTrace.Proofs.FieldName.Passes

/-! Providers inside providers. A provider that wraps another one has it among its arguments, so
that no provider wraps itself, however many stand between. A provider of a requirement hangs below
the step before it, or beside that one when it is a provider that does not wrap it. It hangs below
a provider exactly when it ends a run: right after that provider stands one which it wraps, and then
come providers none of which the one before wraps. Only the first of a run is sure to be wrapped. -/

namespace TraitTrace

open Text TypeExpr

namespace Step

theorem nests_spec {outer inner : Step} (h : outer.nests inner = true) :
    (outer.kind = .provider ∧ inner.kind = .provider) ∧
      ∃ o i, outer.provider = some o ∧ inner.provider = some i ∧ hasTypeArgument o i = true := by
  simp only [nests, Bool.and_eq_true, decide_eq_true_eq] at h
  obtain ⟨⟨⟨⟨⟨hok, hik⟩, -⟩, -⟩, -⟩, h⟩ := h
  refine ⟨⟨hok, hik⟩, ?_⟩
  split at h
  · rename_i o i ho hi
    exact ⟨o, i, ho, hi, h⟩
  · cases h

/-- The number of characters of a provider that are not blank. -/
def weight (s : Step) : Nat := (s.provider.map fun p => Text.weight p.toList).getD 0

theorem weight_lt_of_nests {outer inner : Step} (h : outer.nests inner = true) :
    inner.weight < outer.weight := by
  obtain ⟨-, o, i, ho, hi, harg⟩ := nests_spec h
  rw [weight, weight, ho, hi]
  exact weight_lt_of_hasTypeArgument harg

theorem weight_add_le_of_nests {p : Nat → Step} {n : Nat}
    (h : ∀ i < n, (p i).nests (p (i + 1)) = true) : (p n).weight + n ≤ (p 0).weight := by
  induction n with
  | zero => exact Nat.le_refl _
  | succ n ih =>
    have hbefore := ih fun i hi => h i (Nat.lt_succ_of_lt hi)
    have hlast := weight_lt_of_nests (h n (Nat.lt_succ_self n))
    omega

/-- Steps that say the same wrap the same. -/
theorem Keeps.nests_eq {outer outer' inner inner' : Step} (ho : outer.Keeps outer')
    (hi : inner.Keeps inner') : outer'.nests inner' = outer.nests inner := by
  rw [nests, nests, ho.kind, ho.marker, ho.context, ho.extraArgs, ho.provider, hi.kind, hi.marker,
    hi.context, hi.extraArgs, hi.provider]

end Step

/-- An argument is a piece of its type with fewer characters that are not blank. So there is no
cycle of providers that wrap each other, and every list of nodes is read to its end. -/
theorem lighter_arguments :
    (∀ text : String, ∀ arg ∈ (parseGeneric text).args,
      arg.toList <:+: text.toList ∧ weight arg.toList < weight text.toList) ∧
    (∀ (n : Nat) (p : Nat → Step), 1 ≤ n → p n = p 0 →
      ¬∀ i < n, (p i).nests (p (i + 1)) = true) ∧
    ∀ text : String, FieldName.readWithin (weight text.toList + 1) (strip text.toList) =
      some (FieldName.parseCharList text) := by
  refine ⟨fun text arg harg => ?_, fun n p hn hcycle h => ?_, fun text => ?_⟩
  · have hmem := mem_args_iff.1 harg
    exact ⟨infix_of_mem_generic hmem, weight_lt_of_mem_generic hmem⟩
  · have hweight := Step.weight_add_le_of_nests h
    rw [hcycle] at hweight
    omega
  · have hstrip := weight_le_of_infix (infix_strip text.toList)
    exact FieldName.readWithin_eq (by omega)

/-- The use of a provider that wraps another one. -/
def scaledUse : Step :=
  Step.providerUse "ScaledArea<RectangleArea>" "AreaComponent" "Rectangle" ["f64"]

/-- A list that is cut short, with its second node among the arguments of the first one. -/
theorem lighter_arguments_cut : "Chars<_, ..." ∈ (parseGeneric "Chars<'>', Chars<_, ...").args ∧
    "Chars<_, ...".toList <:+: "Chars<'>', Chars<_, ...".toList ∧
    weight "Chars<_, ...".toList < weight "Chars<'>', Chars<_, ...".toList ∧
    scaledUse.nests scaledUse ≠ true ∧
    FieldName.readWithin (weight "Chars<'>', Chars<_, ...".toList + 1)
      (strip "Chars<'>', Chars<_, ...".toList) = some (.ok [some ">", none]) := by
  obtain ⟨hlighter, hacyclic, hread⟩ := lighter_arguments
  have hmem : "Chars<_, ..." ∈ (parseGeneric "Chars<'>', Chars<_, ...").args := by decide +kernel
  obtain ⟨hpiece, hweight⟩ := hlighter _ _ hmem
  refine ⟨hmem, hpiece, hweight, fun hself => ?_, (hread _).trans (by decide +kernel)⟩
  exact hacyclic 1 (fun _ => scaledUse) (Nat.le_refl 1) rfl fun _ _ => hself

namespace Chain

open TraitTrace.Path

/-- Below which step a provider comes, by the step before its place. -/
def seat (steps : List Step) (s : Step) : Nat → Option Nat
  | 0 => none
  | j + 1 => steps[j]?.bind fun last =>
      if last.kind = .provider ∧ !last.nests s then last.parent else some j

theorem seat_append {steps : List Step} {j : Nat} (h : j ≤ steps.length) (more : List Step)
    (s : Step) : seat (steps ++ more) s j = seat steps s j := by
  cases j with
  | zero => rfl
  | succ j => rw [seat, seat, List.getElem?_append_left h]

/-- Steps in which every provider has its seat. -/
def Seated (steps : List Step) : Prop :=
  ∀ (j : Nat) (s : Step), steps[j]? = some s → s.kind = .provider → s.parent = seat steps s j

theorem seated_concat {steps : List Step} {s : Step} (h : Seated steps)
    (hs : s.kind = .provider → s.parent = seat steps s steps.length) : Seated (steps ++ [s]) := by
  intro j t ht hkind
  rcases getElem?_concat ht with ht | ⟨rfl, rfl⟩
  · rw [seat_append (Nat.le_of_lt (lt_length_of_getElem? ht))]
    exact h j t ht hkind
  · rw [seat_append (Nat.le_refl _)]
    exact hs hkind

theorem seated_nil : Seated [] := fun _ _ hs _ => nomatch hs

theorem seated_singleton {s : Step} (hs : s.kind = .provider → s.parent = none) : Seated [s] := by
  have h : Seated ([] ++ [s]) := seated_concat seated_nil hs
  exact h

theorem Seated.left {steps more : List Step} (h : Seated (steps ++ more)) : Seated steps := by
  intro j s hs hkind
  have hj := lt_length_of_getElem? hs
  rw [← seat_append (Nat.le_of_lt hj) more]
  exact h j s (by rw [List.getElem?_append_left hj, hs]) hkind

theorem seated_startPath (context checkName : Option String) :
    Seated (startPath context checkName).reverse := by
  cases checkName with
  | none => exact seated_nil
  | some name => exact seated_singleton fun _ => rfl

theorem seated_cons {p : Path} {s : Step} (hp : Seated p.reverse) (hs : s.kind ≠ .provider) :
    Seated (s :: p : Path).reverse := by
  rw [List.reverse_cons]
  exact seated_concat hp fun hkind => absurd hkind hs

theorem seated_addProvider {p : Path} {s : Step} (hp : Seated p.reverse) :
    Seated (p.addProvider s).reverse := by
  cases p with
  | nil => exact seated_singleton fun _ => rfl
  | cons last p =>
    -- The last step stands at the end of the steps so far.
    have hlast : (last :: p : Path).reverse[p.length]? = some last := by
      rw [List.reverse_cons, ← List.length_reverse, List.getElem?_concat_length]
    have hlength : (last :: p : Path).reverse.length = p.length + 1 := List.length_reverse
    dsimp only [Path.addProvider]
    split
    · rename_i hcase
      rw [beside, List.reverse_cons]
      refine seated_concat hp fun _ => ?_
      rw [hlength, seat, hlast]
      exact (if_pos hcase).symm
    · rename_i hcase
      rw [below, List.reverse_cons]
      refine seated_concat hp fun _ => ?_
      rw [hlength, seat, hlast]
      exact (if_neg hcase).symm

theorem seated_addRequirements {checkName : Option String} {missing : Option MissingField}
    {header : Option UnsatisfiedBound} {rs : List Requirement} {p q : Path}
    (hq : addRequirements checkName missing header p rs = .ok q) (hp : Seated p.reverse) :
    Seated q.reverse := by
  induction rs generalizing p with
  | nil =>
    cases hq
    exact hp
  | cons r rs ih =>
    unfold addRequirements at hq
    split at hq
    · exact ih hq (seated_cons hp nofun)
    · exact ih hq (seated_addProvider hp)
    · obtain ⟨name, -, hq⟩ := bind_ok.1 hq
      exact ih hq (seated_cons hp nofun)
    · split at hq
      · exact ih hq hp
      · refine ih hq (seated_cons hp ?_)
        dsimp only
        split <;> nofun

/-- What ends a path leaves the providers of its requirements where they are. -/
theorem seated_of_ends {p q : Path} (h : Ends p q) (hp : Seated p.reverse) :
    ∃ kept more, q.reverse = kept ++ more ∧ kept.length = p.length ∧ Seated kept ∧
      ∀ s ∈ more, s.status = .unsatisfied := by
  cases h with
  | below _ hs =>
    refine ⟨p.reverse, [_], List.reverse_cons, List.length_reverse, hp, fun t ht => ?_⟩
    rw [List.mem_singleton.1 ht]
    exact hs
  | @change last new p hkeeps hparent _ =>
    refine ⟨p.reverse ++ [new], [], by simp, by simp, ?_, fun t ht => absurd ht List.not_mem_nil⟩
    rw [List.reverse_cons] at hp
    refine seated_concat hp.left fun hkind => ?_
    have hkind' : last.kind = .provider := hkeeps.kind.symm.trans hkind
    have hlast := hp p.reverse.length last List.getElem?_concat_length hkind'
    rw [seat_append (Nat.le_refl _)] at hlast
    rw [hparent, hlast]
    cases p.reverse.length with
    | zero => rfl
    | succ j => simp only [seat, (Step.Keeps.refl _).nests_eq hkeeps]

/-- The number of steps that the checked trait and the requirements of facts leave. -/
def madeCount (facts : List Fact) (checkName : Option String) : Nat :=
  checkName.toList.length + (leaving facts checkName).length

theorem length_addRequirements {facts : List Fact} {context checkName : Option String} {p : Path}
    (hp : addRequirements checkName (primaryMissing facts)
      (facts.filterMap Fact.unsatisfied?).head? (startPath context checkName)
      (facts.filterMap Fact.required?).reverse = .ok p) :
    p.length = madeCount facts checkName := by
  obtain ⟨made, rfl, hmade⟩ := says_addRequirements hp
  have hlength : (leaving facts checkName).length = made.length := hmade.length_eq
  rw [List.length_append, List.length_reverse, length_startPath, madeCount, hlength, Nat.add_comm]

/-- The steps of the checked trait and of the requirements, and what stands after them. -/
theorem exists_kept {facts : List Fact} {context checkName : Option String} {steps : List Step}
    (h : stepsOf facts context checkName = .ok steps) :
    ∃ kept more, steps = kept ++ more ∧ kept.length = madeCount facts checkName ∧ Seated kept ∧
      ∀ s ∈ more, s.kind = .provider → s.status = .unsatisfied := by
  obtain ⟨p, hp, hended⟩ := ended_stepsOf h
  have hlength := length_addRequirements hp
  have hseated := seated_addRequirements hp (seated_startPath context checkName)
  have hends : ∀ {q : Path}, Ends p q → ∃ kept more, q.reverse = kept ++ more ∧
      kept.length = madeCount facts checkName ∧ Seated kept ∧
      ∀ s ∈ more, s.kind = .provider → s.status = .unsatisfied := by
    intro q hq
    obtain ⟨kept, more, hsteps, hkept, hseat, hunmet⟩ := seated_of_ends hq hseated
    exact ⟨kept, more, hsteps, hkept.trans hlength, hseat, fun s hs _ => hunmet s hs⟩
  cases hended with
  | @missing m name leaf q beside _ _ hq _ _ _ hbeside =>
    obtain ⟨kept, more, hsteps, hkept, hseat, hunmet⟩ := hends hq
    refine ⟨kept, more ++ beside, by rw [hsteps, List.append_assoc], hkept, hseat, ?_⟩
    intro s hs hkind
    rcases List.mem_append.1 hs with hs | hs
    · exact hunmet s hs hkind
    · exact absurd ((siblings_spec hbeside s hs).1.symm.trans hkind) nofun
  | header _ _ hq => exact hends hq
  | last _ _ hq => exact hends hq
  | nothing _ _ hnil =>
    rw [hnil] at hlength
    exact ⟨[], [], rfl, hlength, seated_nil, fun s hs => absurd hs List.not_mem_nil⟩

theorem parent_eq_seat {facts : List Fact} {context checkName : Option String} {steps : List Step}
    (h : stepsOf facts context checkName = .ok steps) {j : Nat} {s : Step}
    (hj : j < madeCount facts checkName) (hs : steps[j]? = some s) (hkind : s.kind = .provider) :
    s.parent = seat steps s j := by
  obtain ⟨kept, more, rfl, hlength, hseated, -⟩ := exists_kept h
  rw [← hlength] at hj
  rw [seat_append (Nat.le_of_lt hj)]
  exact hseated j s (by rw [← hs, List.getElem?_append_left hj]) hkind

/-- Providers that hang below the one at a place: the next one, if it is wrapped by that, and after
it others none of which is wrapped by the one before. -/
inductive Run (steps : List Step) (i : Nat) : Nat → Prop
  | wrapped {outer first : Step} : steps[i]? = some outer → steps[i + 1]? = some first →
      outer.nests first = true → Run steps i (i + 1)
  | beside {j : Nat} {last next : Step} : Run steps i j → steps[j]? = some last →
      steps[j + 1]? = some next → next.kind = .provider → last.nests next = false →
      Run steps i (j + 1)

section Run

variable {steps : List Step} {i j : Nat}

theorem Run.lt (h : Run steps i j) : i < j := by
  induction h with
  | wrapped _ _ _ => exact Nat.lt_succ_self i
  | beside _ _ _ _ _ ih => exact Nat.lt_succ_of_lt ih

theorem Run.kind_eq (h : Run steps i j) {s : Step} (hs : steps[j]? = some s) :
    s.kind = .provider := by
  cases h with
  | wrapped _ hfirst hnests =>
    rw [hfirst] at hs
    cases hs
    exact (Step.nests_spec hnests).1.2
  | beside _ _ hnext hkind _ =>
    rw [hnext] at hs
    cases hs
    exact hkind

theorem Run.outer_kind (h : Run steps i j) {outer : Step} (ho : steps[i]? = some outer) :
    outer.kind = .provider := by
  induction h with
  | wrapped ho' _ hnests =>
    rw [ho] at ho'
    cases ho'
    exact (Step.nests_spec hnests).1.1
  | beside _ _ _ _ _ ih => exact ih

/-- The first provider of a run is wrapped. -/
theorem Run.nests_first (h : Run steps i (i + 1)) {outer first : Step}
    (ho : steps[i]? = some outer) (hf : steps[i + 1]? = some first) : outer.nests first = true := by
  cases h with
  | wrapped ho' hf' hnests =>
    rw [ho] at ho'
    rw [hf] at hf'
    cases ho'
    cases hf'
    exact hnests
  | beside hrun _ _ _ _ => exact absurd hrun.lt (Nat.lt_irrefl i)

/-- Where providers have their seats, one hangs below another exactly when it ends a run. -/
theorem parent_iff_run {n : Nat} (h : ∀ (j : Nat) (s : Step), j < n → steps[j]? = some s →
      s.kind = .provider → s.parent = seat steps s j) {outer inner : Step} (hj : j < n)
    (ho : steps[i]? = some outer) (hi : steps[j]? = some inner) (hok : outer.kind = .provider)
    (hik : inner.kind = .provider) : inner.parent = some i ↔ Run steps i j := by
  induction j generalizing inner with
  | zero =>
    rw [h 0 inner hj hi hik, seat]
    exact ⟨nofun, fun hrun => absurd hrun.lt (Nat.not_lt_zero i)⟩
  | succ j ih =>
    have hlength : j < steps.length := Nat.lt_of_succ_lt (lt_length_of_getElem? hi)
    obtain ⟨last, hlast⟩ : ∃ last, steps[j]? = some last := ⟨_, List.getElem?_eq_getElem hlength⟩
    rw [h (j + 1) inner hj hi hik, seat, hlast, Option.bind_some]
    split
    · -- Beside the last step, so below what that one hangs below.
      rename_i hcase
      obtain ⟨hkind, hnests⟩ := hcase
      rw [Bool.not_eq_true'] at hnests
      rw [ih (Nat.lt_of_succ_lt hj) hlast hkind]
      refine ⟨fun hrun => .beside hrun hlast hi hik hnests, fun hrun => ?_⟩
      cases hrun with
      | wrapped hfrom hto hwraps =>
        rw [(Run.wrapped hfrom hto hwraps).nests_first hlast hi] at hnests
        cases hnests
      | beside hrun _ _ _ _ => exact hrun
    · -- Below the last step, which is no provider or wraps the new one.
      rename_i hcase
      refine ⟨fun hplace => ?_, fun hrun => ?_⟩
      · obtain rfl := Option.some.inj hplace
        rw [ho] at hlast
        cases hlast
        refine .wrapped ho hi ?_
        rw [hok] at hcase
        simpa using hcase
      · cases hrun with
        | wrapped _ _ _ => rfl
        | beside hrun hfrom hto _ hapart =>
          rw [hi] at hto
          cases hto
          rw [hlast] at hfrom
          cases hfrom
          exact absurd ⟨hrun.kind_eq hlast, by rw [hapart]; rfl⟩ hcase

end Run

/-- The place of the step that a requirement leaves. -/
def MadeAt (facts : List Fact) (c : Chain) (r : Requirement) (j : Nat) : Prop :=
  ∃ k, (leaving facts c.checkName)[k]? = some r ∧ j = c.checkName.toList.length + k

/-- A provider of a requirement that hangs below a provider is wrapped by it. -/
def WellNested (facts : List Fact) (c : Chain) : Prop :=
  ∀ (r : Requirement) (i j : Nat) (outer inner : Step), MadeAt facts c r j →
    c.steps[i]? = some outer → c.steps[j]? = some inner → outer.kind = .provider →
    inner.kind = .provider → inner.parent = some i → outer.nests inner = true

section Chains

variable {facts : List Fact} {context : Option String} {c : Chain}

theorem MadeAt.lt {r : Requirement} {j : Nat} (h : MadeAt facts c r j) :
    j < madeCount facts c.checkName := by
  obtain ⟨k, hk, rfl⟩ := h
  exact Nat.add_lt_add_left (lt_length_of_getElem? hk) _

theorem MadeAt.of_lt {j : Nat} (hj : j < madeCount facts c.checkName)
    (hcheck : c.checkName.toList.length ≤ j) : ∃ r, MadeAt facts c r j := by
  obtain ⟨k, rfl⟩ := Nat.exists_eq_add_of_le hcheck
  have hk : k < (leaving facts c.checkName).length := Nat.lt_of_add_lt_add_left hj
  exact ⟨_, k, List.getElem?_eq_getElem hk, rfl⟩

/-- Only an unmet provider is not one of a requirement. -/
theorem exists_madeAt (h : ofFacts facts context = .ok c) {j : Nat} {s : Step}
    (hs : c.steps[j]? = some s) (hkind : s.kind = .provider) :
    (∃ r, MadeAt facts c r j) ∨ s.status = .unsatisfied := by
  have hshaped := shaped_ofFacts h
  obtain ⟨steps, hsteps, h⟩ := bind_ok.1 h
  obtain ⟨kept, more, hparts, hlength, -, hunmet⟩ := exists_kept hsteps
  cases h
  by_cases hj : j < kept.length
  · left
    refine MadeAt.of_lt (by rwa [← hlength]) (Nat.le_of_not_lt fun hlt => ?_)
    -- The only place before the requirements is that of the checked trait.
    cases hname : (facts.filterMap Fact.requiredBy?).getLast? with
    | none =>
      rw [hname] at hlt
      exact absurd hlt (Nat.not_lt_zero j)
    | some name =>
      obtain ⟨first, hfirst, hcheck⟩ := hshaped.check (by rw [hname]; exact nofun)
      rw [hname] at hlt
      obtain rfl : j = 0 := by simpa using hlt
      rw [List.head?_eq_getElem?, hs] at hfirst
      cases hfirst
      exact absurd (hkind.symm.trans hcheck) nofun
  · right
    dsimp only at hs
    rw [hparts, List.getElem?_append_right (Nat.le_of_not_lt hj)] at hs
    exact hunmet s (List.mem_of_getElem? hs) hkind

/-- A provider of a requirement hangs below another provider exactly when it ends a run from there,
and is wrapped by it when it is the first of the run. So all of them are wrapped by what they hang
below exactly when those that end runs are. -/
theorem hangs_of_ofFacts (h : ofFacts facts context = .ok c) :
    (∀ (r : Requirement) (i j : Nat) (outer inner : Step), MadeAt facts c r j →
      c.steps[i]? = some outer → c.steps[j]? = some inner → outer.kind = .provider →
      inner.kind = .provider →
      (inner.parent = some i ↔ Run c.steps i j) ∧
        (inner.parent = some i → j = i + 1 → outer.nests inner = true)) ∧
    (∀ (j : Nat) (s : Step), c.steps[j]? = some s → s.kind = .provider →
      (∃ r, MadeAt facts c r j) ∨ s.status = .unsatisfied) ∧
    (WellNested facts c ↔ ∀ (r : Requirement) (i j : Nat) (outer inner : Step),
      MadeAt facts c r j → c.steps[i]? = some outer → c.steps[j]? = some inner →
      Run c.steps i j → outer.nests inner = true) := by
  have hrun : ∀ (r : Requirement) (i j : Nat) (outer inner : Step), MadeAt facts c r j →
      c.steps[i]? = some outer → c.steps[j]? = some inner → outer.kind = .provider →
      inner.kind = .provider → (inner.parent = some i ↔ Run c.steps i j) := by
    obtain ⟨steps, hsteps, h⟩ := bind_ok.1 h
    cases h
    intro r i j outer inner hmade ho hi hok hik
    have hseats := fun j s hj hs hkind => parent_eq_seat (j := j) (s := s) hsteps hj hs hkind
    exact parent_iff_run hseats hmade.lt ho hi hok hik
  refine ⟨fun r i j outer inner hmade ho hi hok hik => ?_, fun j s hs hkind => ?_, ?_⟩
  · refine ⟨hrun r i j outer inner hmade ho hi hok hik, fun hparent hnext => ?_⟩
    subst hnext
    exact ((hrun r i (i + 1) outer inner hmade ho hi hok hik).1 hparent).nests_first ho hi
  · exact exists_madeAt h hs hkind
  · constructor
    · intro hnested r i j outer inner hmade ho hi hends
      have hok := hends.outer_kind ho
      have hik := hends.kind_eq hi
      exact hnested r i j outer inner hmade ho hi hok hik
        ((hrun r i j outer inner hmade ho hi hok hik).2 hends)
    · intro hall r i j outer inner hmade ho hi hok hik hparent
      exact hall r i j outer inner hmade ho hi
        ((hrun r i j outer inner hmade ho hi hok hik).1 hparent)

/-- Three providers' requirements, deepest first. The outermost one wraps the next one, but not the
last one, which has no further argument. -/
def scaledNotes : List Fact :=
  [.required ⟨"RectangleArea", "IsProviderFor<AreaComponent, Rectangle>", ""⟩,
    .required ⟨"RectangleArea", "IsProviderFor<AreaComponent, Rectangle, f64>", ""⟩,
    .required ⟨"ScaledArea<RectangleArea>", "IsProviderFor<AreaComponent, Rectangle, f64>", ""⟩]

def rectangleUse (extraArgs : List String) : Step :=
  { Step.providerUse "RectangleArea" "AreaComponent" "Rectangle" extraArgs with parent := some 0 }

def unmetUse : Step := { rectangleUse [] with status := .unsatisfied }

/-- The last provider ends a run and hangs below the outermost one, which does not wrap it. -/
theorem hangs_of_ofFacts_scaled : ∃ c, ofFacts scaledNotes none = .ok c ∧
    c.steps = [scaledUse, rectangleUse ["f64"], unmetUse] ∧ Run c.steps 0 2 ∧
    scaledUse.nests unmetUse = false ∧ ¬WellNested scaledNotes c := by
  have hfields : (ofFacts scaledNotes none).map (fun c => (c.checkName, c.steps)) =
      .ok (none, [scaledUse, rectangleUse ["f64"], unmetUse]) := by decide +kernel
  obtain ⟨c, hc, hfields⟩ := map_ok.1 hfields
  obtain ⟨hname, hsteps⟩ := Prod.mk.inj hfields
  obtain ⟨hparent, -, hnested⟩ := hangs_of_ofFacts hc
  obtain ⟨r, hr⟩ : ∃ r, (leaving scaledNotes none)[2]? = some r := ⟨_, rfl⟩
  have hmade : MadeAt scaledNotes c r 2 := ⟨2, by rw [hname]; exact hr, by rw [hname]; rfl⟩
  have houter : c.steps[0]? = some scaledUse := by rw [hsteps]; rfl
  have hinner : c.steps[2]? = some unmetUse := by rw [hsteps]; rfl
  have hrun : Run c.steps 0 2 := (hparent r 0 2 _ _ hmade houter hinner rfl rfl).1.1 rfl
  have hapart : scaledUse.nests unmetUse = false := by decide +kernel
  refine ⟨c, hc, hsteps, hrun, hapart, fun hall => ?_⟩
  have hwraps := hnested.1 hall r 0 2 _ _ hmade houter hinner hrun
  rw [hapart] at hwraps
  cases hwraps

end Chains

end Chain

end TraitTrace
