import Mathlib.Logic.Relation
import TraitTrace.Chain.Build
import TraitTrace.Proofs.Outcome

/-! How a path grows. Every way to attach a requirement, a missing field or a header to a path is
one of three moves: a step below the last one, a provider beside a provider, or a change of the last
step that keeps its role and its parent. What ends a path is one move to an unmet step. -/

namespace TraitTrace

namespace Step

/-- A consumer step has a marker or a contract. -/
def IsNamed (s : Step) : Prop := s.kind = .consumer → s.marker ≠ none ∨ s.contract ≠ none

/-- A step that may stand below another one. -/
def IsPlain (s : Step) : Prop := s.kind ≠ .check ∧ s.IsNamed

theorem isPlain_of_kind {s : Step} (hc : s.kind ≠ .check) (hk : s.kind ≠ .consumer) : s.IsPlain :=
  ⟨hc, fun h => absurd h hk⟩

theorem isPlain_consumerUse (context marker : String) : (consumerUse context marker).IsPlain :=
  ⟨nofun, fun _ => .inl nofun⟩

theorem isPlain_consumerTrait (context traitText : String) :
    (consumerTrait context traitText).IsPlain := ⟨nofun, fun _ => .inr nofun⟩

theorem isPlain_getter (context traitText : String) : (getter context traitText).IsPlain :=
  isPlain_of_kind nofun nofun

theorem isPlain_providerUse (provider marker : String) (context : Option String)
    (extraArgs : List String) : (providerUse provider marker context extraArgs).IsPlain :=
  isPlain_of_kind nofun nofun

theorem isPlain_fieldOf (context : String) (name : FieldName) : (fieldOf context name).IsPlain :=
  isPlain_of_kind nofun nofun

/-- A step with another status, and if it is a provider perhaps with another trait. -/
structure Keeps (s t : Step) : Prop where
  kind : t.kind = s.kind
  context : t.context = s.context
  marker : t.marker = s.marker
  provider : t.provider = s.provider
  extraArgs : t.extraArgs = s.extraArgs
  contract : s.kind ≠ .provider → t.contract = s.contract

theorem Keeps.refl (s : Step) : s.Keeps s := ⟨rfl, rfl, rfl, rfl, rfl, fun _ => rfl⟩

theorem keeps_status (s : Step) (status : Status) : s.Keeps { s with status := status } :=
  ⟨rfl, rfl, rfl, rfl, rfl, fun _ => rfl⟩

theorem Keeps.isNamed {s t : Step} (h : s.Keeps t) (hs : s.IsNamed) : t.IsNamed := by
  intro hkind
  rw [h.kind] at hkind
  rw [h.marker, h.contract (by rw [hkind]; exact nofun)]
  exact hs hkind

end Step

namespace Path

open Relation

/-- One move by which a path grows. -/
inductive Grows : Path → Path → Prop
  | below {p : Path} {s : Step} : s.IsPlain → Grows p (p.below s)
  | beside {last : Step} {p : Path} {s : Step} : last.kind = .provider → s.kind = .provider →
      Grows (last :: p) (Path.beside (last :: p) s)
  | change {last new : Step} {p : Path} : new.kind = last.kind → new.parent = last.parent →
      (last.IsNamed → new.IsNamed) → Grows (last :: p) (new :: p)

theorem exists_addProvider (p : Path) (s : Step) :
    ∃ parent, p.addProvider s = { s with parent := parent } :: p := by
  cases p with
  | nil => exact ⟨_, rfl⟩
  | cons last p =>
    dsimp only [Path.addProvider]
    split <;> exact ⟨_, rfl⟩

theorem grows_addProvider (p : Path) {s : Step} (hs : s.kind = .provider) :
    Grows p (p.addProvider s) := by
  have hbelow : Grows p (p.below s) := by
    refine .below (Step.isPlain_of_kind ?_ ?_) <;> rw [hs] <;> exact nofun
  cases p with
  | nil => exact hbelow
  | cons last p =>
    dsimp only [Path.addProvider]
    split
    · rename_i hcase
      exact .beside hcase.1 hs
    · exact hbelow

/-- One move that ends a path in an unmet step. -/
inductive Ends : Path → Path → Prop
  | below {p : Path} {s : Step} : s.IsPlain → s.status = .unsatisfied → Ends p (p.below s)
  | change {last new : Step} {p : Path} : last.Keeps new → new.parent = last.parent →
      new.status = .unsatisfied → Ends (last :: p) (new :: p)

theorem Ends.grows {p q : Path} (h : Ends p q) : Grows p q := by
  cases h with
  | below hs _ => exact .below hs
  | change hkeeps hparent _ => exact .change hkeeps.kind hparent hkeeps.isNamed

theorem Ends.unmet {p q : Path} (h : Ends p q) :
    ∃ leaf rest, q = leaf :: rest ∧ leaf.status = .unsatisfied ∧ rest ⊆ p := by
  cases h with
  | below _ hs => exact ⟨_, p, rfl, hs, List.Subset.refl p⟩
  | change _ _ hnew => exact ⟨_, _, rfl, hnew, List.subset_cons_self _ _⟩

theorem Ends.leaf_spec {p q : Path} {leaf : Step} (h : Ends p (leaf :: q)) :
    leaf.status = .unsatisfied ∧ q ⊆ p := by
  obtain ⟨_, _, heq, hleaf⟩ := h.unmet
  cases heq
  exact hleaf

theorem ends_markUnsatisfied (last : Step) (p : Path) :
    Ends (last :: p) (markUnsatisfied (last :: p)) := .change (last.keeps_status _) rfl rfl

end Path

namespace Chain

open TraitTrace.Path Relation

theorem grows_addRequirements {checkName : Option String} {missing : Option MissingField}
    {header : Option UnsatisfiedBound} {rs : List Requirement} {p q : Path}
    (hq : addRequirements checkName missing header p rs = .ok q) : ReflTransGen Grows p q := by
  induction rs generalizing p with
  | nil =>
    cases hq
    exact .refl
  | cons r rs ih =>
    unfold addRequirements at hq
    split at hq
    · exact .head (.below (Step.isPlain_consumerUse _ _)) (ih hq)
    · exact .head (grows_addProvider p rfl) (ih hq)
    · obtain ⟨name, -, hq⟩ := bind_ok.1 hq
      exact .head (.below (Step.isPlain_fieldOf _ name)) (ih hq)
    · split at hq
      · exact ih hq
      · refine .head (.below ?_) (ih hq)
        split
        · exact Step.isPlain_getter _ _
        · exact Step.isPlain_consumerTrait _ _

theorem ends_addMissing (p : Path) (m : MissingField) (name : FieldName) :
    ∃ leaf q, addMissing p m name = leaf :: q ∧ Ends p (leaf :: q) ∧ leaf.kind = .field ∧
      leaf.context = some m.context ∧ leaf.field = some name := by
  have hplain := Step.isPlain_fieldOf m.context name
  unfold addMissing
  split
  · rename_i last hl
    obtain ⟨q, rfl⟩ := List.head?_eq_some_iff.1 hl
    split
    · rename_i hcase
      exact ⟨_, q, rfl, ends_markUnsatisfied last q, hcase⟩
    · exact ⟨_, last :: q, rfl, .below hplain rfl, rfl, rfl, rfl⟩
  · exact ⟨_, p, rfl, .below hplain rfl, rfl, rfl, rfl⟩

theorem isPlain_headerStep {subject traitText : String} {shape : Contract} {s : Step}
    (h : headerStep subject traitText shape = .ok s) : s.IsPlain := by
  cases shape with
  | consumerUse marker =>
    cases h
    exact Step.isPlain_consumerUse subject marker
  | providerUse marker context extra =>
    cases h
    exact Step.isPlain_providerUse subject marker context extra
  | fieldAccess tag =>
    obtain ⟨name, -, rfl⟩ := map_ok.1 h
    exact Step.isPlain_fieldOf subject name
  | plainTrait name args =>
    cases h
    exact Step.isPlain_consumerTrait subject traitText

theorem ends_addHeader {p q : Path} {b : UnsatisfiedBound} (hq : addHeader p b = .ok q) :
    Ends p q := by
  -- The header's step on its own, wherever the path does not end in what the header names.
  have halone : (headerStep b.context b.traitName (Contract.classify b.traitName)).map (fun s =>
      p.below { s with status := .unsatisfied }) = .ok q → Ends p q := by
    intro hq
    obtain ⟨s, hs, rfl⟩ := map_ok.1 hq
    have hplain := isPlain_headerStep hs
    exact .below hplain rfl
  unfold addHeader at hq
  dsimp only at hq
  split at hq
  · exact halone hq
  · rename_i last hl
    obtain ⟨p, rfl⟩ := List.head?_eq_some_iff.1 hl
    split at hq
    · cases hq
      exact ends_markUnsatisfied last p
    · split at hq
      · split at hq
        · rename_i hnames
          cases hq
          have hkind : last.kind = .provider := by
            simp only [namesProvider, Bool.and_eq_true, decide_eq_true_eq] at hnames
            exact hnames.1
          exact .change ⟨rfl, rfl, rfl, rfl, rfl, fun h => absurd hkind h⟩ rfl rfl
        · split at hq
          · rename_i hwraps
            cases hq
            have hkind : last.kind = .provider := by
              simp only [wrapsSubject, Bool.and_eq_true, decide_eq_true_eq] at hwraps
              exact hwraps.1
            refine .below (Step.isPlain_of_kind ?_ ?_) rfl <;> dsimp only <;> rw [hkind] <;>
              exact StepKind.noConfusion
          · split at hq
            · split at hq
              · cases hq
                exact .below (Step.isPlain_of_kind StepKind.noConfusion StepKind.noConfusion) rfl
              · exact halone hq
            · exact halone hq
      · exact halone hq

end Chain

end TraitTrace
