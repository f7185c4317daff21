import TraitTrace.Proofs.Chain.Reading
import TraitTrace.Proofs.Fact.Missing

/-! Tags in facts. A chain decodes no other tags than those that stand in its facts, so that facts
whose tags can all be decoded are read as a chain for whatever context. -/

namespace TraitTrace

/-- The tag of a field in a fact: that of a field access, of a missing field, or of a field that a
context has instead. -/
def Fact.tag? : Fact → Option String
  | .unsatisfied b => Chain.accessTag? b.traitName
  | .required r => Chain.accessTag? r.traitName
  | .missing m => some m.tag
  | .alternate a => if a.isAnchored then a.otherArgs.head? else none
  | .requiredBy _ => none
  | .blanket _ => none

theorem Fact.eq_of_required? {f : Fact} {r : Requirement} (h : f.required? = some r) :
    f = .required r := by
  cases f <;> cases h
  rfl

theorem Fact.eq_of_unsatisfied? {f : Fact} {b : UnsatisfiedBound} (h : f.unsatisfied? = some b) :
    f = .unsatisfied b := by
  cases f <;> cases h
  rfl

theorem Fact.eq_of_alternate? {f : Fact} {a : AlternateImpl} (h : f.alternate? = some a) :
    f = .alternate a := by
  cases f <;> cases h
  rfl

namespace Chain

/-- All tags in facts can be decoded. -/
def Decodes (facts : List Fact) : Prop :=
  ∀ f ∈ facts, ∀ tag, f.tag? = some tag → ∃ name, FieldName.decode tag = .ok name

theorem siblingTag?_sub {m : MissingField} {a : AlternateImpl} {tag : String}
    (h : siblingTag? m a = some tag) : (Fact.alternate a).tag? = some tag := by
  unfold siblingTag? at h
  rw [Fact.tag?]
  split at h
  · rename_i context tag' more _ hargs
    split at h
    · rename_i hsame
      obtain ⟨hanchored, -⟩ := Bool.and_eq_true_iff.1 hsame
      rw [if_pos hanchored, hargs]
      exact h
    · cases h
  · cases h

/-- Every tag that is decoded stands in a fact. -/
theorem exists_fact_of_mem_readTags {facts : List Fact} {tag : String}
    (h : tag ∈ readTags facts) : ∃ f ∈ facts, f.tag? = some tag := by
  unfold readTags at h
  rcases List.mem_append.1 h with h | h
  · obtain ⟨r, hr, htag⟩ := List.mem_filterMap.1 h
    obtain ⟨f, hf, hfr⟩ := List.mem_filterMap.1 hr
    exact ⟨f, hf, by rw [Fact.eq_of_required? hfr]; exact htag⟩
  · split at h
    · rename_i m _ hm
      rcases List.mem_cons.1 h with rfl | h
      · exact ⟨_, missing_mem_of_primaryMissing hm, rfl⟩
      · obtain ⟨a, ha, htag⟩ := List.mem_filterMap.1 h
        obtain ⟨f, hf, hfa⟩ := List.mem_filterMap.1 ha
        exact ⟨f, hf, by rw [Fact.eq_of_alternate? hfa]; exact siblingTag?_sub htag⟩
    · rename_i b _ hb
      obtain ⟨f, hf, hfb⟩ := List.mem_filterMap.1 (List.mem_of_head? hb)
      exact ⟨f, hf, by rw [Fact.eq_of_unsatisfied? hfb]; exact Option.mem_toList.1 h⟩
    · exact absurd h List.not_mem_nil

theorem exists_ofFacts {facts : List Fact} (h : Decodes facts) (context : Option String) :
    ∃ c, ofFacts facts context = .ok c := by
  obtain ⟨steps, hsteps⟩ := exists_stepsOf_iff.2 fun tag htag => by
    obtain ⟨f, hf, hft⟩ := exists_fact_of_mem_readTags htag
    exact h f hf tag hft
  exact ⟨_, bind_ok.2 ⟨steps, hsteps, rfl⟩⟩

end Chain

end TraitTrace
