import Mathlib
import TraitTrace.Proofs.Chain.Origins
import TraitTrace.Proofs.Graph.Calls

/-! What keys tell apart. Requirements of one subject and one trait have different nodes if their
arguments differ, unless both are consumers: the key of a consumer names its component, and further
arguments of the component and all arguments of a trait with a known name are lost. -/

namespace TraitTrace

open TypeExpr

namespace Contract

theorem args_of_providerUse {traitText marker : String} {context : Option String}
    {extra : List String} (h : classify traitText = .providerUse marker context extra) :
    (parseGeneric traitText).args = marker :: (context.toList ++ extra) := by
  unfold classify at h
  generalize parseGeneric traitText = t at h
  obtain ⟨head, args⟩ := t
  cases args with
  | nil => cases h
  | cons first more =>
    dsimp only at h
    split at h
    · cases h
    · split at h
      · cases h
        cases more <;> rfl
      · split at h <;> cases h

theorem parse_of_plainTrait {traitText name : String} {args : List String}
    (h : classify traitText = .plainTrait name args) :
    parseGeneric traitText = ⟨name, args⟩ ∧ (name = consumerUseTrait → args = []) := by
  unfold classify at h
  generalize parseGeneric traitText = t at h
  obtain ⟨head, params⟩ := t
  cases params with
  | nil =>
    cases h
    exact ⟨rfl, fun _ => rfl⟩
  | cons first more =>
    dsimp only at h
    split at h
    · cases h
    · rename_i huse
      split at h
      · cases h
      · split at h
        · cases h
        · cases h
          exact ⟨rfl, fun hname => absurd hname huse⟩

/-- The arguments of a trait as one text. -/
def argumentText (traitText : String) : String := ", ".intercalate (parseGeneric traitText).args

/-- Traits with the same arguments up to blanks. They are compared as one text, since a blank after a
comma can decide whether the quote before it opens a literal. -/
def SameArguments (a b : String) : Prop := sameType (argumentText a) (argumentText b) = true

theorem sameArguments_of_eq {a b : String} (h : argumentText a = argumentText b) :
    SameArguments a b := by
  rw [SameArguments, h, sameType]
  exact beq_self_eq_true _

/-- Traits of one name are printed alike only if their arguments are. -/
theorem sameArguments_of_traitText {a b name name' : String} {as bs : List String}
    (hhead : genericHead a = genericHead b) (ha : classify a = .plainTrait name as)
    (hb : classify b = .plainTrait name' bs) (h : traitText name as = traitText name' bs) :
    SameArguments a b := by
  have hpa := (parse_of_plainTrait ha).1
  have hpb := (parse_of_plainTrait hb).1
  rw [genericHead, genericHead, hpa, hpb] at hhead
  obtain rfl : name = name' := hhead
  apply sameArguments_of_eq
  rw [argumentText, argumentText, hpa, hpb]
  dsimp only
  have hlonger : ∀ text : String, name ≠ name ++ "<" ++ text ++ ">" := by
    intro text heq
    have hlength := congrArg String.length heq
    have hopen : "<".length = 1 := rfl
    rw [String.length_append, String.length_append, String.length_append, hopen] at hlength
    omega
  unfold traitText at h
  cases as with
  | nil =>
    cases bs with
    | nil => rfl
    | cons b bs => exact absurd h (hlonger _)
  | cons a as =>
    cases bs with
    | nil => exact absurd h.symm (hlonger _)
    | cons b bs =>
      have htexts := (String.append_left_inj _).1 h
      rw [String.append_assoc, String.append_assoc] at htexts
      exact (String.append_right_inj _).1 ((String.append_right_inj _).1 htexts)

/-- The component that a consumer goes by: the one that it uses or that the registry knows under the
trait's name, or else the trait itself. -/
def consumerComponent (r : Registry) (trait : String) : Option String :=
  match classify trait with
  | .consumerUse marker => some marker
  | .plainTrait name args =>
    let text := traitText name args
    some (orElseText (r.markerFor .consumer (genericHead text)) (consumerPrefix ++ text))
  | _ => none

/-- A trait whose key tells its arguments: a use of a component without further arguments and with a
name that is not made for a trait, a use of a provider, or a trait whose name the registry does not
know. -/
def KeepsArguments (r : Registry) (trait : String) : Prop :=
  match classify trait with
  | .consumerUse marker =>
    (parseGeneric trait).args = [marker] ∧ ∀ text, marker ≠ consumerPrefix ++ text
  | .providerUse .. => True
  | .fieldAccess _ => False
  | .plainTrait name args =>
    Chain.nonempty? (r.markerFor .consumer (genericHead (traitText name args))) = none

section Keeping

variable {r : Registry} {a b : String}

theorem consumerComponent_of_keeps {name : String} {args : List String}
    (hkeeps : KeepsArguments r a) (ha : classify a = .plainTrait name args) :
    consumerComponent r a = some (consumerPrefix ++ traitText name args) := by
  rw [KeepsArguments, ha] at hkeeps
  rw [consumerComponent, ha]
  dsimp only at hkeeps ⊢
  cases hknown : r.markerFor .consumer (genericHead (traitText name args)) with
  | none => rfl
  | some marker =>
    rw [hknown] at hkeeps
    have hempty : marker.isEmpty = true := by simpa [Chain.nonempty?] using hkeeps
    rw [orElseText, if_pos hempty]

theorem consumer_cases (h : consumerComponent r a ≠ none) :
    (∃ marker, classify a = .consumerUse marker) ∨ ∃ name args, classify a = .plainTrait name args := by
  unfold consumerComponent at h
  split at h
  · rename_i marker hshape
    exact .inl ⟨marker, hshape⟩
  · rename_i name args hshape
    exact .inr ⟨name, args, hshape⟩
  · exact absurd rfl h

/-- Consumers of one component have the same arguments where their keys tell them. -/
theorem sameArguments_of_component (hhead : genericHead a = genericHead b)
    (ha : KeepsArguments r a) (hb : KeepsArguments r b)
    (h : consumerComponent r a = consumerComponent r b) (hsome : consumerComponent r a ≠ none) :
    SameArguments a b := by
  have huse : ∀ {t marker : String}, classify t = .consumerUse marker →
      consumerComponent r t = some marker := by
    intro t marker ht
    rw [consumerComponent, ht]
  rcases consumer_cases hsome with ⟨marker, hsa⟩ | ⟨name, as, hsa⟩
  · have hta := ha
    rw [KeepsArguments, hsa] at hta
    rw [huse hsa] at h
    rcases consumer_cases (r := r) (a := b) (by rw [← h]; nofun) with ⟨other, hsb⟩ | ⟨name, bs, hsb⟩
    · rw [huse hsb] at h
      rw [KeepsArguments, hsb] at hb
      apply sameArguments_of_eq
      rw [argumentText, argumentText, hta.1, hb.1, Option.some.inj h]
    · rw [consumerComponent_of_keeps hb hsb] at h
      exact absurd (Option.some.inj h) (hta.2 _)
  · rw [consumerComponent_of_keeps ha hsa] at h
    rcases consumer_cases (r := r) (a := b) (by rw [← h]; nofun) with ⟨other, hsb⟩ | ⟨name', bs, hsb⟩
    · rw [huse hsb] at h
      rw [KeepsArguments, hsb] at hb
      exact absurd (Option.some.inj h).symm (hb.2 _)
    · rw [consumerComponent_of_keeps hb hsb] at h
      exact sameArguments_of_traitText hhead hsa hsb
        ((String.append_right_inj _).1 (Option.some.inj h))

end Keeping

end Contract

namespace Step

open Contract

/-- What the key of a step has of the requirement that the step says. -/
inductive Known (r : Registry) (a : Requirement) (s : Step) : Prop
  | consumer : s.kind = .consumer → consumerComponent r a.traitName ≠ none →
      s.nodeKey r = .ok (.consumer (some a.subject) (consumerComponent r a.traitName)) → s.Known r a
  | provider {marker : String} {context : Option String} {extra : List String} :
      s.kind = .provider → classify a.traitName = .providerUse marker context extra →
      s.nodeKey r = .ok (.provider (some a.subject) (some marker) context extra) → s.Known r a
  | field {tag : String} : s.kind = .field → classify a.traitName = .fieldAccess tag → s.Known r a
  | getter {name : String} {args : List String} : s.kind = .getter →
      classify a.traitName = .plainTrait name args →
      s.nodeKey r = .ok (.getter (some a.subject) (some (traitText name args))) → s.Known r a

theorem Says.known {s : Step} {a : Requirement} (hs : s.Says a) (r : Registry) : s.Known r a := by
  have hconsumer : s.kind = .consumer → s.context = some a.subject → ∀ component : String,
      s.component r = .ok (some component) → consumerComponent r a.traitName = some component →
      s.Known r a := by
    intro hkind hcontext component hstep hcomponent
    refine .consumer hkind (by rw [hcomponent]; exact nofun) ?_
    rw [nodeKey, hkind]
    dsimp only
    rw [hstep, hcontext, hcomponent]
    rfl
  unfold Says at hs
  split at hs
  · rename_i marker hshape
    obtain ⟨hkind, hcontext, hmarker⟩ := hs
    exact hconsumer hkind hcontext marker (by rw [component, hkind, hmarker])
      (by rw [consumerComponent, hshape])
  · rename_i marker context extra hshape
    obtain ⟨hkind, hcontext, hmarker, hprovider, hextra⟩ := hs
    refine .provider hkind hshape ?_
    rw [nodeKey, hkind]
    dsimp only
    rw [component, hkind, hmarker, hcontext, hprovider, hextra]
    rfl
  · rename_i tag hshape
    exact .field hs.1 hshape
  · rename_i name args hshape
    obtain ⟨hkind, hcontext, hmarker, hcontract⟩ := hs
    rcases hkind with hkind | hkind
    · refine .getter hkind hshape ?_
      rw [nodeKey, hkind]
      dsimp only
      rw [hcontext, hcontract]
    · exact hconsumer hkind hcontext _ (by rw [component, hkind, hmarker, hcontract])
        (by rw [consumerComponent, hshape])

theorem Known.nodeKey_consumer {r : Registry} {a : Requirement} {s : Step} (h : s.Known r a)
    (hkind : s.kind = .consumer) :
    s.nodeKey r = .ok (.consumer (some a.subject) (consumerComponent r a.traitName)) := by
  cases h with
  | consumer _ _ hkey => exact hkey
  | provider hother _ _ => cases hkind.symm.trans hother
  | field hother _ => cases hkind.symm.trans hother
  | getter hother _ _ => cases hkind.symm.trans hother

/-- Steps of one key come of the same arguments, or else they are consumers of one component. -/
theorem Known.same_or_component {r : Registry} {s t : Step} {a b : Requirement} (hs : s.Known r a)
    (ht : t.Known r b) (hhead : genericHead a.traitName = genericHead b.traitName)
    (hfield : ∀ tag, classify a.traitName ≠ .fieldAccess tag)
    (hkey : s.nodeKey r = t.nodeKey r) :
    SameArguments a.traitName b.traitName ∨ (s.kind = .consumer ∧ t.kind = .consumer ∧
      consumerComponent r a.traitName ≠ none ∧
      consumerComponent r a.traitName = consumerComponent r b.traitName) := by
  cases hs with
  | consumer hks hsome hsk =>
    rw [hsk] at hkey
    have hkt : t.kind = .consumer := (kind_nodeKey hkey.symm).symm
    rw [ht.nodeKey_consumer hkt] at hkey
    exact .inr ⟨hks, hkt, hsome, (NodeKey.consumer.inj (Except.ok.inj hkey)).2⟩
  | field _ hshape => exact absurd hshape (hfield _)
  | provider hks hsa hsk =>
    rw [hsk] at hkey
    have hkt : t.kind = .provider := (kind_nodeKey hkey.symm).symm
    cases ht with
    | consumer hother _ _ => cases hkt.symm.trans hother
    | field hother _ => cases hkt.symm.trans hother
    | getter hother _ _ => cases hkt.symm.trans hother
    | provider _ hsb htk =>
      rw [htk] at hkey
      obtain ⟨-, hmarker, hcontext, hextra⟩ := NodeKey.provider.inj (Except.ok.inj hkey)
      refine .inl (sameArguments_of_eq ?_)
      rw [argumentText, argumentText, args_of_providerUse hsa, args_of_providerUse hsb,
        Option.some.inj hmarker, hcontext, hextra]
  | getter hks hsa hsk =>
    rw [hsk] at hkey
    have hkt : t.kind = .getter := (kind_nodeKey hkey.symm).symm
    cases ht with
    | consumer hother _ _ => cases hkt.symm.trans hother
    | field hother _ => cases hkt.symm.trans hother
    | provider hother _ _ => cases hkt.symm.trans hother
    | getter _ hsb htk =>
      rw [htk] at hkey
      have htext := Option.some.inj (NodeKey.getter.inj (Except.ok.inj hkey)).2
      exact .inl (sameArguments_of_traitText hhead hsa hsb htext)

end Step

namespace Graph

open Contract

/-- Two requirements of one subject and one trait but `HasField`, of whatever diagnostics, that are
brought into one graph: where their keys tell the arguments, they share a node only if these are the
same, and with different arguments they share one exactly as consumers of one component. -/
theorem told_apart {r : Registry} {calls : List (Step × Handle)} {g : Graph}
    {facts facts' : List Fact} {context context' : Option String} {c c' : Chain}
    {a b : Requirement} {s t : Step} {h i : Handle} (hg : Takes r empty calls g)
    (hc : Chain.ofFacts facts context = .ok c) (hc' : Chain.ofFacts facts' context' = .ok c')
    (hs : c.Makes facts a s) (ht : c'.Makes facts' b t) (hsubject : a.subject = b.subject)
    (hhead : genericHead a.traitName = genericHead b.traitName)
    (hfield : ∀ tag, classify a.traitName ≠ .fieldAccess tag)
    (hsh : (s, h) ∈ calls) (hti : (t, i) ∈ calls) :
    (KeepsArguments r a.traitName → KeepsArguments r b.traitName → h = i →
        SameArguments a.traitName b.traitName) ∧
      (¬SameArguments a.traitName b.traitName →
        (h = i ↔ s.kind = .consumer ∧ t.kind = .consumer ∧
          consumerComponent r a.traitName = consumerComponent r b.traitName)) := by
  have hsaid := hs.says hc
  have hsaid' := ht.says hc'
  have hsa := hsaid.known r
  have htb := hsaid'.known r
  have hcases := hsa.same_or_component htb hhead hfield
  rw [hg.collected.handle_eq_iff hsh hti]
  refine ⟨fun ha hb hkey => ?_, fun hdiffer => ⟨fun hkey => ?_, ?_⟩⟩
  · rcases hcases hkey with hsame | ⟨-, -, hsome, hcomponent⟩
    · exact hsame
    · exact sameArguments_of_component hhead ha hb hcomponent hsome
  · obtain ⟨hks, hkt, -, hcomponent⟩ := (hcases hkey).resolve_left hdiffer
    exact ⟨hks, hkt, hcomponent⟩
  · rintro ⟨hks, hkt, hcomponent⟩
    rw [hsa.nodeKey_consumer hks, htb.nodeKey_consumer hkt, hsubject, hcomponent]

def circleUse : Requirement := ⟨"App", "CanUseComponent<AreaComponent, Circle>", ""⟩

def squareUse : Requirement := ⟨"App", "CanUseComponent<AreaComponent, Square>", ""⟩

/-- The step of either requirement. -/
def areaUse : Step := { Step.consumerUse "App" "AreaComponent" with status := .unsatisfied }

/-- Uses of one component for a circle and for a square share a node. -/
theorem told_apart_circle_square : ∃ c c' g,
    Chain.ofFacts [.required circleUse] none = .ok c ∧
      Chain.ofFacts [.required squareUse] none = .ok c' ∧
      c.Makes [.required circleUse] circleUse areaUse ∧
      c'.Makes [.required squareUse] squareUse areaUse ∧
      Takes .empty empty [(areaUse, 0), (areaUse, 0)] g ∧
      ¬SameArguments circleUse.traitName squareUse.traitName ∧
      consumerComponent .empty circleUse.traitName =
        consumerComponent .empty squareUse.traitName := by
  have hc : Chain.ofFacts [.required circleUse] none = .ok ⟨some "App", none, [areaUse]⟩ := by cbv
  have hc' : Chain.ofFacts [.required squareUse] none = .ok ⟨some "App", none, [areaUse]⟩ := by cbv
  have hleaving : Chain.leaving [.required circleUse] none = [circleUse] := by cbv
  have hleaving' : Chain.leaving [.required squareUse] none = [squareUse] := by cbv
  have hs : Chain.Makes [.required circleUse] ⟨some "App", none, [areaUse]⟩ circleUse areaUse :=
    ⟨0, by rw [hleaving]; rfl, rfl⟩
  have ht : Chain.Makes [.required squareUse] ⟨some "App", none, [areaUse]⟩ squareUse areaUse :=
    ⟨0, by rw [hleaving']; rfl, rfl⟩
  obtain ⟨first, second, hfirst, hsecond⟩ : ∃ f g, empty.intern .empty areaUse 0 = .ok (f, 0) ∧
      f.intern .empty areaUse 1 = .ok (g, 0) := ⟨_, _, rfl, rfl⟩
  have hg : Takes .empty empty [(areaUse, 0), (areaUse, 0)] second :=
    (Takes.nil.step hfirst).step hsecond
  have hcircle : classify circleUse.traitName = .consumerUse "AreaComponent" := by cbv
  have hhead : genericHead circleUse.traitName = genericHead squareUse.traitName := by cbv
  have hdiffer : ¬SameArguments circleUse.traitName squareUse.traitName := by
    have hfalse : sameType (argumentText circleUse.traitName) (argumentText squareUse.traitName) =
        false := by cbv
    rw [SameArguments, hfalse]
    exact Bool.false_ne_true
  have hfield : ∀ tag, classify circleUse.traitName ≠ .fieldAccess tag := by
    intro tag h
    rw [hcircle] at h
    cases h
  have hshared := (told_apart hg hc hc' hs ht rfl hhead hfield List.mem_cons_self
    (List.mem_cons_of_mem _ List.mem_cons_self)).2 hdiffer
  exact ⟨_, _, second, hc, hc', hs, ht, hg, hdiffer, (hshared.1 rfl).2.2⟩

end Graph

end TraitTrace
