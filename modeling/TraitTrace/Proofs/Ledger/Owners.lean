import TraitTrace.Proofs.Chain.Context
import TraitTrace.Proofs.Ledger.Keys
import TraitTrace.Proofs.Ledger.Records

/-! Which error owns a diagnostic. Its records stand at the place of their error; each tells its
context or tells none, and a known context was told by one of them. Hence a chain that is read for
an error is read with the context its own facts tell, if they tell one, and which diagnostics share
an error can be read off their places and contexts, where those leave no choice. -/

namespace TraitTrace

namespace Record

def span (r : Record) : Option Location := r.diagnostic.primarySpan.map Span.location

def context (r : Record) : Option String := rootContext r.facts

/-- Records at one place that do not tell different contexts. -/
def Fits (a b : Record) : Prop :=
  a.span = b.span ∧ (a.context = b.context ∨ a.context = none ∨ b.context = none)

/-- Records of which those that tell no context have a place, at which at most one context is
told. -/
structure Placeable (rs : List Record) : Prop where
  placed : ∀ r ∈ rs, r.context = none → r.span ≠ none
  single : ∀ r ∈ rs, r.context = none → ∀ a ∈ rs, ∀ b ∈ rs, a.span = r.span → b.span = r.span →
    a.context ≠ none → b.context ≠ none → a.context = b.context

/-- Records at one place which tell one context or none. -/
theorem Placeable.of_one_place {rs : List Record} {place : Location} {name : String}
    (h : ∀ r ∈ rs, r.span = some place ∧ (r.context = none ∨ r.context = some name)) :
    Placeable rs := by
  constructor
  · intro r hr _
    rw [(h r hr).1]
    exact nofun
  · intro r _ _ a ha b hb _ _ hac hbc
    rw [(h a ha).2.resolve_left hac, (h b hb).2.resolve_left hbc]

end Record

/-- An error whose records stand at its place and tell its context or none; if it is known, one of
them does. -/
structure LogicalError.Owns (e : LogicalError) : Prop where
  span : ∀ r ∈ e.records, r.span = e.span
  context : ∀ r ∈ e.records, r.context = none ∨ r.context = e.context
  told : e.context ≠ none → ∃ r ∈ e.records, r.context = e.context

namespace Ledger

variable {es es' : List LogicalError} {span : Option Location} {context : Option String}
  {seq : Int} {i : Nat}

theorem mem_absorb {r : Record} {e : LogicalError} (h : e ∈ absorb es i r) :
    (∃ j, j ≠ i ∧ es[j]? = some e) ∨
      ∃ o, es[i]? = some o ∧ e = o.absorb r := by
  obtain ⟨j, hj⟩ := List.getElem?_of_mem h
  rcases getElem?_modified hj with ⟨rfl, o, ho, rfl⟩ | ⟨hne, hold⟩
  · exact .inr ⟨o, ho, rfl⟩
  · exact .inl ⟨j, hne, hold⟩

/-- The error that is found has the context it was looked for with, if that was known. -/
theorem Placed.owner (h : Placed es span context seq es' i) :
    ∃ e, es'[i]? = some e ∧ e.span = span ∧ (context = none ∨ e.context = context) := by
  cases h with
  | known hi hs hc => exact ⟨_, hi, hs, hc.symm⟩
  | enriched hname hi hs _ _ =>
    refine ⟨_, List.getElem?_set_self (lt_length_of_getElem? hi), hs, .inr hname.symm⟩
  | opened _ => exact ⟨_, List.getElem?_concat_length, rfl, .inr rfl⟩

theorem Placed.owns (h : Placed es span context seq es' i) (hes : ∀ e ∈ es, e.Owns) {r : Record}
    (hspan : r.span = span) (hcontext : r.context = context) : ∀ e ∈ absorb es' i r, e.Owns := by
  -- The error that takes the record owned its other records, but for a context it just took.
  have hjoin : ∀ o : LogicalError, o.span = span → (context = none ∨ o.context = context) →
      (∀ x ∈ o.records, x.span = o.span) →
      (∀ x ∈ o.records, x.context = none ∨ x.context = o.context) →
      (o.context ≠ none → o.context = context ∨ ∃ x ∈ o.records, x.context = o.context) →
      (o.absorb r).Owns := by
    intro o hos hoc hspans hcontexts htold
    refine ⟨fun x hx => ?_, fun x hx => ?_, fun hknown => ?_⟩
    · rcases List.mem_append.1 hx with hx | hx
      · exact hspans x hx
      · rw [List.mem_singleton.1 hx]
        exact hspan.trans hos.symm
    · rcases List.mem_append.1 hx with hx | hx
      · exact hcontexts x hx
      · rw [List.mem_singleton.1 hx, hcontext]
        exact hoc.imp id Eq.symm
    · rcases htold hknown with hsame | ⟨x, hx, hxc⟩
      · exact ⟨r, List.mem_append_right _ List.mem_cons_self, hcontext.trans hsame.symm⟩
      · exact ⟨x, List.mem_append_left _ hx, hxc⟩
  intro e he
  cases h with
  | known hi hs hc =>
    rcases mem_absorb he with ⟨j, -, hj⟩ | ⟨o, ho, rfl⟩
    · exact hes e (List.mem_of_getElem? hj)
    · rw [hi] at ho
      cases ho
      have hold := hes _ (List.mem_of_getElem? hi)
      exact hjoin _ hs hc.symm hold.span hold.context fun hknown => .inr (hold.told hknown)
  | enriched hname hi hs hnone _ =>
    rcases mem_absorb he with ⟨j, hj, hje⟩ | ⟨o, ho, rfl⟩
    · rw [List.getElem?_set_ne (Ne.symm hj)] at hje
      exact hes e (List.mem_of_getElem? hje)
    · rw [List.getElem?_set_self (lt_length_of_getElem? hi)] at ho
      cases ho
      have hold := hes _ (List.mem_of_getElem? hi)
      refine hjoin _ hs (.inr hname.symm) hold.span (fun x hx => ?_) fun _ => .inl hname.symm
      rcases hold.context x hx with hx | hx
      · exact .inl hx
      · exact .inl (hx.trans hnone)
  | opened _ =>
    rcases mem_absorb he with ⟨j, hj, hje⟩ | ⟨o, ho, rfl⟩
    · rcases getElem?_concat hje with hje | ⟨heq, -⟩
      · exact hes e (List.mem_of_getElem? hje)
      · exact absurd heq hj
    · rw [List.getElem?_concat_length] at ho
      cases ho
      exact hjoin _ rfl (.inr rfl) (fun x hx => absurd hx List.not_mem_nil)
        (fun x hx => absurd hx List.not_mem_nil) fun _ => .inl rfl

theorem owns_merge {l : Ledger} (h : ∀ e ∈ l.errors, e.Owns) (d : Diagnostic) (facts : List Fact)
    (seq : Int) : ∀ e ∈ (l.merge d facts seq).ledger.errors, e.Owns := by
  obtain ⟨es, i, hp, he⟩ := errors_merge l d facts seq
  rw [he]
  exact hp.owns h rfl rfl

/-- A merge reads the facts with the context that they tell, if they tell one; it learns what they
teach, or it fails where they cannot be read. -/
theorem merge_spec (l : Ledger) (d : Diagnostic) (facts : List Fact) (seq : Int) :
    ∃ context, (rootContext facts = none ∨ context = rootContext facts) ∧
      (∀ fault, Chain.ofFacts facts context = .error fault →
        (l.merge d facts seq).owner = .error fault) ∧
      ∀ c, Chain.ofFacts facts context = .ok c → (∃ i, (l.merge d facts seq).owner = .ok i) ∧
        (l.merge d facts seq).ledger.registry = (l.registry.learnAll c.lessons).1 := by
  have hp := placed_place l.errors (d.primarySpan.map Span.location) (rootContext facts) seq
  unfold merge
  dsimp only
  generalize place l.errors (d.primarySpan.map Span.location) (rootContext facts) seq = p at hp ⊢
  obtain ⟨e, he, -, hcontext⟩ := hp.owner
  have howner : ((absorb p.1 p.2.1 ⟨d, facts, seq⟩)[p.2.1]?).getD
      (.fresh (d.primarySpan.map Span.location) none seq) = e.absorb ⟨d, facts, seq⟩ := by
    rw [absorb, List.getElem?_modify, he]
    simp
  rw [howner, LogicalError.context_absorb]
  refine ⟨e.context, hcontext, fun fault hread => ?_, fun c hread => ?_⟩
  · rw [hread]
  · rw [hread]
    exact ⟨⟨_, rfl⟩, rfl⟩

/-- A merge without a fault has read the facts and learned what they teach, whichever error they
went to. -/
theorem merge_ok {l : Ledger} {d : Diagnostic} {facts : List Fact} {seq : Int} {i : Nat}
    (h : (l.merge d facts seq).owner = .ok i) :
    ∃ c, Chain.ofFacts facts none = .ok c ∧
      (l.merge d facts seq).ledger.registry = (l.registry.learnAll c.lessons).1 := by
  obtain ⟨context, hcontext, hfault, hok⟩ := merge_spec l d facts seq
  have hlessons := Chain.lessons_ofFacts hcontext
  cases hread : Chain.ofFacts facts context with
  | error fault =>
    rw [hfault fault hread] at h
    cases h
  | ok c =>
    obtain ⟨c', hc', hsame⟩ := exists_of_map_eq hlessons hread
    exact ⟨c', hc', by rw [(hok c hread).2, hsame]⟩

theorem exists_owner {facts : List Fact} {c : Chain} (h : Chain.ofFacts facts none = .ok c)
    (l : Ledger) (d : Diagnostic) (seq : Int) : ∃ i, (l.merge d facts seq).owner = .ok i := by
  obtain ⟨context, hcontext, -, hok⟩ := merge_spec l d facts seq
  obtain ⟨c', hc', -⟩ := exists_of_map_eq (Chain.lessons_ofFacts hcontext).symm h
  exact (hok c' hc').1

/-- Where places and contexts leave no choice, two diagnostics have one owner exactly when they fit
together. -/
theorem same_owner_iff {rs : List Record} (hd : Distinct es) (howns : ∀ e ∈ es, e.Owns)
    (hrs : (records es).Perm rs) (hp : Record.Placeable rs) {i j : Nat} {e o : LogicalError}
    {a b : Record} (hi : es[i]? = some e) (hj : es[j]? = some o) (ha : a ∈ e.records)
    (hb : b ∈ o.records) : i = j ↔ a.Fits b := by
  have hmem : ∀ {k : Nat} {x : LogicalError} {r : Record}, es[k]? = some x → r ∈ x.records →
      r ∈ rs := by
    intro k x r hk hr
    exact hrs.mem_iff.1 (List.mem_flatMap.2 ⟨x, List.mem_of_getElem? hk, hr⟩)
  have he := howns e (List.mem_of_getElem? hi)
  have ho := howns o (List.mem_of_getElem? hj)
  have hspans : e.span = a.span ∧ o.span = b.span := ⟨(he.span a ha).symm, (ho.span b hb).symm⟩
  constructor
  · rintro rfl
    rw [hi] at hj
    cases hj
    refine ⟨hspans.1.symm.trans hspans.2, ?_⟩
    rcases he.context a ha with hnone | hac
    · exact .inr (.inl hnone)
    · rcases he.context b hb with hnone | hbc
      · exact .inr (.inr hnone)
      · exact .inl (hac.trans hbc.symm)
  · rintro ⟨hspan, hcontext⟩
    by_contra hne
    have hsame : e.span = o.span := by rw [hspans.1, hspans.2, hspan]
    obtain ⟨hkey, hknown⟩ := hd.apart i j e o hi hj hne hsame
    -- A record that tells no context stands at a place at which one context is told at most.
    have hlone : ∀ r ∈ rs, r.context = none → r.span = e.span → False := by
      intro r hr hnone hrs
      have hspan := hp.placed r hr hnone
      rw [hrs] at hspan
      obtain ⟨hec, hoc⟩ := hknown hspan
      obtain ⟨x, hx, hxc⟩ := he.told hec
      obtain ⟨y, hy, hyc⟩ := ho.told hoc
      have hxy := hp.single r hr hnone x (hmem hi hx) y (hmem hj hy)
        ((he.span x hx).trans hrs.symm) ((ho.span y hy).trans (hsame.symm.trans hrs.symm))
        (by rw [hxc]; exact hec) (by rw [hyc]; exact hoc)
      exact hec (hkey (hxc.symm.trans (hxy.trans hyc))).2
    by_cases hanone : a.context = none
    · exact hlone a (hmem hi ha) hanone hspans.1.symm
    · by_cases hbnone : b.context = none
      · exact hlone b (hmem hj hb) hbnone (hspan.symm.trans hspans.1.symm)
      · have hab := (hcontext.resolve_right fun h => h.elim hanone hbnone)
        have hac := (he.context a ha).resolve_left hanone
        have hbc := (ho.context b hb).resolve_left hbnone
        exact hanone (hac.trans (hkey (hac.symm.trans (hab.trans hbc))).2)

end Ledger

end TraitTrace
