import TraitTrace.Proofs.Ledger.Confluence

/-! How merges file records. A merge returns one error, adds its record at the end of that error's
records and leaves every other error as it is. So every record is in the one error that its merge
returned, in the order of the merges, and an error keeps its place, its number and, once it is
known, its context. -/

namespace TraitTrace

namespace Fact

theorem absorb_eq_loop (known facts : List Fact) : absorb known facts =
    List.eraseDupsBy.loop (fun f g => f.statement = g.statement) facts known.reverse := by
  induction facts generalizing known with
  | nil => rw [absorb, List.eraseDupsBy.loop, List.reverse_reverse]
  | cons f facts ih =>
    have hany : (known.any fun k => k.statement = f.statement) =
        known.reverse.any fun k => f.statement = k.statement := by
      simp only [List.any_reverse, eq_comm]
    rw [absorb, List.eraseDupsBy.loop, hany]
    cases known.reverse.any fun k => f.statement = k.statement with
    | true => exact ih known
    | false =>
      have hlast := ih (known ++ [f])
      rw [List.reverse_append] at hlast
      exact hlast

/-- What is absorbed from nothing on is each statement's first fact. -/
theorem absorb_nil_eq (facts : List Fact) :
    absorb [] facts = facts.eraseDupsBy fun f g => f.statement = g.statement :=
  absorb_eq_loop [] facts

end Fact

namespace LogicalError

/-- An error and what becomes of it: it keeps its place, its number and a known context, and further
records come behind its own. -/
structure Later (e e' : LogicalError) : Prop where
  span : e'.span = e.span
  firstSeen : e'.firstSeen = e.firstSeen
  context : e.context = none ∨ e'.context = e.context
  records : e.records <+: e'.records

theorem Later.refl (e : LogicalError) : e.Later e := ⟨rfl, rfl, .inr rfl, List.prefix_rfl⟩

theorem Later.trans {e e' e'' : LogicalError} (h : e.Later e') (h' : e'.Later e'') :
    e.Later e'' := by
  refine ⟨h'.span.trans h.span, h'.firstSeen.trans h.firstSeen, ?_, h.records.trans h'.records⟩
  rcases h.context with hnone | hsame
  · exact .inl hnone
  · exact h'.context.imp hsame.symm.trans fun hsame' => hsame'.trans hsame

end LogicalError

namespace Ledger

/-- What a merge does that returns the error at an index: this error gains the record, or it is the
next one and starts with the record; no other error changes, comes or goes. -/
structure Alters (es es' : List LogicalError) (r : Record) (i : Nat) : Prop where
  others : ∀ j, j ≠ i → es'[j]? = es[j]?
  owner : ∃ e', es'[i]? = some e' ∧
    ((∃ e, es[i]? = some e ∧ e.Later e' ∧ e'.records = e.records ++ [r]) ∨
      (i = es.length ∧ e'.records = [r] ∧ e'.firstSeen = r.seq))

section Alters

variable {es es' : List LogicalError} {span : Option Location} {context : Option String}
  {r : Record} {i : Nat}

theorem getElem?_absorb_self {e : LogicalError} (h : es[i]? = some e) :
    (absorb es i r)[i]? = some (e.absorb r) := by
  rw [absorb, List.getElem?_modify_eq, h]
  rfl

theorem getElem?_absorb_of_ne {j : Nat} (h : j ≠ i) : (absorb es i r)[j]? = es[j]? := by
  rw [absorb, List.getElem?_modify_ne _ _ (Ne.symm h)]

theorem Placed.alters (h : Placed es span context r.seq es' i) :
    Alters es (absorb es' i r) r i := by
  cases h with
  | @known _ e hi _ _ =>
    have hnew := getElem?_absorb_self (r := r) hi
    exact ⟨fun j hj => getElem?_absorb_of_ne hj, _, hnew,
      .inl ⟨e, hi, ⟨rfl, rfl, .inr rfl, List.prefix_append _ _⟩, rfl⟩⟩
  | @enriched _ e name _ hi _ hnone _ =>
    have hset : (es.set i { e with context := some name })[i]? =
        some { e with context := some name } := List.getElem?_set_self (lt_length_of_getElem? hi)
    refine ⟨fun j hj => ?_, _, getElem?_absorb_self hset,
      .inl ⟨e, hi, ⟨rfl, rfl, .inl hnone, List.prefix_append _ _⟩, rfl⟩⟩
    rw [getElem?_absorb_of_ne hj, List.getElem?_set_ne (Ne.symm hj)]
  | opened _ =>
    have hlast : (es ++ [LogicalError.fresh span context r.seq])[es.length]? =
        some (.fresh span context r.seq) := List.getElem?_concat_length
    refine ⟨fun j hj => ?_, _, getElem?_absorb_self hlast, .inr ⟨rfl, rfl, rfl⟩⟩
    rw [getElem?_absorb_of_ne hj]
    rcases Nat.lt_or_gt_of_ne hj with hlt | hgt
    · exact List.getElem?_append_left hlt
    · rw [List.getElem?_eq_none (Nat.le_of_lt hgt)]
      exact List.getElem?_eq_none (by rw [List.length_append, List.length_singleton]; exact hgt)

theorem Alters.later (h : Alters es es' r i) {j : Nat} {e : LogicalError} (hj : es[j]? = some e) :
    ∃ e', es'[j]? = some e' ∧ e.Later e' := by
  by_cases hij : j = i
  · subst hij
    obtain ⟨e', he', ⟨o, ho, hlater, -⟩ | ⟨hlast, -⟩⟩ := h.owner
    · rw [hj] at ho
      cases ho
      exact ⟨e', he', hlater⟩
    · exact absurd (lt_length_of_getElem? hj) (hlast ▸ Nat.lt_irrefl _)
  · exact ⟨e, (h.others j hij).trans hj, .refl e⟩

end Alters

/-- The error that a merge returns is the one that its place and its context come to. -/
theorem alters_of_owner {l : Ledger} {h : Held} {i : Nat}
    (ho : (l.merge h.diagnostic h.facts h.seq).owner = .ok i) :
    Alters l.errors (l.merge h.diagnostic h.facts h.seq).ledger.errors h.record i := by
  have hp := placed_place l.errors (h.diagnostic.primarySpan.map Span.location)
    (rootContext h.facts) h.seq
  unfold merge at ho ⊢
  dsimp only at ho ⊢
  split at ho
  · cases ho
  · cases ho
    exact hp.alters (r := h.record)

/-- The ledger after some merges into an empty one. -/
def afterCalls (calls : List (Held × Nat)) : Ledger := empty.mergeAll (calls.map Prod.fst)

theorem afterCalls_concat (calls : List (Held × Nat)) (h : Held) (i : Nat) :
    afterCalls (calls ++ [(h, i)]) =
      ((afterCalls calls).merge h.diagnostic h.facts h.seq).ledger := by
  rw [afterCalls, afterCalls, mergeAll, mergeAll, List.map_append, List.foldl_append]
  rfl

/-- Merges into an empty ledger, each with the index of the error that it returns, so that none of
them fails. -/
inductive Returns : List (Held × Nat) → Prop
  | nil : Returns []
  | concat {calls : List (Held × Nat)} {h : Held} {i : Nat} : Returns calls →
      ((afterCalls calls).merge h.diagnostic h.facts h.seq).owner = .ok i →
      Returns (calls ++ [(h, i)])

theorem Returns.alters {before : List (Held × Nat)} {c : Held × Nat}
    (h : Returns (before ++ [c])) :
    Returns before ∧
      Alters (afterCalls before).errors (afterCalls (before ++ [c])).errors c.1.record c.2 := by
  generalize hcalls : before ++ [c] = calls at h
  cases h with
  | nil => exact absurd hcalls (List.append_ne_nil_of_right_ne_nil _ (List.cons_ne_nil _ _))
  | concat hinit ho =>
    obtain ⟨rfl, hc⟩ := List.append_inj' hcalls rfl
    obtain rfl := List.singleton_inj.1 hc
    rw [afterCalls_concat]
    exact ⟨hinit, alters_of_owner ho⟩

theorem Returns.init {before more : List (Held × Nat)} (h : Returns (before ++ more)) :
    Returns before := by
  induction more using List.reverseRecOn with
  | nil => rwa [List.append_nil] at h
  | append_singleton more c ih =>
    rw [← List.append_assoc] at h
    exact ih h.alters.1

/-- Errors that have the records of the merges that returned them. -/
structure Filed (calls : List (Held × Nat)) (es : List LogicalError) : Prop where
  owner : ∀ c ∈ calls, c.2 < es.length
  records : ∀ (j : Nat) (e : LogicalError), es[j]? = some e →
    e.records = (calls.filter fun c => c.2 = j).map fun c => c.1.record
  firstSeen : ∀ e ∈ es, e.records.head?.map Record.seq = some e.firstSeen

theorem filed_nil : Filed [] [] := ⟨by simp, by simp, by simp⟩

section Filed

variable {calls : List (Held × Nat)} {es es' : List LogicalError} {h : Held} {i : Nat}

theorem Filed.records_concat (hf : Filed calls es) (ha : Alters es es' h.record i) {j : Nat}
    {e : LogicalError} (hj : es'[j]? = some e) :
    e.records = ((calls ++ [(h, i)]).filter fun c => c.2 = j).map fun c => c.1.record := by
  rw [List.filter_append, List.map_append]
  by_cases hij : j = i
  · subst hij
    have hnew : (([(h, j)] : List (Held × Nat)).filter fun c => c.2 = j) = [(h, j)] := by simp
    rw [hnew, List.map_singleton]
    obtain ⟨e', he', ⟨o, ho, -, hrecords⟩ | ⟨hlast, hrecords, -⟩⟩ := ha.owner
    · rw [hj] at he'
      cases he'
      rw [hrecords, hf.records j o ho]
    · rw [hj] at he'
      cases he'
      have hnone : (calls.filter fun c => c.2 = j) = [] := by
        rw [List.filter_eq_nil_iff]
        intro c hc hcj
        have hlt := hf.owner c hc
        rw [of_decide_eq_true hcj, hlast] at hlt
        exact Nat.lt_irrefl _ hlt
      rw [hrecords, hnone]
      rfl
  · have hnew : (([(h, i)] : List (Held × Nat)).filter fun c => c.2 = j) = [] := by
      simp [Ne.symm hij]
    rw [hnew, List.map_nil, List.append_nil]
    exact hf.records j e ((ha.others j hij).symm.trans hj)

theorem Filed.firstSeen_concat (hf : Filed calls es) (ha : Alters es es' h.record i) :
    ∀ e ∈ es', e.records.head?.map Record.seq = some e.firstSeen := by
  intro e he
  obtain ⟨j, hj⟩ := List.getElem?_of_mem he
  by_cases hij : j = i
  · subst hij
    obtain ⟨e', he', ⟨o, ho, hlater, hrecords⟩ | ⟨-, hrecords, hseq⟩⟩ := ha.owner
    · rw [hj] at he'
      cases he'
      have hold := hf.firstSeen o (List.mem_of_getElem? ho)
      rw [hrecords, hlater.firstSeen, ← hold]
      cases hos : o.records with
      | nil =>
        rw [hos] at hold
        cases hold
      | cons first rest => rfl
    · rw [hj] at he'
      cases he'
      rw [hrecords, hseq]
      rfl
  · exact hf.firstSeen e (List.mem_of_getElem? ((ha.others j hij).symm.trans hj))

theorem Filed.concat (hf : Filed calls es) (ha : Alters es es' h.record i) :
    Filed (calls ++ [(h, i)]) es' := by
  refine ⟨fun c hc => ?_, fun j e hj => hf.records_concat ha hj, hf.firstSeen_concat ha⟩
  rcases List.mem_append.1 hc with hc | hc
  · obtain ⟨e', he', -⟩ := ha.later (List.getElem?_eq_getElem (hf.owner c hc))
    exact lt_length_of_getElem? he'
  · obtain ⟨e', he', -⟩ := ha.owner
    rw [List.mem_singleton.1 hc]
    exact lt_length_of_getElem? he'

end Filed

theorem filed_afterCalls {calls : List (Held × Nat)} (h : Returns calls) :
    Filed calls (afterCalls calls).errors := by
  induction h with
  | nil => exact filed_nil
  | concat hinit ho ih =>
    rw [afterCalls_concat]
    exact ih.concat (alters_of_owner ho)

/-- Errors stay where they are, whatever is merged after them. -/
theorem Returns.later {before more : List (Held × Nat)} (h : Returns (before ++ more)) {j : Nat}
    {e : LogicalError} (hj : (afterCalls before).errors[j]? = some e) :
    ∃ e', (afterCalls (before ++ more)).errors[j]? = some e' ∧ e.Later e' := by
  induction more using List.reverseRecOn with
  | nil => exact ⟨e, by rwa [List.append_nil], .refl e⟩
  | append_singleton more c ih =>
    rw [← List.append_assoc] at h ⊢
    obtain ⟨hinit, halters⟩ := h.alters
    obtain ⟨e', he', hlater⟩ := ih hinit
    obtain ⟨e'', he'', hlater'⟩ := halters.later he'
    exact ⟨e'', he'', hlater.trans hlater'⟩

/-- Merges into an empty ledger, none of which fails. Each record is in the error that its merge
returned, behind the records of earlier merges that returned it; the first of them numbers the
error. The records of an error stand at its place and tell its context or none, and its facts are
theirs, each statement once and where it first came. From any point of the run on an error keeps its
index, its place, its number and a known context, and each merge changes no error but the one it
returns. -/
theorem filed_of_merges {calls : List (Held × Nat)} (h : Returns calls) :
    Filed calls (afterCalls calls).errors ∧
      (∀ e ∈ (afterCalls calls).errors, e.Owns ∧ e.facts =
        (e.records.flatMap Record.facts).eraseDupsBy fun f g => f.statement = g.statement) ∧
      (∀ before more, calls = before ++ more → ∀ (j : Nat) (e : LogicalError),
        (afterCalls before).errors[j]? = some e →
          ∃ e', (afterCalls calls).errors[j]? = some e' ∧ e.Later e') ∧
      ∀ before c more, calls = before ++ c :: more →
        Alters (afterCalls before).errors (afterCalls (before ++ [c])).errors c.1.record c.2 := by
  refine ⟨filed_afterCalls h, fun e he => ⟨(holds_mergeAll _).owns e he, ?_⟩, ?_, ?_⟩
  · exact e.facts_eq.trans (Fact.absorb_nil_eq _)
  · rintro before more rfl j e hj
    exact h.later hj
  · rintro before c more rfl
    rw [List.append_cons] at h
    exact h.init.alters.2

def enrichingCalls : List (Held × Nat) := [(blanketHeld, 0), (lackingHeld, 0)]

theorem returns_enriching : Returns enrichingCalls := by
  have hfirst : ((afterCalls []).merge blanketHeld.diagnostic blanketHeld.facts
      blanketHeld.seq).owner = .ok 0 := by cbv
  have hsecond : ((afterCalls [(blanketHeld, 0)]).merge lackingHeld.diagnostic lackingHeld.facts
      lackingHeld.seq).owner = .ok 0 := by cbv
  exact (Returns.nil.concat hfirst).concat hsecond

/-- A rule that comes before the field it wants: its error has no context until the field tells
one. -/
theorem filed_of_merges_enriching : Returns enrichingCalls ∧
    Filed enrichingCalls (afterCalls enrichingCalls).errors ∧
    ∃ e e', (afterCalls [(blanketHeld, 0)]).errors[0]? = some e ∧ e.context = none ∧
      (afterCalls enrichingCalls).errors[0]? = some e' ∧ e'.context = some "A" ∧ e.Later e' := by
  obtain ⟨hfiled, -, hlater, -⟩ := filed_of_merges returns_enriching
  have hbefore : (afterCalls [(blanketHeld, 0)]).errors[0]?.map LogicalError.context =
      some none := by cbv
  have hafter : (afterCalls enrichingCalls).errors[0]?.map LogicalError.context =
      some (some "A") := by cbv
  obtain ⟨e, he, hcontext⟩ := Option.map_eq_some_iff.1 hbefore
  obtain ⟨e', he', hle⟩ := hlater [(blanketHeld, 0)] [(lackingHeld, 0)] rfl 0 e he
  rw [he'] at hafter
  exact ⟨returns_enriching, hfiled, e, e', he, hcontext, he', Option.some.inj hafter, hle⟩

end Ledger

end TraitTrace
