import Mathlib
import TraitTrace.Proofs.Chain.Tags
import TraitTrace.Proofs.Ledger.Owners

/-! Merges in any order. Where places and contexts leave no choice, the records of an error are all
those that fit one of them. Hence ledgers that took in the same diagnostics in two orders have the
same entries: their keys, what they state and which diagnostics they hold do not depend on what came
first. -/

namespace TraitTrace

/-- A list whose values are those of another in some order can be put in the order of the other. -/
theorem exists_perm_of_map_perm {α β γ : Type} {f : α → γ} {g : β → γ} {xs : List α} {ys : List β}
    (h : (xs.map f).Perm (ys.map g)) :
    ∃ zs, xs.Perm zs ∧ List.Forall₂ (fun z y => f z = g y) zs ys := by
  have hkeys : List.Forall₂ (fun k x => f x = k) (xs.map f) xs :=
    List.forall₂_map_left_iff.2 (List.forall₂_same.2 fun _ _ => rfl)
  obtain ⟨zs, hzs, hperm⟩ := List.perm_comp_forall₂ h.symm hkeys
  exact ⟨zs, hperm.symm, (List.forall₂_map_left_iff.1 hzs).flip⟩

namespace Fact

/-- What is absorbed states what was known and what is new. -/
theorem mem_statements_absorb (known facts : List Fact) (s : Fact) :
    s ∈ (absorb known facts).map statement ↔
      s ∈ known.map statement ∨ s ∈ facts.map statement := by
  induction facts generalizing known with
  | nil => simp [absorb]
  | cons f facts ih =>
    rw [absorb, List.map_cons, List.mem_cons]
    split
    · rename_i hknown
      obtain ⟨k, hk, hsame⟩ := List.any_eq_true.1 hknown
      have hmem : f.statement ∈ known.map statement :=
        List.mem_map.2 ⟨k, hk, of_decide_eq_true hsame⟩
      rw [ih]
      constructor
      · exact fun h => h.imp id .inr
      · rintro (h | rfl | h)
        · exact .inl h
        · exact .inl hmem
        · exact .inr h
    · rw [ih, List.map_append, List.mem_append, List.map_singleton, List.mem_singleton, or_assoc]

end Fact

/-- A diagnostic with its facts, without its number. -/
def Record.pair (r : Record) : Diagnostic × List Fact := (r.diagnostic, r.facts)

def Held.record (h : Held) : Record := ⟨h.diagnostic, h.facts, h.seq⟩

def Held.pair (h : Held) : Diagnostic × List Fact := h.record.pair

/-- Two errors that are one entry: they have one key, state the same and hold the same
diagnostics. -/
structure LogicalError.Matches (e e' : LogicalError) : Prop where
  key : e.key = e'.key
  facts : ∀ s, s ∈ e.facts.map Fact.statement ↔ s ∈ e'.facts.map Fact.statement
  diagnostics : (e.records.map Record.diagnostic).Perm (e'.records.map Record.diagnostic)

namespace Ledger

/-- Merges one after the other, each of which has an owner. -/
inductive Merges : Ledger → List Held → Ledger → Prop
  | nil (l : Ledger) : Merges l [] l
  | cons {l l' : Ledger} {h : Held} {hs : List Held} {i : Nat} :
      (l.merge h.diagnostic h.facts h.seq).owner = .ok i →
      Merges (l.merge h.diagnostic h.facts h.seq).ledger hs l' → Merges l (h :: hs) l'

theorem merges_mergeAll {hs : List Held} (h : ∀ x ∈ hs, Chain.Decodes x.facts) (l : Ledger) :
    Merges l hs (l.mergeAll hs) := by
  induction hs generalizing l with
  | nil => exact .nil l
  | cons x hs ih =>
    obtain ⟨c, hc⟩ := Chain.exists_ofFacts (h x List.mem_cons_self) none
    obtain ⟨i, hi⟩ := exists_owner hc l x.diagnostic x.seq
    exact .cons hi (ih (fun y hy => h y (List.mem_cons_of_mem x hy)) _)

/-- Errors that merges of some records lead to. -/
structure Holds (es : List LogicalError) (rs : List Record) : Prop where
  distinct : Distinct es
  owns : ∀ e ∈ es, e.Owns
  records : (Ledger.records es).Perm rs
  nonempty : ∀ e ∈ es, e.records ≠ []

theorem holds_nil : Holds [] [] :=
  ⟨.nil, fun _ he => absurd he List.not_mem_nil, .nil, fun _ he => absurd he List.not_mem_nil⟩

theorem Holds.merge {l : Ledger} {rs : List Record} (h : Holds l.errors rs) (x : Held) :
    Holds (l.merge x.diagnostic x.facts x.seq).ledger.errors (x.record :: rs) :=
  ⟨h.distinct.merge .., owns_merge h.owns _ _ _, (perm_records_merge ..).trans (h.records.cons _),
    records_ne_nil_merge _ _ _ h.nonempty⟩

theorem Holds.mergeAll {l : Ledger} {rs : List Record} (h : Holds l.errors rs) (hs : List Held) :
    Holds (l.mergeAll hs).errors (hs.reverse.map Held.record ++ rs) := by
  induction hs generalizing l rs with
  | nil => exact h
  | cons x hs ih =>
    have hrest := ih (h.merge x)
    rwa [List.reverse_cons, List.map_append, List.append_assoc]

theorem holds_mergeAll (hs : List Held) :
    Holds (empty.mergeAll hs).errors (hs.map Held.record) := by
  have h := holds_nil.mergeAll (l := empty) hs
  rw [List.append_nil] at h
  exact ⟨h.distinct, h.owns, h.records.trans (hs.reverse_perm.map _), h.nonempty⟩

/-- The records of one error are those records of all errors that have a property, if it tells them
from the records of the others. -/
theorem filter_records {es : List LogicalError} {i : Nat} {e : LogicalError} {p : Record → Bool}
    (hi : es[i]? = some e)
    (hp : ∀ (j : Nat) (o : LogicalError), es[j]? = some o → ∀ r ∈ o.records, (p r = true ↔ i = j)) :
    (records es).filter p = e.records := by
  induction es generalizing i with
  | nil => cases hi
  | cons o es ih =>
    rw [records_cons, List.filter_append]
    cases i with
    | zero =>
      obtain rfl := Option.some.inj hi
      have hall : o.records.filter p = o.records :=
        List.filter_eq_self.2 fun r hr => (hp 0 o rfl r hr).2 rfl
      have hnone : (records es).filter p = [] := by
        rw [List.filter_eq_nil_iff]
        intro r hr hpr
        obtain ⟨x, hx, hrx⟩ := List.mem_flatMap.1 hr
        obtain ⟨j, hj⟩ := List.getElem?_of_mem hx
        exact absurd ((hp (j + 1) x hj r hrx).1 hpr) (Nat.succ_ne_zero j).symm
      rw [hall, hnone, List.append_nil]
    | succ i =>
      have hnone : o.records.filter p = [] := by
        rw [List.filter_eq_nil_iff]
        exact fun r hr hpr => absurd ((hp 0 o rfl r hr).1 hpr) (Nat.succ_ne_zero i)
      rw [hnone, List.nil_append]
      refine ih hi fun j x hj r hr => ?_
      rw [hp (j + 1) x hj r hr, Nat.add_right_cancel_iff]

instance (a b : Record) : Decidable (a.Fits b) := inferInstanceAs (Decidable (_ ∧ _))

namespace Holds

variable {es es' : List LogicalError} {rs rs' : List Record}

/-- An error has the records that fit one of its own. -/
theorem filter_fits (h : Holds es rs) (hp : Record.Placeable rs) {e : LogicalError} {a : Record}
    (he : e ∈ es) (ha : a ∈ e.records) :
    (e.records.map Record.pair).Perm
      ((rs.map Record.pair).filter fun x => a.Fits ⟨x.1, x.2, 0⟩) := by
  obtain ⟨i, hi⟩ := List.getElem?_of_mem he
  have hown : (Ledger.records es).filter (fun r => a.Fits r) = e.records :=
    filter_records hi fun j o hj r hr => by
      rw [decide_eq_true_iff]
      exact (same_owner_iff h.distinct h.owns h.records hp hi hj ha hr).symm
  rw [← hown, List.filter_map]
  exact (h.records.filter _).map _

/-- The errors have no key twice, since an error without a place tells its context. -/
theorem nodup_keys (h : Holds es rs) (hp : Record.Placeable rs) :
    (es.map LogicalError.key).Nodup := by
  rw [List.nodup_iff_pairwise_ne, List.pairwise_map, List.pairwise_iff_getElem]
  intro i j hi hj hlt hkey
  obtain ⟨hspan, hcontext⟩ := Prod.mk.inj hkey
  have hapart := h.distinct.apart i j _ _ (List.getElem?_eq_getElem hi)
    (List.getElem?_eq_getElem hj) (Nat.ne_of_lt hlt) hspan
  obtain ⟨hnospan, hnocontext⟩ := hapart.1 hcontext
  have he : es[i] ∈ es := List.getElem_mem hi
  obtain ⟨r, hr⟩ := List.exists_mem_of_ne_nil _ (h.nonempty _ he)
  have howns := h.owns _ he
  have hnone : r.context = none :=
    (howns.context r hr).elim id fun hsame => hsame.trans hnocontext
  have hmem : r ∈ rs := h.records.mem_iff.1 (List.mem_flatMap.2 ⟨_, he, hr⟩)
  exact hp.placed r hmem hnone ((howns.span r hr).trans hnospan)

end Holds

end Ledger

namespace Record

theorem span_of_pair {a b : Record} (h : a.pair = b.pair) : a.span = b.span :=
  congrArg (fun x : Diagnostic × List Fact => x.1.primarySpan.map Span.location) h

theorem context_of_pair {a b : Record} (h : a.pair = b.pair) : a.context = b.context :=
  congrArg (fun x : Diagnostic × List Fact => rootContext x.2) h

theorem fits_congr {a b : Record} (h : a.pair = b.pair) (r : Record) : a.Fits r ↔ b.Fits r := by
  unfold Fits
  rw [span_of_pair h, context_of_pair h]

theorem exists_pair {rs rs' : List Record} (h : (rs.map pair).Perm (rs'.map pair)) {r : Record}
    (hr : r ∈ rs) : ∃ r' ∈ rs', r'.pair = r.pair :=
  List.mem_map.1 (h.mem_iff.1 (List.mem_map_of_mem hr))

theorem Placeable.of_perm {rs rs' : List Record} (hp : Placeable rs)
    (h : (rs.map pair).Perm (rs'.map pair)) : Placeable rs' := by
  constructor
  · intro r' hr' hnone
    obtain ⟨r, hr, hpair⟩ := exists_pair h.symm hr'
    rw [← span_of_pair hpair]
    exact hp.placed r hr ((context_of_pair hpair).trans hnone)
  · intro r' hr' hnone a' ha' b' hb' has hbs hac hbc
    obtain ⟨r, hr, hpair⟩ := exists_pair h.symm hr'
    obtain ⟨a, ha, hpa⟩ := exists_pair h.symm ha'
    obtain ⟨b, hb, hpb⟩ := exists_pair h.symm hb'
    rw [← context_of_pair hpa] at hac ⊢
    rw [← context_of_pair hpb] at hbc ⊢
    rw [← span_of_pair hpa, ← span_of_pair hpair] at has
    rw [← span_of_pair hpb, ← span_of_pair hpair] at hbs
    exact hp.single r hr ((context_of_pair hpair).trans hnone) a ha b hb has hbs hac hbc

end Record

namespace LogicalError

variable {e e' : LogicalError}

theorem Owns.context_eq (h : e.Owns) (h' : e'.Owns)
    (hpairs : (e.records.map Record.pair).Perm (e'.records.map Record.pair))
    (hknown : e.context ≠ none) : e'.context = e.context := by
  obtain ⟨r, hr, hrc⟩ := h.told hknown
  obtain ⟨r', hr', hpair⟩ := Record.exists_pair hpairs hr
  have hsame : r'.context = e.context := (Record.context_of_pair hpair).trans hrc
  exact ((h'.context r' hr').resolve_left (by rwa [hsame])).symm.trans hsame

/-- Two errors that own the same diagnostics with the same facts are one entry. -/
theorem Owns.matches_of_perm (h : e.Owns) (h' : e'.Owns) (hne : e.records ≠ [])
    (hpairs : (e.records.map Record.pair).Perm (e'.records.map Record.pair)) : e.Matches e' := by
  obtain ⟨r, hr⟩ := List.exists_mem_of_ne_nil _ hne
  obtain ⟨r', hr', hpair⟩ := Record.exists_pair hpairs hr
  have hspan : e.span = e'.span := by
    rw [← h.span r hr, ← h'.span r' hr', Record.span_of_pair hpair]
  have hcontext : e.context = e'.context := by
    by_cases hknown : e.context = none
    · by_contra hdiffers
      have hknown' : e'.context ≠ none := fun hnone => hdiffers (hknown.trans hnone.symm)
      exact hdiffers (h'.context_eq h hpairs.symm hknown')
    · exact (h.context_eq h' hpairs hknown).symm
  have hfacts : (e.records.flatMap Record.facts).Perm (e'.records.flatMap Record.facts) := by
    have hflat := hpairs.flatMap_right Prod.snd
    rwa [List.flatMap_map, List.flatMap_map] at hflat
  have hdiagnostics := hpairs.map Prod.fst
  rw [List.map_map, List.map_map] at hdiagnostics
  refine ⟨Prod.ext hspan hcontext, fun s => ?_, hdiagnostics⟩
  rw [e.facts_eq, e'.facts_eq, Fact.mem_statements_absorb,
    Fact.mem_statements_absorb, (hfacts.map Fact.statement).mem_iff]

end LogicalError

namespace Ledger

variable {es es' : List LogicalError} {rs rs' : List Record}

/-- Every error has its counterpart among errors with the same diagnostics. -/
theorem Holds.exists_matches (h : Holds es rs) (h' : Holds es' rs') (hp : Record.Placeable rs)
    (hpairs : (rs.map Record.pair).Perm (rs'.map Record.pair)) {e : LogicalError} (he : e ∈ es) :
    ∃ e' ∈ es', e.Matches e' := by
  obtain ⟨r, hr⟩ := List.exists_mem_of_ne_nil _ (h.nonempty e he)
  have hmem : r ∈ rs := h.records.mem_iff.1 (List.mem_flatMap.2 ⟨e, he, hr⟩)
  obtain ⟨r', hmem', hpair⟩ := Record.exists_pair hpairs hmem
  obtain ⟨e', he', hr'⟩ := List.mem_flatMap.1 (h'.records.mem_iff.2 hmem')
  refine ⟨e', he', (h.owns e he).matches_of_perm (h'.owns e' he') (h.nonempty e he) ?_⟩
  -- Fitting does not look at numbers, so that both errors have what fits the same pair.
  have hfits : (fun x : Diagnostic × List Fact => decide (r.Fits ⟨x.1, x.2, 0⟩)) =
      fun x => decide (r'.Fits ⟨x.1, x.2, 0⟩) :=
    funext fun x => decide_eq_decide.2 (Record.fits_congr hpair.symm _)
  have hown := h.filter_fits hp he hr
  have hown' := h'.filter_fits (hp.of_perm hpairs) he' hr'
  rw [hfits] at hown
  exact (hown.trans (hpairs.filter _)).trans hown'.symm

theorem Holds.keys_subset (h : Holds es rs) (h' : Holds es' rs') (hp : Record.Placeable rs)
    (hpairs : (rs.map Record.pair).Perm (rs'.map Record.pair)) :
    es.map LogicalError.key ⊆ es'.map LogicalError.key := by
  intro k hk
  obtain ⟨e, he, rfl⟩ := List.mem_map.1 hk
  obtain ⟨e', he', hmatch⟩ := h.exists_matches h' hp hpairs he
  exact List.mem_map.2 ⟨e', he', hmatch.key.symm⟩

theorem Holds.exists_perm (h : Holds es rs) (h' : Holds es' rs') (hp : Record.Placeable rs)
    (hpairs : (rs.map Record.pair).Perm (rs'.map Record.pair)) :
    ∃ zs, es.Perm zs ∧ List.Forall₂ LogicalError.Matches zs es' := by
  have hp' := hp.of_perm hpairs
  have hsub := h.keys_subset h' hp hpairs
  have hsub' := h'.keys_subset h hp' hpairs.symm
  have hkeys : (es.map LogicalError.key).Perm (es'.map LogicalError.key) :=
    (List.perm_ext_iff_of_nodup (h.nodup_keys hp) (h'.nodup_keys hp')).2 fun k =>
      ⟨fun hk => hsub hk, fun hk => hsub' hk⟩
  obtain ⟨zs, hzs, hsame⟩ := exists_perm_of_map_perm hkeys
  refine ⟨zs, hzs, forall₂_imp_of_mem hsame fun z hz e' he' hkey => ?_⟩
  obtain ⟨o, ho, hmatch⟩ := h.exists_matches h' hp hpairs (hzs.mem_iff.2 hz)
  have heq := List.inj_on_of_nodup_map (h'.nodup_keys hp') ho he' (hmatch.key.symm.trans hkey)
  rwa [← heq]

/-- Held diagnostics whose tags can be decoded, of which those that tell no context have a place at
which one context is told at most: merged into an empty ledger in two orders, under whatever
numbers, they all find owners, and the entries of the two ledgers correspond one to one. -/
theorem merges_perm {hs hs' : List Held} (hdecodes : ∀ h ∈ hs, Chain.Decodes h.facts)
    (hplaceable : Record.Placeable (hs.map Held.record))
    (hperm : (hs.map Held.pair).Perm (hs'.map Held.pair)) :
    Merges .empty hs (empty.mergeAll hs) ∧ Merges .empty hs' (empty.mergeAll hs') ∧
      ∃ es, (empty.mergeAll hs).errors.Perm es ∧
        List.Forall₂ LogicalError.Matches es (empty.mergeAll hs').errors := by
  have hpairs : ((hs.map Held.record).map Record.pair).Perm
      ((hs'.map Held.record).map Record.pair) := by
    rwa [List.map_map, List.map_map]
  have hdecodes' : ∀ h ∈ hs', Chain.Decodes h.facts := by
    intro h' hmem
    obtain ⟨h, hh, hpair⟩ := List.mem_map.1 (hperm.mem_iff.2 (List.mem_map_of_mem hmem))
    have hfacts : h.facts = h'.facts := congrArg Prod.snd hpair
    rw [← hfacts]
    exact hdecodes h hh
  exact ⟨merges_mergeAll hdecodes _, merges_mergeAll hdecodes' _,
    (holds_mergeAll hs).exists_perm (holds_mergeAll hs') hplaceable hpairs⟩

/-- A missing field and the rule that wants it, told apart at one place. -/
def lackingHeld : Held :=
  ⟨⟨"error", "unmet", none, [⟨"lib.rs", 1, 1, 1, 2, true, 0, 1, none, []⟩], [], none, none⟩,
    [.missing ⟨"A", "Nil", none⟩], 0⟩

def blanketHeld : Held :=
  ⟨lackingHeld.diagnostic, [.blanket ⟨"P", ⟨"lib.rs", 7, 1⟩⟩], 1⟩

theorem decodes_held : ∀ h ∈ [lackingHeld, blanketHeld], Chain.Decodes h.facts := by
  have hnil : FieldName.decode "Nil" = .ok ⟨[]⟩ := by cbv
  intro h hh f hf tag htag
  rcases List.mem_cons.1 hh with rfl | hh
  · rw [List.mem_singleton.1 hf] at htag
    obtain rfl := Option.some.inj htag
    exact ⟨_, hnil⟩
  · rw [List.mem_singleton.1 hh] at hf
    rw [List.mem_singleton.1 hf] at htag
    cases htag

theorem placeable_held : Record.Placeable ([lackingHeld, blanketHeld].map Held.record) := by
  have hall : ∀ r ∈ [lackingHeld, blanketHeld].map Held.record,
      r.span = some ⟨"lib.rs", 1, 1⟩ ∧ (r.context = none ∨ r.context = some "A") := by
    intro r hr
    rcases List.mem_cons.1 hr with rfl | hr
    · exact ⟨rfl, .inr rfl⟩
    · rw [List.mem_singleton.1 hr]
      exact ⟨rfl, .inl rfl⟩
  exact .of_one_place hall

/-- Whichever comes first, the rule joins the error of the field at its place. -/
theorem merges_perm_swapped : (∀ h ∈ [lackingHeld, blanketHeld], Chain.Decodes h.facts) ∧
    Record.Placeable ([lackingHeld, blanketHeld].map Held.record) ∧
    ∃ es, (empty.mergeAll [lackingHeld, blanketHeld]).errors.Perm es ∧
      List.Forall₂ LogicalError.Matches es
        (empty.mergeAll [blanketHeld, lackingHeld]).errors :=
  ⟨decodes_held, placeable_held,
    (merges_perm decodes_held placeable_held
      ((List.Perm.swap blanketHeld lackingHeld []).map Held.pair)).2.2⟩

end Ledger

end TraitTrace
