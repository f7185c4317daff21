import Mathlib.Logic.Equiv.Defs
import TraitTrace.Proofs.Graph.Correspondence
import TraitTrace.Proofs.Ledger.Owners
import TraitTrace.Proofs.Registry.Learning
import TraitTrace.Proofs.Session.Ingestion

/-! Diagnostics in another order of arrival. Two runs over the same diagnostics own them alike and
name components alike, where places and contexts leave no choice of an owner and the lessons do not
contradict each other; then the graphs of the two runs agree. -/

namespace TraitTrace

namespace Session

/-- What a diagnostic teaches that is held and can be read. -/
def taught (d : Diagnostic) : List Lesson :=
  if (Classification.ofDiagnostic d).held then
    match Chain.ofFacts (Classification.ofDiagnostic d).facts none with
    | .ok c => c.lessons
    | .error _ => []
  else []

/-- The same diagnostics in another order: `σ` says where each went. -/
def Shuffled (σ : Equiv.Perm Nat) (ds ds' : List Diagnostic) : Prop := ∀ k, ds'[σ k]? = ds[k]?

variable {σ : Equiv.Perm Nat} {ds ds' : List Diagnostic}

theorem Shuffled.symm (h : Shuffled σ ds ds') : Shuffled σ.symm ds' ds := by
  intro k
  rw [← h, σ.apply_symm_apply]

theorem Shuffled.mem_iff (h : Shuffled σ ds ds') {d : Diagnostic} : d ∈ ds ↔ d ∈ ds' := by
  have hsub : ∀ {τ : Equiv.Perm Nat} {as bs : List Diagnostic}, Shuffled τ as bs → d ∈ as →
      d ∈ bs := by
    intro τ as bs hτ hd
    obtain ⟨k, hk⟩ := List.getElem?_of_mem hd
    exact List.mem_of_getElem? ((hτ k).trans hk)
  exact ⟨hsub h, hsub h.symm⟩

/-- The record of a diagnostic in one order and that in the other. -/
def Image (σ : Equiv.Perm Nat) (r r' : Record) : Prop :=
  ∃ d k, r = recordOf (d, k) ∧ r' = recordOf (d, σ k)

theorem Image.symm {r r' : Record} (h : Image σ r r') : Image σ.symm r' r := by
  obtain ⟨d, k, rfl, rfl⟩ := h
  exact ⟨d, σ k, rfl, by rw [σ.symm_apply_apply]⟩

theorem Image.facts {r r' : Record} (h : Image σ r r') : r'.facts = r.facts := by
  obtain ⟨d, k, rfl, rfl⟩ := h
  rfl

theorem Image.context {r r' : Record} (h : Image σ r r') : r'.context = r.context := by
  obtain ⟨d, k, rfl, rfl⟩ := h
  rfl

theorem Image.span {r r' : Record} (h : Image σ r r') : r'.span = r.span := by
  obtain ⟨d, k, rfl, rfl⟩ := h
  rfl

theorem Image.fits {a a' b b' : Record} (ha : Image σ a a') (hb : Image σ b b') (h : a.Fits b) :
    a'.Fits b' := by
  unfold Record.Fits at h ⊢
  rw [ha.span, hb.span, ha.context, hb.context]
  exact h

theorem Shuffled.exists_image (h : Shuffled σ ds ds') {r : Record} (hr : r ∈ heldRecords 0 ds) :
    ∃ r' ∈ heldRecords 0 ds', Image σ r r' := by
  obtain ⟨k, d, hk, hheld, rfl⟩ := mem_heldRecords.1 hr
  exact ⟨_, mem_heldRecords.2 ⟨σ k, d, (h k).trans hk, hheld, rfl⟩, d, k, rfl, rfl⟩

theorem Shuffled.placeable (h : Shuffled σ ds ds') (hp : Record.Placeable (heldRecords 0 ds)) :
    Record.Placeable (heldRecords 0 ds') := by
  constructor
  · intro r' hr' hnone
    obtain ⟨r, hr, himage⟩ := h.symm.exists_image hr'
    rw [← himage.span]
    exact hp.placed r hr (himage.context.trans hnone)
  · intro r' hr' hnone a' ha' b' hb' has hbs hac hbc
    obtain ⟨r, hr, himage⟩ := h.symm.exists_image hr'
    obtain ⟨a, ha, haimage⟩ := h.symm.exists_image ha'
    obtain ⟨b, hb, hbimage⟩ := h.symm.exists_image hb'
    rw [← haimage.context, ← hbimage.context]
    apply hp.single r hr (himage.context.trans hnone) a ha b hb
    · rw [haimage.span, himage.span, has]
    · rw [hbimage.span, himage.span, hbs]
    · rw [haimage.context]
      exact hac
    · rw [hbimage.context]
      exact hbc

/-- Diagnostics whose facts can be read when they are held. -/
def Readable (ds : List Diagnostic) : Prop :=
  ∀ d ∈ ds, (Classification.ofDiagnostic d).held = true →
    ∃ c, Chain.ofFacts (Classification.ofDiagnostic d).facts none = .ok c

/-- What a session keeps while it takes in diagnostics: errors that are apart and own their records,
and a registry of some lessons. -/
structure Keeps (ls : List Lesson) (l : Ledger) : Prop where
  distinct : Ledger.Distinct l.errors
  owns : ∀ e ∈ l.errors, e.Owns
  taught : Registry.Taught ls l.registry

theorem keeps_empty : Keeps [] .empty :=
  ⟨.nil, fun _ he => absurd he List.not_mem_nil, Registry.taught_empty⟩

theorem owner_of_take {s : Session} {d : Diagnostic} {c : Classification}
    (hheld : (Classification.ofDiagnostic d).held = true) (hc : (s.take d).outcome = .ok c) :
    ∃ i, (s.ledger.merge d (Classification.ofDiagnostic d).facts s.nextSeq).owner = .ok i := by
  unfold take at hc
  generalize Classification.ofDiagnostic d = classification at hheld hc ⊢
  dsimp only at hc
  rw [if_pos hheld] at hc
  obtain ⟨i, hi, -⟩ := map_ok.1 hc
  exact ⟨i, hi⟩

theorem outcome_of_owner {s : Session} {d : Diagnostic} {i : Nat}
    (hheld : (Classification.ofDiagnostic d).held = true)
    (hi : (s.ledger.merge d (Classification.ofDiagnostic d).facts s.nextSeq).owner = .ok i) :
    ∃ c, (s.take d).outcome = .ok c := by
  unfold take
  generalize Classification.ofDiagnostic d = classification at hheld hi ⊢
  dsimp only
  rw [if_pos hheld]
  exact ⟨_, map_ok.2 ⟨i, hi, rfl⟩⟩

theorem Keeps.take {ls : List Lesson} {s : Session} (h : Keeps ls s.ledger) {d : Diagnostic}
    {c : Classification} (hc : (s.take d).outcome = .ok c) :
    Keeps (ls ++ Session.taught d) (s.take d).session.ledger ∧
      ((Classification.ofDiagnostic d).held = true →
        ∃ c, Chain.ofFacts (Classification.ofDiagnostic d).facts none = .ok c) := by
  rw [(s.take_spec d).2.1]
  unfold Session.taught
  split
  · rename_i hheld
    obtain ⟨i, hi⟩ := owner_of_take hheld hc
    obtain ⟨chain, hread, hregistry⟩ := Ledger.merge_ok hi
    refine ⟨⟨h.distinct.merge _ _ _, Ledger.owns_merge h.owns _ _ _, ?_⟩, fun _ => ⟨chain, hread⟩⟩
    rw [hread, hregistry]
    exact h.taught.learnAll
  · rename_i hpassed
    rw [List.append_nil]
    exact ⟨h, fun hheld => absurd hheld hpassed⟩

theorem Ingests.keeps {s t : Session} {cs : List Classification} {ls : List Lesson}
    (h : Ingests s ds cs t) (hs : Keeps ls s.ledger) :
    Keeps (ls ++ ds.flatMap Session.taught) t.ledger ∧ Readable ds := by
  induction h generalizing ls with
  | nil s =>
    rw [List.flatMap_nil, List.append_nil]
    exact ⟨hs, fun d hd => absurd hd List.not_mem_nil⟩
  | @cons s t d ds i c cs hi hc _ ih =>
    rw [ingest_ok hi] at hc ih
    obtain ⟨hnext, hread⟩ := hs.take hc
    obtain ⟨hlast, hreads⟩ := ih hnext
    rw [List.flatMap_cons, ← List.append_assoc]
    refine ⟨hlast, fun o ho => ?_⟩
    rcases List.mem_cons.1 ho with rfl | ho
    · exact hread
    · exact hreads o ho

/-- The errors that a run leaves: they are apart and own records, together those of the held
diagnostics. -/
structure Leaves (ds : List Diagnostic) (es : List LogicalError) : Prop where
  distinct : Ledger.Distinct es
  owns : ∀ e ∈ es, e.Owns
  records : (Ledger.records es).Perm (heldRecords 0 ds)
  nonempty : ∀ e ∈ es, e.records ≠ []

/-- Diagnostics that can be read are taken in without a fault. -/
theorem exists_ingests {s : Session} (hopen : s.isFinalized = false) (h : Readable ds) :
    ∃ cs t, Ingests s ds cs t := by
  induction ds generalizing s with
  | nil => exact ⟨_, _, .nil s⟩
  | cons d ds ih =>
    have houtcome : ∃ c, (s.take d).outcome = .ok c := by
      cases hheld : (Classification.ofDiagnostic d).held with
      | false => exact ⟨_, (s.take_passed hheld).1⟩
      | true =>
        obtain ⟨chain, hread⟩ := h d List.mem_cons_self hheld
        obtain ⟨i, hi⟩ := Ledger.exists_owner hread s.ledger d s.nextSeq
        exact outcome_of_owner hheld hi
    obtain ⟨c, hc⟩ := houtcome
    have hnext := (s.isFinalized_take d).trans hopen
    obtain ⟨cs, t, hrest⟩ := ih hnext fun o ho => h o (List.mem_cons_of_mem d ho)
    exact ⟨c :: cs, t, .cons (ingest_open d hopen) hc hrest⟩

theorem Ingests.leaves {id : String} {t : Session} {cs : List Classification}
    (h : Ingests (start id) ds cs t) : Leaves ds t.ledger.errors := by
  obtain ⟨⟨hdistinct, howns, -⟩, -⟩ := h.keeps keeps_empty
  obtain ⟨-, hrecords, hnonempty⟩ := h.spec
  rw [start, Ledger.empty, Ledger.records_nil, List.append_nil] at hrecords
  exact ⟨hdistinct, howns, hrecords, hnonempty fun e he => absurd he List.not_mem_nil⟩

/-- Places of errors that own the same diagnostic in the two orders. -/
def Shares (σ : Equiv.Perm Nat) (es es' : List LogicalError) (i i' : Nat) : Prop :=
  ∃ e e' r r', es[i]? = some e ∧ es'[i']? = some e' ∧ r ∈ e.records ∧ r' ∈ e'.records ∧ Image σ r r'

theorem Shares.symm {es es' : List LogicalError} {i i' : Nat} (h : Shares σ es es' i i') :
    Shares σ.symm es' es i' i := by
  obtain ⟨e, e', r, r', hi, hi', hr, hr', himage⟩ := h
  exact ⟨e', e, r', r, hi', hi, hr', hr, himage.symm⟩

section Owners

variable {es es' : List LogicalError}

theorem Leaves.exists_owner (h : Leaves ds es) {r : Record} (hr : r ∈ heldRecords 0 ds) :
    ∃ (i : Nat) (e : LogicalError), es[i]? = some e ∧ r ∈ e.records := by
  rw [← h.records.mem_iff] at hr
  obtain ⟨e, he, hre⟩ := List.mem_flatMap.1 hr
  obtain ⟨i, hi⟩ := List.getElem?_of_mem he
  exact ⟨i, e, hi, hre⟩

theorem Leaves.mem_held (h : Leaves ds es) {i : Nat} {e : LogicalError} {r : Record}
    (hi : es[i]? = some e) (hr : r ∈ e.records) : r ∈ heldRecords 0 ds :=
  h.records.mem_iff.1 (List.mem_flatMap.2 ⟨e, List.mem_of_getElem? hi, hr⟩)

theorem Leaves.exists_shares (h : Leaves ds es) (h' : Leaves ds' es') (hds : Shuffled σ ds ds')
    {i : Nat} {e : LogicalError} {r : Record} (hi : es[i]? = some e) (hr : r ∈ e.records) :
    ∃ (i' : Nat) (e' : LogicalError) (r' : Record), es'[i']? = some e' ∧ r' ∈ e'.records ∧
      Image σ r r' ∧ Shares σ es es' i i' := by
  obtain ⟨r', hr', himage⟩ := hds.exists_image (h.mem_held hi hr)
  obtain ⟨i', e', hi', hre'⟩ := h'.exists_owner hr'
  exact ⟨i', e', r', hi', hre', himage, e, e', r, r', hi, hi', hr, hre', himage⟩

theorem Leaves.shares_unique (h : Leaves ds es) (h' : Leaves ds' es')
    (hp : Record.Placeable (heldRecords 0 ds)) (hp' : Record.Placeable (heldRecords 0 ds'))
    {i j k : Nat} (hj : Shares σ es es' i j) (hk : Shares σ es es' i k) : j = k := by
  obtain ⟨e, x, a, a', hi, hx, ha, ha', haimage⟩ := hj
  obtain ⟨e', y, b, b', hi', hy, hb, hb', hbimage⟩ := hk
  rw [hi] at hi'
  cases hi'
  have hfits := (Ledger.same_owner_iff h.distinct h.owns h.records hp hi hi ha hb).1 rfl
  exact (Ledger.same_owner_iff h'.distinct h'.owns h'.records hp' hx hy ha' hb').2
    (haimage.fits hbimage hfits)

/-- What an error that owns a diagnostic owns in one order, its counterpart owns in the other. -/
theorem Leaves.image_mem (h : Leaves ds es) (h' : Leaves ds' es') (hds : Shuffled σ ds ds')
    (hp : Record.Placeable (heldRecords 0 ds)) {i i' : Nat} {e e' : LogicalError} {r : Record}
    (hi : es[i]? = some e) (hi' : es'[i']? = some e') (hshares : Shares σ es es' i i')
    (hr : r ∈ e.records) : ∃ r' ∈ e'.records, Image σ r r' := by
  obtain ⟨k, o, r', hk, hr', himage, hother⟩ := h.exists_shares h' hds hi hr
  obtain rfl := h.shares_unique h' hp (hds.placeable hp) hshares hother
  rw [hi'] at hk
  cases hk
  exact ⟨r', hr', himage⟩

theorem Leaves.context_subset (h : Leaves ds es) (h' : Leaves ds' es') (hds : Shuffled σ ds ds')
    (hp : Record.Placeable (heldRecords 0 ds)) {i i' : Nat} {e e' : LogicalError}
    (hi : es[i]? = some e) (hi' : es'[i']? = some e') (hshares : Shares σ es es' i i')
    (hknown : e.context ≠ none) : e'.context = e.context := by
  obtain ⟨r, hr, hrc⟩ := (h.owns e (List.mem_of_getElem? hi)).told hknown
  obtain ⟨r', hr', himage⟩ := h.image_mem h' hds hp hi hi' hshares hr
  have hrc' : r'.context = e.context := himage.context.trans hrc
  rcases (h'.owns e' (List.mem_of_getElem? hi')).context r' hr' with hnone | hsame
  · exact absurd (hrc'.symm.trans hnone) hknown
  · exact hsame.symm.trans hrc'

theorem Leaves.alike (h : Leaves ds es) (h' : Leaves ds' es') (hds : Shuffled σ ds ds')
    (hp : Record.Placeable (heldRecords 0 ds)) {i i' : Nat} {e e' : LogicalError}
    (hi : es[i]? = some e) (hi' : es'[i']? = some e') (hshares : Shares σ es es' i i') :
    e.Alike e' := by
  have hp' := hds.placeable hp
  refine ⟨?_, ?_, fun fs => ⟨fun hfs => ?_, fun hfs => ?_⟩⟩
  · by_cases hknown : e.context = none
    · by_cases hknown' : e'.context = none
      · rw [hknown, hknown']
      · exact h'.context_subset h hds.symm hp' hi' hi hshares.symm hknown'
    · exact (h.context_subset h' hds hp hi hi' hshares hknown).symm
  · rw [h.distinct.settled e (List.mem_of_getElem? hi),
      h'.distinct.settled e' (List.mem_of_getElem? hi')]
  · obtain ⟨r, hr, rfl⟩ := List.mem_map.1 hfs
    obtain ⟨r', hr', himage⟩ := h.image_mem h' hds hp hi hi' hshares hr
    rw [← himage.facts]
    exact List.mem_map_of_mem hr'
  · obtain ⟨r', hr', rfl⟩ := List.mem_map.1 hfs
    obtain ⟨r, hr, himage⟩ := h'.image_mem h hds.symm hp' hi' hi hshares.symm hr'
    rw [← himage.facts]
    exact List.mem_map_of_mem hr

theorem Leaves.exists_counterpart (h : Leaves ds es) (h' : Leaves ds' es')
    (hds : Shuffled σ ds ds') {i : Nat} {e : LogicalError} (hi : es[i]? = some e) :
    ∃ i', Shares σ es es' i i' := by
  obtain ⟨r, hr⟩ := List.exists_mem_of_ne_nil _ (h.nonempty e (List.mem_of_getElem? hi))
  obtain ⟨i', -, -, -, -, -, hshares⟩ := h.exists_shares h' hds hi hr
  exact ⟨i', hshares⟩

/-- The errors of two orders correspond by the diagnostics that they own. -/
theorem Leaves.corresponds (h : Leaves ds es) (h' : Leaves ds' es') (hds : Shuffled σ ds ds')
    (hp : Record.Placeable (heldRecords 0 ds)) : Corresponds (Shares σ es es') es es' := by
  have hp' := hds.placeable hp
  constructor
  case right_unique => exact fun i j k hj hk => h.shares_unique h' hp hp' hj hk
  case left_unique => exact fun i j k hi hj => h'.shares_unique h hp' hp hi.symm hj.symm
  case alike =>
    intro i i' hshares
    obtain ⟨e, e', -, -, hi, hi', -⟩ := id hshares
    rw [hi, hi']
    exact .some (h.alike h' hds hp hi hi' hshares)
  case total => exact fun i e hi _ => h.exists_counterpart h' hds hi
  case onto =>
    intro i' e' hi' _
    obtain ⟨i, hshares⟩ := h'.exists_counterpart h hds.symm hi'
    have hback := hshares.symm
    rw [Equiv.symm_symm] at hback
    exact ⟨i, hback⟩

end Owners

end Session

end TraitTrace
