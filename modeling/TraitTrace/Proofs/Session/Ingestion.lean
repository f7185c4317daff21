import Mathlib.Data.List.Nodup
import TraitTrace.Proofs.Ledger.Records
import TraitTrace.Proofs.Outcome
import TraitTrace.Session

/-! Runs of a session. Every diagnostic that is taken in uses up one number; a held one leaves one
record with its number in the ledger, any other leaves nothing. -/

namespace TraitTrace.Session

/-- Diagnostics taken in one after the other without a fault, with their classifications. -/
inductive Ingests : Session → List Diagnostic → List Classification → Session → Prop
  | nil (s : Session) : Ingests s [] [] s
  | cons {s t : Session} {d : Diagnostic} {ds : List Diagnostic} {i : Ingested}
      {c : Classification} {cs : List Classification} : s.ingest d = .ok i → i.outcome = .ok c →
      Ingests i.session ds cs t → Ingests s (d :: ds) (c :: cs) t

/-- The record of a diagnostic of some number. -/
def recordOf (d : Diagnostic × Nat) : Record :=
  ⟨d.1, (Classification.ofDiagnostic d.1).facts, d.2⟩

theorem facts_recordOf (d : Diagnostic) (k : Nat) :
    (recordOf (d, k)).facts = (Classification.ofDiagnostic d).facts := by
  simp only [recordOf]

/-- The records of those diagnostics that are held, by their numbers from `n` on. -/
def heldRecords (n : Nat) (ds : List Diagnostic) : List Record :=
  ((ds.zipIdx n).filter fun d => (Classification.ofDiagnostic d.1).held).map recordOf

theorem heldRecords_nil (n : Nat) : heldRecords n [] = [] := rfl

theorem heldRecords_cons (n : Nat) (d : Diagnostic) (ds : List Diagnostic) :
    heldRecords n (d :: ds) =
      (if (Classification.ofDiagnostic d).held then [recordOf (d, n)] else []) ++
        heldRecords (n + 1) ds := by
  unfold heldRecords
  rw [List.zipIdx_cons, List.filter_cons]
  split <;> rfl

theorem mem_heldRecords {ds : List Diagnostic} {r : Record} :
    r ∈ heldRecords 0 ds ↔ ∃ (k : Nat) (d : Diagnostic), ds[k]? = some d ∧
      (Classification.ofDiagnostic d).held = true ∧ r = recordOf (d, k) := by
  unfold heldRecords
  rw [List.mem_map]
  constructor
  · rintro ⟨⟨d, k⟩, hmem, rfl⟩
    obtain ⟨hzip, hheld⟩ := List.mem_filter.1 hmem
    exact ⟨k, d, List.mem_zipIdx_iff_getElem?.1 hzip, hheld, rfl⟩
  · rintro ⟨k, d, hk, hheld, rfl⟩
    exact ⟨(d, k), List.mem_filter.2 ⟨List.mem_zipIdx_iff_getElem?.2 hk, hheld⟩, rfl⟩

theorem le_seq_of_mem_heldRecords {n : Nat} {ds : List Diagnostic} {r : Record}
    (h : r ∈ heldRecords n ds) : (n : Int) ≤ r.seq := by
  obtain ⟨⟨d, k⟩, hmem, rfl⟩ := List.mem_map.1 h
  exact Int.ofNat_le.2 (List.le_snd_of_mem_zipIdx (List.mem_filter.1 hmem).1)

/-- No two records of a run have one number. -/
theorem nodup_seq_heldRecords (ds : List Diagnostic) :
    ((heldRecords 0 ds).map Record.seq).Nodup := by
  have hall : (ds.zipIdx.map Prod.snd).Nodup := by
    rw [List.zipIdx_map_snd]
    exact List.nodup_range'
  have hsub := (List.filter_sublist (l := ds.zipIdx)
    (p := fun d => (Classification.ofDiagnostic d.1).held)).map Prod.snd
  have hcast := List.Nodup.map (f := Int.ofNat) (fun a b h => Int.ofNat.inj h)
    (List.Nodup.sublist hsub hall)
  rw [List.map_map] at hcast
  unfold heldRecords
  rw [List.map_map]
  exact hcast

/-- What taking in one diagnostic leaves: a number more, and the ledger after a merge if it is
held. -/
theorem take_spec (s : Session) (d : Diagnostic) :
    (s.take d).session.nextSeq = s.nextSeq + 1 ∧
      (s.take d).session.ledger =
        (if (Classification.ofDiagnostic d).held then
          (s.ledger.merge d (Classification.ofDiagnostic d).facts s.nextSeq).ledger
        else s.ledger) ∧
      ∀ c, (s.take d).outcome = .ok c → c = Classification.ofDiagnostic d := by
  unfold take
  generalize Classification.ofDiagnostic d = classification
  dsimp only
  split
  · refine ⟨rfl, rfl, fun c hc => ?_⟩
    obtain ⟨owner, -, hc⟩ := map_ok.1 hc
    exact hc.symm
  · exact ⟨rfl, rfl, fun c hc => (Except.ok.inj hc).symm⟩

theorem isFinalized_take (s : Session) (d : Diagnostic) :
    (s.take d).session.isFinalized = s.isFinalized := by
  unfold take
  dsimp only
  split <;> rfl

theorem ingest_open {s : Session} (d : Diagnostic) (h : s.isFinalized = false) :
    s.ingest d = .ok (s.take d) := by
  unfold ingest
  rw [h]
  rfl

theorem finalize_open {s : Session} (charset : Charset) (h : s.isFinalized = false) :
    s.finalize charset = .ok (s.conclude charset) := by
  unfold finalize
  rw [h]
  rfl

theorem take_passed (s : Session) {d : Diagnostic}
    (h : (Classification.ofDiagnostic d).held = false) :
    (s.take d).outcome = .ok (Classification.ofDiagnostic d) ∧
      (s.take d).session.ledger = s.ledger := by
  unfold take
  simp only [h, Bool.false_eq_true, if_false]
  exact ⟨trivial, trivial⟩

theorem take_held (s : Session) {d : Diagnostic}
    (h : (Classification.ofDiagnostic d).held = true) :
    (s.take d).outcome =
      (s.ledger.merge d (Classification.ofDiagnostic d).facts s.nextSeq).owner.map
        fun _ => Classification.ofDiagnostic d := by
  unfold take
  generalize Classification.ofDiagnostic d = classification at h
  dsimp only
  rw [if_pos h]

theorem perm_records_take (s : Session) (d : Diagnostic) :
    (Ledger.records (s.take d).session.ledger.errors).Perm
      ((if (Classification.ofDiagnostic d).held then [recordOf (d, s.nextSeq)] else []) ++
        Ledger.records s.ledger.errors) := by
  rw [(s.take_spec d).2.1]
  split
  · exact Ledger.perm_records_merge s.ledger d (Classification.ofDiagnostic d).facts s.nextSeq
  · exact .refl _

theorem records_ne_nil_take {s : Session} (d : Diagnostic)
    (h : ∀ e ∈ s.ledger.errors, e.records ≠ []) :
    ∀ e ∈ (s.take d).session.ledger.errors, e.records ≠ [] := by
  rw [(s.take_spec d).2.1]
  split
  · exact Ledger.records_ne_nil_merge d (Classification.ofDiagnostic d).facts s.nextSeq h
  · exact h

theorem ingest_ok {s : Session} {d : Diagnostic} {i : Ingested} (h : s.ingest d = .ok i) :
    i = s.take d := by
  unfold ingest at h
  split at h
  · cases h
  · exact (Except.ok.inj h).symm

/-- What a run leaves: a classification for each diagnostic, and the records of the held ones. -/
theorem Ingests.spec {s t : Session} {ds : List Diagnostic} {cs : List Classification}
    (h : Ingests s ds cs t) :
    cs = ds.map Classification.ofDiagnostic ∧
      (Ledger.records t.ledger.errors).Perm
        (heldRecords s.nextSeq ds ++ Ledger.records s.ledger.errors) ∧
      ((∀ e ∈ s.ledger.errors, e.records ≠ []) → ∀ e ∈ t.ledger.errors, e.records ≠ []) := by
  induction h with
  | nil s =>
    rw [heldRecords_nil, List.nil_append]
    exact ⟨rfl, .refl _, fun h => h⟩
  | @cons s t d ds i c cs hi hc _ ih =>
    rw [ingest_ok hi] at hc ih
    obtain ⟨hseq, -, hclass⟩ := s.take_spec d
    obtain ⟨hcs, hrest, hlater⟩ := ih
    refine ⟨by rw [hclass c hc, hcs, List.map_cons], ?_, fun h => hlater (records_ne_nil_take d h)⟩
    rw [hseq] at hrest
    rw [heldRecords_cons, List.append_assoc]
    have htake := (perm_records_take s d).append_left (heldRecords (s.nextSeq + 1) ds)
    exact (hrest.trans htake).trans (List.perm_append_comm_assoc _ _ _)

/-- A run uses up one number for each diagnostic. -/
theorem Ingests.nextSeq {s t : Session} {ds : List Diagnostic} {cs : List Classification}
    (h : Ingests s ds cs t) : t.nextSeq = s.nextSeq + ds.length := by
  induction h with
  | nil s => rfl
  | @cons s t d ds i c cs hi _ _ ih =>
    rw [ih, ingest_ok hi, (s.take_spec d).1, List.length_cons]
    omega

theorem Ingests.isFinalized {s t : Session} {ds : List Diagnostic} {cs : List Classification}
    (h : Ingests s ds cs t) : t.isFinalized = s.isFinalized := by
  induction h with
  | nil s => rfl
  | @cons s t d ds i c cs hi _ _ ih => rw [ih, ingest_ok hi, isFinalized_take]

theorem Ingests.append {s t u : Session} {ds ds' : List Diagnostic} {cs cs' : List Classification}
    (h : Ingests s ds cs t) (h' : Ingests t ds' cs' u) : Ingests s (ds ++ ds') (cs ++ cs') u := by
  induction h with
  | nil s => exact h'
  | cons hi hc _ ih => exact .cons hi hc (ih h')

/-- Diagnostics are taken in one way only. -/
theorem Ingests.unique {s t t' : Session} {ds : List Diagnostic} {cs cs' : List Classification}
    (h : Ingests s ds cs t) (h' : Ingests s ds cs' t') : cs = cs' ∧ t = t' := by
  induction h generalizing cs' t' with
  | nil s =>
    cases h'
    exact ⟨rfl, rfl⟩
  | @cons s t d ds i c cs hi hc _ ih =>
    cases h' with
    | cons hi' hc' hrest =>
      obtain rfl := Except.ok.inj (hi.symm.trans hi')
      obtain rfl := Except.ok.inj (hc.symm.trans hc')
      obtain ⟨rfl, rfl⟩ := ih hrest
      exact ⟨rfl, rfl⟩

end TraitTrace.Session
