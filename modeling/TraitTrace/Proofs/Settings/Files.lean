import TraitTrace.Proofs.Outcome
import TraitTrace.Proofs.Overlay
import TraitTrace.Settings.Load

/-! Settings of two files. What is read from a settings file has every key once, so that the
project's file is laid over the user's path by path: each of its settings counts, and of the user's
settings those are left that it neither sets nor cuts off. -/

namespace TraitTrace

namespace Datum

theorem Entries.keyed_put {t : Entries} {a : Atom} {v : Datum} {label : Option Nat}
    (h : Keyed (.map label t)) (hv : v.Keyed) : Keyed (.map label (t.put a v)) := by
  cases h with
  | leaf hleaf => cases hleaf
  | map hkeys hatoms hvalues =>
    have hwritten : (((Table.get? t a.key).map Prod.fst).getD a).key = a.key := by
      cases hget : Table.get? t a.key with
      | none => rfl
      | some old => exact hatoms _ (Table.mem_of_get? hget)
    refine .map (Table.nodup_keys_set hkeys) (fun e he => ?_) fun e he => ?_
    · rcases Table.eq_or_mem_of_mem_set he with rfl | he
      · exact hwritten
      · exact hatoms e he
    · rcases Table.eq_or_mem_of_mem_set he with rfl | he
      · exact hv
      · exact hvalues e he

end Datum

namespace Yaml

open Datum

theorem Made.keyed_datum {part : Nat → Datum} (hpart : ∀ i, (part i).Keyed) (label : Option Nat)
    (m : Made) : (m.datum label part).Keyed := by
  cases m with
  | map entries =>
    have hfold : ∀ t : Entries, Keyed (.map label t) →
        Keyed (.map label (entries.foldl (fun t e => Entries.put t e.1 (part e.2)) t)) := by
      induction entries with
      | nil => exact fun t ht => ht
      | cons e entries ih => exact fun t ht => ih _ (Entries.keyed_put ht (hpart e.2))
    exact hfold [] (.map .nil nofun nofun)
  | _ => exact .leaf rfl

/-- Data of nodes, in all of which the keys differ. -/
def KeyedKnown (known : Known) : Prop :=
  ∀ (i : Nat) (d : Datum), known[i]?.join = some d → d.Keyed

theorem keyedKnown_addKnown {made : Array (Option Made)} {known : Known} (h : KeyedKnown known)
    (number : Nat) : KeyedKnown (addKnown made known number) := by
  unfold addKnown
  split
  · exact h
  · rename_i m _
    split
    · have hpart : ∀ i : Nat, ((known[i]?.join).getD Datum.null).Keyed := by
        intro i
        cases hi : known[i]?.join with
        | none => exact .leaf rfl
        | some d => exact h i d hi
      intro i d hd
      rw [Array.getElem?_setIfInBounds] at hd
      split at hd
      · split at hd
        · obtain rfl := Option.some.inj hd
          exact m.keyed_datum hpart none
        · cases hd
      · exact h i d hd
    · exact h

theorem keyed_unfold {made : Array (Option Made)} {known : Known} (h : KeyedKnown known)
    (fuel outer : Nat) (around : List Nat) (number : Nat) :
    (unfold made known fuel outer around number).Keyed := by
  induction fuel generalizing outer around number with
  | zero => exact .leaf rfl
  | succ fuel ih =>
    rw [unfold]
    split
    · rename_i hd
      exact h number _ hd
    · exact .leaf rfl
    · rename_i m _ _
      split
      · split <;> exact .leaf rfl
      · exact m.keyed_datum (fun i => ih _ _ i) _

/-- In what is read from a document the keys of every map differ. -/
theorem keyed_of_read {s : List Char} {v : Datum} (h : read s = .ok v) : v.Keyed := by
  obtain ⟨document, -, h⟩ := bind_ok.1 h
  cases document with
  | none =>
    cases h
    exact .leaf rfl
  | some d =>
    obtain ⟨made, -, h⟩ := bind_ok.1 h
    obtain rfl := Except.ok.inj h
    refine keyed_unfold ?_ _ _ _ _
    have hstart : KeyedKnown (Array.replicate d.nodes.size none) := by
      intro i v hv
      rw [Array.getElem?_replicate] at hv
      split at hv <;> cases hv
    generalize Array.replicate d.nodes.size none = known at hstart ⊢
    induction d.ended generalizing known with
    | nil => exact hstart
    | cons number ended ih => exact ih _ (keyedKnown_addKnown hstart number)

end Yaml

namespace Settings

open Datum

theorem SettingsFile.keyed_of_read {file : SettingsFile} {entries : Entries}
    (h : file.read = .ok entries) : Keyed (.map none entries) := by
  have hnil : Keyed (.map none []) := .map .nil nofun nofun
  unfold SettingsFile.read at h
  split at h
  · cases h
    exact hnil
  · rename_i text _
    split at h
    · cases h
    · cases h
    · rename_i label found hread
      cases h
      cases Yaml.keyed_of_read hread with
      | leaf hleaf => cases hleaf
      | map hkeys hatoms hvalues => exact .map hkeys hatoms hvalues
    · split at h
      · cases h
      · cases h
        exact hnil

/-- A merge lays one map over another, where neither contains itself, and what the two settings files
say is the project's file laid over the user's. -/
theorem overlays_merged :
    (∀ base upper : Entries, areUncut base = true → areUncut upper = true →
      Keyed (.map none upper) →
      Datum.inside.Overlays Datum.mergeValue (.map none base) (.map none upper)
        (.map none (mergeEntries base upper))) ∧
    (∀ base upper : Json.Members, Json.Keyed (.obj upper) →
      Json.inside.Overlays Json.mergeValue (.obj base) (.obj upper)
        (.obj (Json.mergeMembers base upper))) ∧
    ∀ (user project : SettingsFile) (files : Entries), filed user project = .ok files →
      ∃ lower upper, user.read = .ok lower ∧ project.read = .ok upper ∧
        (areUncut lower = true → areUncut upper = true →
          Datum.inside.Overlays Datum.mergeValue (.map none lower) (.map none upper)
            (.map none files)) := by
  refine ⟨fun base upper _ _ h => Datum.merges.overlays h,
    fun base upper h => Json.merges.overlays h, fun user project files h => ?_⟩
  obtain ⟨lower, hlower, h⟩ := bind_ok.1 h
  obtain ⟨upper, hupper, h⟩ := bind_ok.1 h
  obtain rfl := Except.ok.inj h
  exact ⟨lower, upper, hlower, hupper, fun _ _ =>
    Datum.merges.overlays (SettingsFile.keyed_of_read hupper)⟩

/-- The project sets the level of the log and turns the section for rendering into a word. -/
theorem overlays_merged_sections :
    let base : Json.Members := [("logging", .obj [("level", .str "info"), ("format", .str "json")]),
      ("render", .obj [("width", .int 4)])]
    let upper : Json.Members := [("logging", .obj [("level", .str "debug")]), ("render", .str "off")]
    let user : SettingsFile := ⟨"user.yaml", some "logging: {level: info, format: json}\n"⟩
    let project : SettingsFile := ⟨"project.yaml", some "logging: {level: debug}\nrender: no\n"⟩
    Json.Keyed (.obj upper) ∧ Keyed (.map none (ofMembers upper)) ∧
      (areUncut (ofMembers base) && areUncut (ofMembers upper)) = true ∧
      Json.mergeMembers base upper = [("logging", .obj [("level", .str "debug"),
        ("format", .str "json")]), ("render", .str "off")] ∧
      Json.inside.Overlays Json.mergeValue (.obj base) (.obj upper)
        (.obj (Json.mergeMembers base upper)) ∧
      Datum.inside.Overlays Datum.mergeValue (.map none (ofMembers base))
        (.map none (ofMembers upper))
        (.map none (mergeEntries (ofMembers base) (ofMembers upper))) ∧
      ∃ files, filed user project = .ok files ∧
        ∃ lower upper, user.read = .ok lower ∧ project.read = .ok upper ∧
          Datum.inside.Overlays Datum.mergeValue (.map none lower) (.map none upper)
            (.map none files) := by
  intro base upper user project
  have hjson : Json.Keyed (.obj upper) := by
    refine .obj (by decide) fun m hm => ?_
    rcases List.mem_cons.1 hm with rfl | hm
    · refine .obj (by decide) fun m hm => ?_
      rw [List.mem_singleton.1 hm]
      exact .leaf rfl
    · rw [List.mem_singleton.1 hm]
      exact .leaf rfl
  have hdatum : Keyed (.map none (ofMembers upper)) := by
    refine .map (by decide) (by decide) fun e he => ?_
    rcases List.mem_cons.1 he with rfl | he
    · refine .map (by decide) (by decide) fun e he => ?_
      rw [List.mem_singleton.1 he]
      exact .leaf rfl
    · rw [List.mem_singleton.1 he]
      exact .leaf rfl
  have hbase : areUncut (ofMembers base) = true := rfl
  have hupper : areUncut (ofMembers upper) = true := rfl
  have hread : (user.read.toOption.all areUncut && project.read.toOption.all areUncut) = true := by
    decide +kernel
  have hfiled : (filed user project).toOption.isSome = true := by decide +kernel
  obtain ⟨files, hfiles⟩ : ∃ files, filed user project = .ok files := by
    cases h : filed user project with
    | ok files => exact ⟨files, rfl⟩
    | error e =>
      rw [h] at hfiled
      cases hfiled
  obtain ⟨hmaps, hobjects, hfiles'⟩ := overlays_merged
  obtain ⟨below, above, hbelow, habove, hoverlays⟩ := hfiles' user project files hfiles
  rw [hbelow, habove] at hread
  obtain ⟨hbelowUncut, haboveUncut⟩ := Bool.and_eq_true_iff.1 hread
  exact ⟨hjson, hdatum, rfl, rfl, hobjects base upper hjson, hmaps _ _ hbase hupper hdatum, files,
    hfiles, below, above, hbelow, habove, hoverlays hbelowUncut haboveUncut⟩

end Settings

end TraitTrace
