import Mathlib
import TraitTrace.Proofs.Graph.Coverage
import TraitTrace.Report.OfGroup

/-! Reports of groups. A report shows the tree of its group: a line that is not a reference back for
every node that edges of the group reach from a root, and no such line for the others. -/

namespace TraitTrace

namespace Report

/-- A report has the tree, the sources and the number of its group. -/
theorem ofGroup_spec {g : Group} {graph : Graph} {r : Registry} {charset : Charset}
    {report : Report} (h : ofGroup g graph r charset = .ok report) :
    graph.draw r charset (g.children graph) g.roots = .ok report.tree ∧
      report.sources = g.sources ∧
      report.firstSeen = (g.sources.head?.map Source.seq).getD 0 := by
  unfold ofGroup at h
  obtain ⟨tree, htree, h⟩ := bind_ok.1 h
  dsimp only at h
  split at h
  · obtain ⟨name, -, h⟩ := bind_ok.1 h
    cases h
    exact ⟨htree, rfl, rfl⟩
  · cases h
    exact ⟨htree, rfl, rfl⟩

end Report

namespace Group

/-- What of the chains of a group its report shows. -/
structure Shown (graph : Graph) (r : Registry) (charset : Charset) (g : Group) : Prop where
  /-- Every step of every chain has a node. -/
  nodes : ∀ c, g.Contributes c → ∀ s ∈ c.steps, ∃ k h, s.nodeKey r = .ok k ∧ graph.At h k ∧
    h ∈ g.nodes
  /-- All nodes are reached exactly when chains lead to every further step below nothing. -/
  complete : (∀ h ∈ g.nodes, g.Reached h) ↔
    ∀ c, g.Contributes c → ∀ (i : Nat) (s : Step) (k : NodeKey), i ≠ 0 → c.steps[i]? = some s →
      s.parent = none → s.nodeKey r = .ok k → g.Leads r k
  /-- Such a step stands in a chain without a checked trait, in a run of providers that starts it
  or beside a missing field that starts it. -/
  late : ∀ c, g.Contributes c → ∀ (i : Nat) (s : Step), i ≠ 0 → c.steps[i]? = some s →
    s.parent = none →
    c.checkName = none ∧ ((∀ t ∈ c.steps.take (i + 1), t.IsTopProvider) ∨ Chain.LoneField c.steps)
  /-- The tree has one expanded line for a reached node, and none for another one. -/
  tree : ∃ tree, graph.draw r charset (g.children graph) g.roots = .ok tree ∧
    (∀ report, Report.ofGroup g graph r charset = .ok report → report.tree = tree) ∧
    ∀ h, (g.Reached h → (TreeLine.expanded tree).count h = 1) ∧
      (¬g.Reached h → (TreeLine.expanded tree).count h = 0)

theorem Represents.shown {graph : Graph} {r : Registry} {g : Group} (hg : g.Represents graph r)
    (charset : Charset) : g.Shown graph r charset := by
  have hshaped : ∀ c, g.Contributes c → Chain.Shaped c.checkName c.steps := by
    rintro c ⟨e, -, hc⟩
    exact hc.shaped
  constructor
  case nodes =>
    intro c hc s hs
    obtain ⟨k, hk⟩ := Step.exists_nodeKey r ((hshaped c hc).ordered.named s hs)
    obtain ⟨h, hh⟩ := hg.exists_at hc ⟨s, hs, hk⟩
    obtain ⟨e, he, hec⟩ := hc
    exact ⟨k, h, hk, hh, hg.mem_nodes.2 ⟨e, he, k, ⟨c, hec, s, hs, hk⟩, hh⟩⟩
  case complete =>
    constructor
    · intro hall c hc i s k _ hs _ hk
      have hrequires : c.Requires r k := ⟨s, List.mem_of_getElem? hs, hk⟩
      obtain ⟨h, hh⟩ := hg.exists_at hc hrequires
      obtain ⟨e, he, hec⟩ := hc
      exact (hg.reached_iff hh).1 (hall h (hg.mem_nodes.2 ⟨e, he, k, ⟨c, hec, hrequires⟩, hh⟩))
    · intro hlate h hmem
      obtain ⟨e, he, k, ⟨c, hec, hk⟩, hh⟩ := hg.mem_nodes.1 hmem
      have hc : g.Contributes c := ⟨e, he, hec⟩
      exact (hg.reached_iff hh).2 (leads_of_late hc (hlate c hc) k hk)
  case late =>
    intro c hc i s hi hs hnone
    exact (hshaped c hc).late hs hnone hi
  case tree =>
    obtain ⟨tree, htree, hnodup, hmem⟩ := hg.draw charset
    refine ⟨tree, htree, ?_, fun h => ⟨fun hreached => ?_, fun hreached => ?_⟩⟩
    · intro report hreport
      have hdrawn := (Report.ofGroup_spec hreport).1
      rw [htree] at hdrawn
      exact (Except.ok.inj hdrawn).symm
    · exact List.count_eq_one_of_mem hnodup ((hmem h).2 hreached)
    · exact List.count_eq_zero.2 fun hh => hreached ((hmem h).1 hh)

/-- The groups of a graph have the handles of their errors' requirements. -/
theorem represents_of_result {errors : List LogicalError} {r : Registry} {b : GraphBuild}
    {g : Group} (hb : (Construction.ofErrors errors r).result = .ok b) (hg : g ∈ b.groups) :
    g.Represents b.graph r := by
  obtain ⟨hbuilt, hgraph, hgroups, -⟩ := Construction.built_of_result hb
  rw [hgroups] at hg
  have hentry := (Grouping.entries_sublist hg).subset
  rw [hgraph]
  refine ⟨hbuilt.sound, fun e he => hbuilt.represents e (hentry he), fun p q hpq => ?_⟩
  obtain ⟨e, he, hedge⟩ := Group.mem_edges.1 hpq
  exact hbuilt.drawn (hentry he) hedge

/-- There is a report of a group unless the tag of its missing field cannot be read. -/
theorem Represents.exists_report {graph : Graph} {r : Registry} {g : Group}
    (hg : g.Represents graph r) (charset : Charset)
    (hm : ∀ m, primaryMissing g.facts = some m → ∃ name, FieldName.decode m.tag = .ok name) :
    ∃ report, Report.ofGroup g graph r charset = .ok report := by
  obtain ⟨tree, htree, -⟩ := hg.draw charset
  unfold Report.ofGroup
  rw [htree]
  dsimp only [bind, Except.bind]
  cases hmissing : primaryMissing g.facts with
  | none => exact ⟨_, rfl⟩
  | some m =>
    obtain ⟨name, hname⟩ := hm m hmissing
    dsimp only
    rw [hname]
    exact ⟨_, rfl⟩

/-- For all errors, each group of their graph is shown as far as edges reach from the first steps of
its chains. -/
theorem shown_of_result {errors : List LogicalError} {r : Registry} {b : GraphBuild} {g : Group}
    (charset : Charset) (hb : (Construction.ofErrors errors r).result = .ok b)
    (hg : g ∈ b.groups) : g.Shown b.graph r charset :=
  (represents_of_result hb hg).shown charset

/-- An error at two providers, neither of which wraps the other, without a checked trait. -/
def twoProviders : LogicalError where
  span := none
  context := some "App"
  firstSeen := 0
  records := [⟨⟨"error", "", none, [], [], none, none⟩,
    [.required ⟨"B", "IsProviderFor<M, App>", ""⟩, .required ⟨"A", "IsProviderFor<M, App>", ""⟩],
    0⟩]
  collisions := []
  rootCause := .unknown
  tree := none
  facts := [.required ⟨"B", "IsProviderFor<M, App>", ""⟩, .required ⟨"A", "IsProviderFor<M, App>", ""⟩]
  facts_eq := by decide

/-- The second provider is a node of the group, and no edge leads to it. -/
theorem shown_twoProviders : ∃ b g,
    (Construction.ofErrors [twoProviders] .empty).result = .ok b ∧ g ∈ b.groups ∧
      (1 : Handle) ∈ g.nodes ∧ ¬g.Reached 1 ∧ g.Shown b.graph .empty .unicode := by
  obtain ⟨b, hb, hgroups⟩ := map_ok.1 (show
    (Construction.ofErrors [twoProviders] .empty).result.map
      (fun b => b.groups.map fun g => (g.roots, g.nodes, g.edges)) = .ok [([0], [0, 1], [])] by cbv)
  obtain ⟨g, hg, heq⟩ := List.mem_map.1 (hgroups ▸ List.mem_singleton.2 rfl)
  obtain ⟨hroots, hnodes, hedges⟩ : g.roots = [0] ∧ g.nodes = [0, 1] ∧ g.edges = [] := by
    simpa using heq
  refine ⟨b, g, hb, hg, by simp [hnodes], ?_, shown_of_result .unicode hb hg⟩
  rintro ⟨root, hroot, hpath⟩
  rw [hroots, List.mem_singleton] at hroot
  rw [hedges] at hpath
  subst hroot
  rcases hpath.cases_head with h | ⟨p, hp, -⟩
  · cases h
  · cases hp

end Group

end TraitTrace
