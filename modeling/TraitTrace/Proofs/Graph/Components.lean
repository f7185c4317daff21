import TraitTrace.Proofs.Graph.Construction

/-! Groups as components. Two errors in the graph stand in one group exactly when a sequence of
errors joins them in which neighbours share a requirement other than a checked trait. Nodes other
than checked traits, and all edges, belong to one group each, since a checked trait is never below
another requirement. -/

namespace TraitTrace

open Relation

namespace LogicalError

/-- A requirement of an error, by its key. -/
def Requires (r : Registry) (e : LogicalError) (k : NodeKey) : Prop :=
  ∃ c, e.Contributes c ∧ c.Requires r k

def Starts (r : Registry) (e : LogicalError) (k : NodeKey) : Prop :=
  ∃ c, e.Contributes c ∧ c.Starts r k

def Leads (r : Registry) (e : LogicalError) (k k' : NodeKey) : Prop :=
  ∃ c, e.Contributes c ∧ c.Leads r k k'

/-- Two errors that share a requirement other than a checked trait. -/
def Meets (r : Registry) (a b : LogicalError) : Prop :=
  ∃ k, k.kind ≠ .check ∧ a.Requires r k ∧ b.Requires r k

/-- Places of two errors that meet. -/
def Neighbours (errors : List LogicalError) (r : Registry) (i j : Nat) : Prop :=
  ∃ a b, errors[i]? = some a ∧ errors[j]? = some b ∧ a.Meets r b

/-- No checked trait stands below another requirement. -/
theorem Leads.kind {r : Registry} {e : LogicalError} {k k' : NodeKey} (h : e.Leads r k k') :
    k'.kind ≠ .check := by
  obtain ⟨c, hc, -, s, hs, j, t, hp, -, -, hk'⟩ := h
  obtain ⟨i, hi⟩ := List.getElem?_of_mem hs
  have hordered := hc.shaped.ordered
  rw [Step.kind_nodeKey hk']
  intro hcheck
  have hlt := hordered.parent_lt i j s hi hp
  have hfirst := hordered.check_first i s hi hcheck
  omega

theorem Leads.requires {r : Registry} {e : LogicalError} {k k' : NodeKey} (h : e.Leads r k k') :
    e.Requires r k' := by
  obtain ⟨c, hc, hleads⟩ := h
  exact ⟨c, hc, hleads.requires_right⟩

end LogicalError

/-- The groups of a graph are the components of the errors in it. -/
structure GraphBuild.Components (errors : List LogicalError) (r : Registry) (b : GraphBuild) :
    Prop where
  sound : b.graph.Sound
  placed : ∀ g ∈ b.groups, ∀ e ∈ g.entries, errors[e.index]? = some e.error ∧
    (∃ cs, e.error.chains = .ok (.ok cs)) ∧ e.Represents b.graph r
  once : ∀ (i : Nat) (e : LogicalError) (cs : List (Chain × Int)), errors[i]? = some e →
    e.chains = .ok (.ok cs) → ∃! p : Nat × Nat, ∃ g o, b.groups[p.1]? = some g ∧
      g.entries[p.2]? = some o ∧ o.index = i
  component : ∀ (i j : Nat) (a o : LogicalError) (cs ds : List (Chain × Int)),
    errors[i]? = some a → errors[j]? = some o → a.chains = .ok (.ok cs) →
    o.chains = .ok (.ok ds) →
    ((∃ g ∈ b.groups, i ∈ g.entries.map Entry.index ∧ j ∈ g.entries.map Entry.index) ↔
      ReflTransGen (LogicalError.Neighbours errors r) i j)
  meets : ∀ g ∈ b.groups, ∀ g' ∈ b.groups, ∀ e ∈ g.entries, ∀ o ∈ g'.entries,
    (e.error.Meets r o.error ↔ ∃ h ∈ e.nodes, h ∈ o.nodes ∧ b.graph.isCheck h = false)
  nodes : ∀ g ∈ b.groups, g.nodes.Nodup ∧ ∀ h, h ∈ g.nodes ↔ ∃ e ∈ g.entries, h ∈ e.nodes
  edges : ∀ g ∈ b.groups, g.edges.Nodup ∧ ∀ p, p ∈ g.edges ↔ ∃ e ∈ g.entries, p ∈ e.edges
  drawn : ∀ g ∈ b.groups, ∀ p q, (p, q) ∈ g.edges → q ∈ b.graph.children p
  node_once : ∀ n : Nat, n < b.graph.size → b.graph.isCheck n = false →
    ∃! j : Nat, ∃ g, b.groups[j]? = some g ∧ (n : Handle) ∈ g.nodes
  edge_once : ∀ (n : Nat) (c : Handle), c ∈ b.graph.children n →
    ∃! j : Nat, ∃ g, b.groups[j]? = some g ∧ ((n : Handle), c) ∈ g.edges
  ordered : ∀ g ∈ b.groups, g.errors.Pairwise fun a o => a.firstSeen ≤ o.firstSeen
  least : ∀ g ∈ b.groups, (∀ e ∈ g.errors, g.firstSeen ≤ e.firstSeen) ∧
    ∃ e ∈ g.errors, g.firstSeen = e.firstSeen
  sorted : b.groups.Pairwise fun g g' => g.firstSeen ≤ g'.firstSeen

namespace Construction

variable {errors : List LogicalError} {r : Registry} {b : Construction}

theorem Built.shares_iff {done : List (LogicalError × Nat)} (hb : Built r done b) {e o : Entry}
    (he : e ∈ b.entries) (ho : o ∈ b.entries) :
    Grouping.shares b.graph e o = true ↔ e.error.Meets r o.error := by
  rw [Grouping.shares_iff]
  constructor
  · rintro ⟨h, heh, hoh, hcheck⟩
    obtain ⟨k, hek, hk⟩ := ((hb.represents e he).nodes h).1 heh
    obtain ⟨k', hok, hk'⟩ := ((hb.represents o ho).nodes h).1 hoh
    obtain rfl := hk.key_unique hk'
    refine ⟨k, ?_, hek, hok⟩
    intro hkind
    rw [(hb.sound.isCheck_iff hk).2 hkind] at hcheck
    cases hcheck
  · rintro ⟨k, hkind, hek, hok⟩
    obtain ⟨h, hh⟩ := (hb.represents e he).named k hek
    refine ⟨h, ((hb.represents e he).nodes h).2 ⟨k, hek, hh⟩,
      ((hb.represents o ho).nodes h).2 ⟨k, hok, hh⟩, ?_⟩
    rw [Bool.eq_false_iff]
    intro hcheck
    exact hkind ((hb.sound.isCheck_iff hh).1 hcheck)

theorem Built.placed (hb : Built r (queue errors) b) {e : Entry} (he : e ∈ b.entries) :
    errors[e.index]? = some e.error := by
  have hmem : (e.error, e.index) ∈ queue errors := hb.entries.subset (List.mem_map_of_mem he)
  rw [(perm_queue errors).mem_iff, List.mem_zipIdx_iff_getElem?] at hmem
  exact hmem

theorem Built.exists_entry (hb : Built r (queue errors) b) {i : Nat} {e : LogicalError}
    {cs : List (Chain × Int)} (hi : errors[i]? = some e) (hcs : e.chains = .ok (.ok cs)) :
    ∃ o ∈ b.entries, o.index = i ∧ o.error = e := by
  have hmem : (e, i) ∈ queue errors := by
    rw [(perm_queue errors).mem_iff, List.mem_zipIdx_iff_getElem?]
    exact hi
  rw [← hb.conserved.mem_iff] at hmem
  rcases List.mem_append.1 hmem with hmem | hmem
  · obtain ⟨o, ho, heq⟩ := List.mem_map.1 hmem
    cases heq
    exact ⟨o, ho, rfl, rfl⟩
  · obtain ⟨f, hf, heq⟩ := List.mem_map.1 hmem
    have hfailed := hb.failed f hf
    cases heq
    rw [hcs] at hfailed
    cases hfailed

theorem Built.entry_unique (hb : Built r (queue errors) b) {e o : Entry} (he : e ∈ b.entries)
    (ho : o ∈ b.entries) (h : e.index = o.index) : e = o :=
  List.inj_on_of_nodup_map hb.nodup_index he ho h

/-- A sequence of entries that share nodes is one of errors that meet. -/
theorem Built.joined_iff (hb : Built r (queue errors) b) {e o : Entry} (he : e ∈ b.entries)
    (ho : o ∈ b.entries) :
    ReflTransGen (Grouping.Linked b.graph b.entries) e o ↔
      ReflTransGen (LogicalError.Neighbours errors r) e.index o.index := by
  constructor
  · intro h
    induction h with
    | refl => exact .refl
    | tail _ hlast ih =>
      obtain ⟨hx, hy, hshares⟩ := hlast
      exact (ih hx).tail
        ⟨_, _, hb.placed hx, hb.placed hy, (hb.shares_iff hx hy).1 hshares⟩
  · intro h
    generalize hj : o.index = j at h
    induction h generalizing o with
    | refl =>
      rw [hb.entry_unique he ho hj.symm]
    | tail _ hlast ih =>
      obtain ⟨x, y, hx, hy, hmeets⟩ := hlast
      -- The error before the last one is consistent, because it has a requirement.
      obtain ⟨-, -, ⟨c, ⟨cs, seq, hcs, -⟩, -⟩, -⟩ := id hmeets
      obtain ⟨x', hx', hxi, rfl⟩ := hb.exists_entry hx hcs
      have hyo := hb.placed ho
      rw [hj, hy] at hyo
      cases hyo
      exact (ih hx' hxi).tail ⟨hx', ho, (hb.shares_iff hx' ho).2 hmeets⟩

theorem Built.drawn {done : List (LogicalError × Nat)} (hb : Built r done b) {e : Entry}
    (he : e ∈ b.entries) {p q : Handle} (hpq : (p, q) ∈ e.edges) : q ∈ b.graph.children p := by
  obtain ⟨k, k', -, ⟨n, rfl, -⟩, -⟩ := ((hb.represents e he).edges p q).1 hpq
  exact (hb.edges n q).2 ⟨e, he, hpq⟩

theorem Built.child_of_edge {done : List (LogicalError × Nat)} (hb : Built r done b) {e : Entry}
    (he : e ∈ b.entries) {p q : Handle} (hpq : (p, q) ∈ e.edges) :
    q ∈ e.nodes ∧ b.graph.isCheck q = false := by
  have hrep := hb.represents e he
  obtain ⟨k, k', hk, -, hq⟩ := (hrep.edges p q).1 hpq
  have hleads : e.error.Leads r k k' := hk
  refine ⟨(hrep.nodes q).2 ⟨k', hleads.requires, hq⟩, ?_⟩
  rw [Bool.eq_false_iff]
  intro hcheck
  exact hleads.kind ((hb.sound.isCheck_iff hq).1 hcheck)

/-- Groups that have entries which share a node are one group. -/
theorem Built.group_unique (hb : Built r (queue errors) b) {i j : Nat} {g g' : Group}
    {e o : Entry} (hi : (Grouping.groups b.graph b.entries)[i]? = some g)
    (hj : (Grouping.groups b.graph b.entries)[j]? = some g') (he : e ∈ g.entries)
    (ho : o ∈ g'.entries) (hshares : Grouping.shares b.graph e o = true) : i = j := by
  have hnodup : (((Grouping.groups b.graph b.entries).flatMap Group.entries).map
      Entry.index).Nodup :=
    ((Grouping.perm_flatMap_groups b.graph b.entries).map Entry.index).nodup_iff.2 hb.nodup_index
  have hmem := (Grouping.entries_sublist (List.mem_of_getElem? hi)).subset he
  have hmem' := (Grouping.entries_sublist (List.mem_of_getElem? hj)).subset ho
  have hlinked : ReflTransGen (Grouping.Linked b.graph b.entries) e o :=
    .single ⟨hmem, hmem', hshares⟩
  obtain ⟨g'', hg'', he'', ho''⟩ := (Grouping.same_group_iff hb.nodup_index hmem hmem').2 hlinked
  obtain ⟨k, hk⟩ := List.getElem?_of_mem hg''
  obtain ⟨x, hx⟩ := List.getElem?_of_mem he
  obtain ⟨x', hx'⟩ := List.getElem?_of_mem he''
  obtain ⟨y, hy⟩ := List.getElem?_of_mem ho
  obtain ⟨y', hy'⟩ := List.getElem?_of_mem ho''
  exact (place_unique_flatMap hnodup hi hx hk hx' rfl).1.trans
    (place_unique_flatMap hnodup hk hy' hj hy rfl).1

/-- For all errors and all names of components, there is a graph exactly when no chain meets a
fault, and then its groups are the components of the consistent errors. -/
theorem components_of_errors (errors : List LogicalError) (r : Registry) :
    ((∃ b, (ofErrors errors r).result = .ok b) ↔ ∀ e ∈ errors, ∃ o, e.chains = .ok o) ∧
      ∀ b, (ofErrors errors r).result = .ok b → b.Components errors r := by
  refine ⟨exists_result_iff, ?_⟩
  intro b hresult
  obtain ⟨hb, hgraph, hgroups, -⟩ := built_of_result hresult
  rw [hgraph] at hgroups
  generalize ofErrors errors r = c at hb hgraph hgroups
  -- The entries of a group are entries of the construction.
  have hentry : ∀ {g : Group} {e : Entry}, g ∈ b.groups → e ∈ g.entries → e ∈ c.entries := by
    intro g e hg he
    rw [hgroups] at hg
    exact (Grouping.entries_sublist hg).subset he
  constructor
  case sound =>
    rw [hgraph]
    exact hb.sound
  case placed =>
    intro g hg e he
    have hmem := hentry hg he
    rw [hgraph]
    exact ⟨hb.placed hmem, hb.consistent e hmem, hb.represents e hmem⟩
  case once =>
    intro i e cs hi hcs
    obtain ⟨o, ho, rfl, -⟩ := hb.exists_entry hi hcs
    have hperm := Grouping.perm_flatMap_groups c.graph c.entries
    rw [hgroups]
    exact existsUnique_place ((hperm.map Entry.index).nodup_iff.2 hb.nodup_index)
      (hperm.mem_iff.2 ho)
  case component =>
    intro i j a o cs ds hi hj hcs hds
    obtain ⟨x, hx, rfl, -⟩ := hb.exists_entry hi hcs
    obtain ⟨y, hy, rfl, -⟩ := hb.exists_entry hj hds
    rw [← hb.joined_iff hx hy, ← Grouping.same_group_iff hb.nodup_index hx hy, ← hgroups]
    constructor
    · rintro ⟨g, hg, hxg, hyg⟩
      obtain ⟨x', hx', hxi⟩ := List.mem_map.1 hxg
      obtain ⟨y', hy', hyi⟩ := List.mem_map.1 hyg
      obtain rfl := hb.entry_unique (hentry hg hx') hx hxi
      obtain rfl := hb.entry_unique (hentry hg hy') hy hyi
      exact ⟨g, hg, hx', hy'⟩
    · rintro ⟨g, hg, hxg, hyg⟩
      exact ⟨g, hg, List.mem_map_of_mem hxg, List.mem_map_of_mem hyg⟩
  case meets =>
    intro g hg g' hg' e he o ho
    rw [← hb.shares_iff (hentry hg he) (hentry hg' ho), Grouping.shares_iff, hgraph]
  case nodes => exact fun g _ => ⟨nodup_appendNew _ .nil, fun h => Group.mem_nodes⟩
  case edges => exact fun g _ => ⟨nodup_appendNew _ .nil, fun p => Group.mem_edges⟩
  case drawn =>
    intro g hg p q hpq
    obtain ⟨e, he, hedge⟩ := Group.mem_edges.1 hpq
    rw [hgraph]
    exact hb.drawn (hentry hg he) hedge
  case node_once =>
    intro n hn hcheck
    rw [hgraph] at hn hcheck
    obtain ⟨e, he, hmem⟩ := hb.covered n hn
    obtain ⟨j, g, hj, heg⟩ := Grouping.exists_group he
    rw [hgroups]
    refine ⟨j, ⟨g, hj, Group.mem_nodes.2 ⟨e, heg, hmem⟩⟩, ?_⟩
    rintro j' ⟨g', hj', hn'⟩
    obtain ⟨o, hog, ho⟩ := Group.mem_nodes.1 hn'
    exact hb.group_unique hj' hj hog heg (Grouping.shares_iff.2 ⟨n, ho, hmem, hcheck⟩)
  case edge_once =>
    intro n d hd
    rw [hgraph] at hd
    obtain ⟨e, he, hmem⟩ := (hb.edges n d).1 hd
    obtain ⟨j, g, hj, heg⟩ := Grouping.exists_group he
    rw [hgroups]
    refine ⟨j, ⟨g, hj, Group.mem_edges.2 ⟨e, heg, hmem⟩⟩, ?_⟩
    rintro j' ⟨g', hj', hd'⟩
    obtain ⟨o, hog, ho⟩ := Group.mem_edges.1 hd'
    have hoc := (Grouping.entries_sublist (List.mem_of_getElem? hj')).subset hog
    obtain ⟨hde, hcheck⟩ := hb.child_of_edge he hmem
    obtain ⟨hdo, -⟩ := hb.child_of_edge hoc ho
    exact hb.group_unique hj' hj hog heg (Grouping.shares_iff.2 ⟨d, hdo, hde, hcheck⟩)
  case ordered =>
    intro g hg
    rw [hgroups] at hg
    rw [Group.errors, List.pairwise_map]
    exact hb.sorted.sublist (Grouping.entries_sublist hg)
  case least =>
    intro g hg
    rw [hgroups] at hg
    exact Group.firstSeen_least (Grouping.entries_ne_nil hg)
  case sorted =>
    rw [hgroups]
    exact Grouping.groups_sorted hb.sorted

end Construction

end TraitTrace
