import Mathlib
import TraitTrace.Graph.Build
import TraitTrace.Proofs.Ledger.Renumbering

/-! Graphs under other numbers. Of the numbers of its nodes and edges, a graph uses the order alone:
it keeps the smaller of two and sorts by them. So a change of all numbers that keeps their order
changes nothing else. -/

namespace TraitTrace

def Link.renumber (ρ : Int → Int) (l : Link) : Link := { l with seq := ρ l.seq }

def Node.renumber (ρ : Int → Int) (n : Node) : Node :=
  { n with seq := ρ n.seq, links := n.links.map (Link.renumber ρ) }

def Graph.renumber (ρ : Int → Int) (g : Graph) : Graph :=
  { g with nodes := g.nodes.map (Node.renumber ρ) }

def Graph.Added.renumber (ρ : Int → Int) (a : Graph.Added) : Graph.Added :=
  { a with graph := a.graph.renumber ρ }

def Entry.renumber (ρ : Int → Int) (e : Entry) : Entry := { e with error := e.error.renumber ρ }

def Group.renumber (ρ : Int → Int) (g : Group) : Group := ⟨g.entries.map (Entry.renumber ρ)⟩

def renumberFailure (ρ : Int → Int) (f : Nat × LogicalError × Failure) :
    Nat × LogicalError × Failure := (f.1, f.2.1.renumber ρ, f.2.2)

def Construction.renumber (ρ : Int → Int) (b : Construction) : Construction :=
  ⟨b.graph.renumber ρ, b.entries.map (Entry.renumber ρ), b.failures.map (renumberFailure ρ), b.fault⟩

def GraphBuild.renumber (ρ : Int → Int) (b : GraphBuild) : GraphBuild :=
  ⟨b.graph.renumber ρ, b.groups.map (Group.renumber ρ), b.failures.map (renumberFailure ρ)⟩

variable {ρ : Int → Int}

namespace Node

theorem meet_renumber (hρ : StrictMono ρ) (n : Node) (s : Step) (seq : Int) :
    (n.renumber ρ).meet s (ρ seq) = (n.meet s seq).renumber ρ := by
  simp only [meet, renumber, hρ.monotone.map_min]

theorem link_renumber (hρ : StrictMono ρ) (n : Node) (child : Handle) (seq : Int) (rank : Nat) :
    (n.renumber ρ).link child (ρ seq) rank = (n.link child seq rank).renumber ρ := by
  have hknown : ((n.renumber ρ).links.any fun l => l.child = child) =
      n.links.any fun l => l.child = child := by
    rw [renumber, List.any_map]
    rfl
  rw [link, link, hknown]
  split
  · have hlinks : (n.renumber ρ).links.map
        (fun l => if l.child = child ∧ ρ seq < l.seq then { l with seq := ρ seq } else l) =
        (n.links.map fun l => if l.child = child ∧ seq < l.seq then { l with seq := seq } else l).map
          (Link.renumber ρ) := by
      rw [renumber, List.map_map, List.map_map]
      refine List.map_congr_left fun l _ => ?_
      simp only [Function.comp_apply, Link.renumber, hρ.lt_iff_lt]
      split <;> rfl
    rw [hlinks]
    rfl
  · have hlinks : (n.renumber ρ).links ++ [Link.renumber ρ ⟨child, seq, rank⟩] =
        (n.links ++ [(⟨child, seq, rank⟩ : Link)]).map (Link.renumber ρ) := by
      rw [List.map_append]
      rfl
    dsimp only [Link.renumber] at hlinks
    rw [hlinks]
    rfl

theorem children_renumber (hρ : StrictMono ρ) (n : Node) :
    (n.renumber ρ).children = n.children := by
  have horder : ∀ a ∈ n.links, ∀ b ∈ n.links,
      (a.seq < b.seq || (a.seq == b.seq && a.rank ≤ b.rank)) =
        ((a.renumber ρ).seq < (b.renumber ρ).seq ||
          ((a.renumber ρ).seq == (b.renumber ρ).seq &&
            (a.renumber ρ).rank ≤ (b.renumber ρ).rank)) := by
    intro a _ b _
    have hlt : decide ((a.renumber ρ).seq < (b.renumber ρ).seq) = decide (a.seq < b.seq) :=
      decide_eq_decide.2 hρ.lt_iff_lt
    have heq : ((a.renumber ρ).seq == (b.renumber ρ).seq) = (a.seq == b.seq) := by
      rw [Bool.eq_iff_iff, beq_iff_eq, beq_iff_eq]
      exact hρ.injective.eq_iff
    rw [hlt, heq]
    rfl
  unfold children
  dsimp only [renumber]
  rw [← List.map_mergeSort horder, List.map_map]
  rfl

end Node

namespace Graph

theorem size_renumber (g : Graph) : (g.renumber ρ).size = g.size := List.length_map _

theorem node?_renumber (g : Graph) (h : Handle) :
    (g.renumber ρ).node? h = (g.node? h).map (Node.renumber ρ) := by
  rw [node?, size_renumber, renumber, List.getElem?_map, node?]

theorem handles_renumber (g : Graph) : (g.renumber ρ).handles = g.handles := by
  rw [handles, size_renumber, handles]

theorem children_renumber (hρ : StrictMono ρ) (g : Graph) (h : Handle) :
    (g.renumber ρ).children h = g.children h := by
  rw [children, node?_renumber, children]
  cases g.node? h with
  | none => rfl
  | some n => exact n.children_renumber hρ

theorem isCheck_renumber (g : Graph) (h : Handle) : (g.renumber ρ).isCheck h = g.isCheck h := by
  rw [isCheck, node?_renumber, isCheck]
  cases g.node? h <;> rfl

theorem intern_renumber (hρ : StrictMono ρ) (g : Graph) (r : Registry) (s : Step) (seq : Int) :
    (g.renumber ρ).intern r s (ρ seq) =
      (g.intern r s seq).map fun p => (p.1.renumber ρ, p.2) := by
  unfold intern
  cases s.nodeKey r with
  | error fault => rfl
  | ok key =>
    have hfind : (g.renumber ρ).nodes.findIdx? (fun n => n.key = key) =
        g.nodes.findIdx? fun n => n.key = key := by
      rw [renumber, List.findIdx?_map]
      rfl
    dsimp only [bind, Except.bind]
    rw [hfind]
    cases g.nodes.findIdx? fun n => n.key = key with
    | some h =>
      have hmeet : (g.nodes.modify h fun n => n.meet s seq).map (Node.renumber ρ) =
          (g.nodes.map (Node.renumber ρ)).modify h fun n => n.meet s (ρ seq) :=
        map_modify_of_comm (fun n => (n.meet_renumber hρ s seq).symm) g.nodes h
      dsimp only [renumber]
      rw [← hmeet]
      rfl
    | none =>
      cases s.component r with
      | error fault => rfl
      | ok component =>
        dsimp only [renumber, pure, Except.pure, Except.map]
        rw [List.map_append, List.length_map]
        rfl

theorem link_renumber (hρ : StrictMono ρ) (g : Graph) (parent child : Handle) (seq : Int) :
    (g.renumber ρ).link parent child (ρ seq) = (g.link parent child seq).map (renumber ρ) := by
  unfold link
  rw [node?_renumber, size_renumber]
  cases g.node? parent with
  | none => rfl
  | some n =>
    have hlink : (g.nodes.modify (place g.size parent) fun n =>
        n.link child seq g.edgeCount).map (Node.renumber ρ) =
          (g.nodes.map (Node.renumber ρ)).modify (place g.size parent) fun n =>
            n.link child (ρ seq) g.edgeCount :=
      map_modify_of_comm (fun n => (n.link_renumber hρ child seq g.edgeCount).symm) g.nodes _
    have hknown : ((n.renumber ρ).links.any fun l => l.child = child) =
        n.links.any fun l => l.child = child := by
      rw [Node.renumber, List.any_map]
      rfl
    dsimp only [Option.map_some]
    rw [hknown]
    dsimp only [renumber, Except.map]
    rw [← hlink]

theorem addStep_renumber (hρ : StrictMono ρ) (r : Registry) (seq : Int) (a : Added) (s : Step) :
    addStep r (ρ seq) (a.renumber ρ) s = (addStep r seq a s).renumber ρ := by
  have hintern : (a.renumber ρ).graph.intern r s (ρ seq) =
      (a.graph.intern r s seq).map fun p => (p.1.renumber ρ, p.2) :=
    intern_renumber hρ a.graph r s seq
  rw [addStep, addStep]
  by_cases hfault : a.fault.isSome = true
  · rw [if_pos hfault]
    exact if_pos hfault
  · rw [if_neg hfault]
    refine (if_neg hfault).trans ?_
    rw [hintern]
    dsimp only [Added.renumber]
    cases a.graph.intern r s seq with
    | error fault => rfl
    | ok p =>
      obtain ⟨g, h⟩ := p
      dsimp only [Except.map]
      cases s.parent with
      | none => rfl
      | some i =>
        dsimp only
        cases a.handles[i]? with
        | none => rfl
        | some parent =>
          dsimp only
          split
          · rfl
          · rw [link_renumber hρ]
            cases g.link parent h seq <;> rfl

theorem addSteps_renumber (hρ : StrictMono ρ) (g : Graph) (r : Registry) (steps : List Step)
    (seq : Int) :
    (g.renumber ρ).addSteps r steps (ρ seq) = (g.addSteps r steps seq).renumber ρ := by
  have hfold : ∀ a : Added, steps.foldl (addStep r (ρ seq)) (a.renumber ρ) =
      (steps.foldl (addStep r seq) a).renumber ρ := by
    induction steps with
    | nil => exact fun a => rfl
    | cons s steps ih =>
      intro a
      rw [List.foldl_cons, List.foldl_cons, addStep_renumber hρ, ih]
  exact hfold ⟨g, [], [], none⟩

end Graph

/-- The chains of an error are those of its facts, with the numbers of its records. -/
theorem LogicalError.chains_renumber (ρ : Int → Int) (e : LogicalError) :
    (e.renumber ρ).chains = e.chains.map fun x => x.map (List.map (Prod.map id ρ)) := by
  have hgo : ∀ rs : List Record, chains.go (e.renumber ρ) (rs.map (Record.renumber ρ)) =
      (chains.go e rs).map fun x => x.map (List.map (Prod.map id ρ)) := by
    intro rs
    induction rs with
    | nil => rfl
    | cons record rs ih =>
      have hchain : Chain.ofFacts (record.renumber ρ).facts (e.renumber ρ).context =
          Chain.ofFacts record.facts e.context := rfl
      rw [List.map_cons, chains.go, chains.go, ih, hchain]
      cases Chain.ofFacts record.facts e.context with
      | error fault => rfl
      | ok c =>
        have hplace : c.inconsistency? (e.renumber ρ).context (e.renumber ρ).placeText =
            c.inconsistency? e.context e.placeText := rfl
        dsimp only
        rw [hplace]
        cases c.inconsistency? e.context e.placeText with
        | some failure => rfl
        | none =>
          cases chains.go e rs with
          | error fault => rfl
          | ok more => cases more <;> rfl
  have hcollisions : (e.renumber ρ).collisions = e.collisions := rfl
  unfold chains
  rw [hcollisions]
  cases e.collisions with
  | nil => exact hgo e.records
  | cons o os => rfl

namespace Construction

theorem addChains_renumber (hρ : StrictMono ρ) (r : Registry) (g : Graph) (e : Entry)
    (cs : List (Chain × Int)) :
    addChains r (g.renumber ρ) (e.renumber ρ) (cs.map (Prod.map id ρ)) =
      ((addChains r g e cs).1.renumber ρ, (addChains r g e cs).2.1.renumber ρ,
        (addChains r g e cs).2.2) := by
  induction cs generalizing g e with
  | nil => rfl
  | cons p cs ih =>
    obtain ⟨c, seq⟩ := p
    rw [List.map_cons, Prod.map_apply, id_eq, addChains, addChains, g.addSteps_renumber hρ]
    generalize g.addSteps r c.steps seq = a
    dsimp only [Graph.Added.renumber]
    cases a.fault with
    | some fault => rfl
    | none =>
      exact ih a.graph
        { e with
          roots := appendNew e.roots (a.handles.take 1)
          nodes := appendNew e.nodes a.handles
          edges := appendNew e.edges a.edges }

theorem add_renumber (hρ : StrictMono ρ) (r : Registry) (b : Construction)
    (e : LogicalError × Nat) :
    add r (b.renumber ρ) (Prod.map (LogicalError.renumber ρ) id e) = (add r b e).renumber ρ := by
  obtain ⟨e, i⟩ := e
  rw [add, add]
  by_cases hfault : b.fault.isSome = true
  · rw [if_pos hfault]
    exact if_pos hfault
  · rw [if_neg hfault]
    refine (if_neg hfault).trans ?_
    dsimp only [Prod.map]
    rw [e.chains_renumber ρ]
    cases e.chains with
    | error fault => rfl
    | ok chains =>
      cases chains with
      | error failure =>
        dsimp only [Except.map, renumber]
        rw [List.map_append]
        rfl
      | ok cs =>
        have hadd := addChains_renumber hρ r b.graph ⟨i, e, [], [], []⟩ cs
        dsimp only [Except.map, renumber]
        dsimp only [Entry.renumber] at hadd
        rw [id_eq, hadd]
        generalize addChains r b.graph ⟨i, e, [], [], []⟩ cs = x
        obtain ⟨g, entry, fault⟩ := x
        cases fault with
        | some fault => rfl
        | none =>
          dsimp only
          rw [List.map_append]
          rfl

theorem ofErrors_renumber (hρ : StrictMono ρ) (errors : List LogicalError) (r : Registry) :
    ofErrors (errors.map (LogicalError.renumber ρ)) r = (ofErrors errors r).renumber ρ := by
  have hfold : ∀ (es : List (LogicalError × Nat)) (b : Construction),
      (es.map (Prod.map (LogicalError.renumber ρ) id)).foldl (add r) (b.renumber ρ) =
        (es.foldl (add r) b).renumber ρ := by
    intro es
    induction es with
    | nil => exact fun b => rfl
    | cons e es ih =>
      intro b
      rw [List.map_cons, List.foldl_cons, List.foldl_cons, add_renumber hρ, ih]
  rw [ofErrors, ofErrors, List.zipIdx_map, ← hfold]
  refine congrArg (fun es => es.foldl (add r) start) (List.map_mergeSort fun a _ b _ => ?_).symm
  exact decide_eq_decide.2 hρ.le_iff_le.symm

end Construction

theorem Grouping.groups_renumber (g : Graph) (es : List Entry) :
    groups (g.renumber ρ) (es.map (Entry.renumber ρ)) = (groups g es).map (Group.renumber ρ) := by
  have hshares : ∀ a b : Entry, shares (g.renumber ρ) (a.renumber ρ) (b.renumber ρ) =
      shares g a b := by
    intro a b
    unfold shares
    simp only [g.isCheck_renumber]
    rfl
  have hlinked : linkedAt (g.renumber ρ) (es.map (Entry.renumber ρ)) = linkedAt g es := by
    funext i j
    unfold linkedAt
    rw [List.getElem?_map, List.getElem?_map]
    cases es[i]? with
    | none => rfl
    | some a =>
      cases es[j]? with
      | none => rfl
      | some b => exact hshares a b
  unfold groups
  dsimp only
  rw [hlinked, List.length_map, List.map_map, List.zip_map_left]
  refine List.map_congr_left fun i _ => ?_
  rw [List.filter_map, List.map_map]
  simp only [Function.comp_apply, Group.renumber, List.map_map]
  rfl

/-- The graph of errors with other numbers. -/
theorem Construction.result_renumber (hρ : StrictMono ρ) (errors : List LogicalError)
    (r : Registry) :
    (ofErrors (errors.map (LogicalError.renumber ρ)) r).result =
      (ofErrors errors r).result.map (GraphBuild.renumber ρ) := by
  rw [ofErrors_renumber hρ]
  generalize ofErrors errors r = b
  unfold result
  dsimp only [renumber]
  cases b.fault with
  | some fault => rfl
  | none =>
    dsimp only [Except.map, GraphBuild.renumber]
    rw [Grouping.groups_renumber]

end TraitTrace
