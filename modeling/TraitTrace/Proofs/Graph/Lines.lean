import TraitTrace.Proofs.Graph.Leaves
import TraitTrace.Proofs.Graph.Outline

/-! Lines of drawn trees. The depths of the lines make an outline, in which every line has the place
that its handle has among the children of the line above. The text of a line shows this place: a cell
for every line that it hangs under, blank under a last one, and a connector. -/

namespace TraitTrace

open Outline

namespace TreeLine

/-- The depths of the lines, as an outline. -/
abbrev depths (tree : List TreeLine) : List Nat := tree.map TreeLine.depth

/-- The handles that a line leads to. -/
def below (children : Handle → List Handle) (l : TreeLine) : List Handle :=
  if l.isBackReference then [] else children l.handle

/-- The lines of a tree as its vertices. -/
structure Spans (children : Handle → List Handle) (roots : List Handle) (tree : List TreeLine) :
    Prop where
  roots : ∃ is, Enumerates (fun i => (depths tree)[i]? = some 0) is ∧
    is.map (fun i => tree[i]?.map TreeLine.handle) = roots.map some
  parent : ∀ i l, tree[i]? = some l → l.depth ≠ 0 → ∃! p, Under (depths tree) p i
  children : ∀ p l, tree[p]? = some l → ∃ is, Enumerates (Under (depths tree) p) is ∧
    is.map (fun i => tree[i]?.map TreeLine.handle) = (l.below children).map some
  ancestors : ∀ i l k, tree[i]? = some l → k ≤ l.depth →
    ∃! a, Above (depths tree) a i ∧ (depths tree)[a]? = some k

/-- What stands before the label of line `i`, which is at depth `d`. -/
structure Led (g : Glyphs) (depths : List Nat) (i d : Nat) (cells : List String)
    (connector : String) : Prop where
  outer : d = 0 → cells = [] ∧ connector = ""
  length : cells.length = d - 1
  widths : (∀ c ∈ cells, c.length = 3) ∧ (d ≠ 0 → connector.length = 3)
  connector : d ≠ 0 →
    (connector = g.last ↔ Last depths i) ∧ (connector = g.branch ↔ ¬Last depths i)
  cell : ∀ k a, k + 1 < d → Above depths a i → depths[a]? = some (k + 1) →
    (cells[k]? = some g.blank ↔ Last depths a) ∧ (cells[k]? = some g.bar ↔ ¬Last depths a)

/-- What follows the label of a line. -/
def suffix (l : TreeLine) : String :=
  if l.isBackReference then " " ++ backReferenceMark
  else
    match l.mark with
    | some m => " " ++ m
    | none => ""

/-- A tree that shows a traversal of a graph. -/
structure Shows (graph : Graph) (r : Registry) (charset : Charset)
    (children : Handle → List Handle) (roots : List Handle) (tree : List TreeLine) : Prop where
  spans : Spans children roots tree
  lines : ∀ i l, tree[i]? = some l → ∃ n cells connector, graph.node? l.handle = some n ∧
    Led charset.glyphs (depths tree) i l.depth cells connector ∧
    l.mark = (if l.isBackReference then none
      else n.mark? charset.glyphs (children l.handle).isEmpty) ∧
    l.text = String.join cells ++ connector ++ n.label r ++ l.suffix

end TreeLine

namespace Walk

/-- The cells of a visit, and its connector. -/
def Visit.cells (g : Glyphs) (v : Visit Handle) : List String :=
  v.ends.dropLast.map fun e => if e then g.blank else g.bar

def Visit.connector (g : Glyphs) (v : Visit Handle) : String :=
  match v.ends.getLast? with
  | none => ""
  | some e => if e then g.last else g.branch

theorem Visit.lead_eq (g : Glyphs) (v : Visit Handle) :
    v.lead g = String.join (v.cells g) ++ v.connector g := by
  unfold Visit.lead Visit.connector Visit.cells
  cases h : v.ends.getLast? with
  | none =>
    rw [List.getLast?_eq_none_iff.1 h]
    rfl
  | some e => rfl

theorem Visit.text_line (g : Glyphs) (r : Registry) (n : Node) (v : Visit Handle) :
    (v.line g r n).text = v.lead g ++ n.label r ++ (v.line g r n).suffix := by
  unfold Visit.line TreeLine.suffix
  cases v.isBackReference with
  | true => exact String.append_assoc
  | false => rfl

theorem Visit.mark_eq (g : Glyphs) (r : Registry) (n : Node) (v : Visit Handle) :
    (v.line g r n).mark = if v.isBackReference then none else n.mark? g v.isLeaf := by
  unfold Visit.line
  cases v.isBackReference <;> rfl

/-- What a charset has for the place of a line: three characters each, and told apart. -/
structure Apart (g : Glyphs) : Prop where
  connectors : g.last ≠ g.branch
  cells : g.blank ≠ g.bar
  widths : g.last.length = 3 ∧ g.branch.length = 3 ∧ g.blank.length = 3 ∧ g.bar.length = 3

theorem apart_glyphs (charset : Charset) : Apart charset.glyphs := by
  cases charset <;> exact ⟨by decide, by decide, by decide⟩

/-- One of two texts tells what it was chosen by. -/
theorem chosen_iff {x y : String} (hne : x ≠ y) {b : Bool} {P : Prop} (hb : b = true ↔ P) :
    ((if b = true then x else y) = x ↔ P) ∧ ((if b = true then x else y) = y ↔ ¬P) := by
  rw [← hb]
  cases b with
  | true => exact ⟨iff_of_true rfl rfl, iff_of_false hne (not_not_intro rfl)⟩
  | false => exact ⟨iff_of_false hne.symm nofun, iff_of_true rfl nofun⟩

theorem Formed.led {children : Handle → List Handle} {left : List (Handle × List Bool)}
    {vs : List (Visit Handle)} (h : Formed children 0 left vs) {g : Glyphs} (hg : Apart g)
    {i : Nat} {v : Visit Handle} (hv : vs[i]? = some v) :
    TreeLine.Led g (depths vs) i v.depth (v.cells g) (v.connector g) := by
  obtain ⟨hlast, hbranch, hblank, hbar⟩ := hg.widths
  constructor
  case outer =>
    intro hd
    have hends : v.ends = [] := List.length_eq_zero_iff.1 hd
    unfold Visit.cells Visit.connector
    rw [hends]
    exact ⟨rfl, rfl⟩
  case length => rw [Visit.cells, List.length_map, List.length_dropLast, Visit.depth]
  case widths =>
    constructor
    · intro c hc
      obtain ⟨e, -, rfl⟩ := List.mem_map.1 hc
      split
      · exact hblank
      · exact hbar
    · intro hd
      obtain ⟨ends, b, hends, -⟩ := h.last_mark hv hd
      rw [Visit.connector, hends, List.getLast?_concat]
      cases b with
      | true => exact hlast
      | false => exact hbranch
  case connector =>
    intro hd
    obtain ⟨ends, b, hends, hb⟩ := h.last_mark hv hd
    rw [Visit.connector, hends, List.getLast?_concat]
    exact chosen_iff hg.connectors hb
  case cell =>
    intro k a hk habove ha
    obtain ⟨u, hu, hd⟩ := exists_of_depth ha
    obtain ⟨b, hmark, hb⟩ := h.mark_of_above habove hu hv hd
    have hinner : k < v.ends.length - 1 := Nat.lt_sub_of_add_lt hk
    have hcell : (v.cells g)[k]? = some (if b = true then g.blank else g.bar) := by
      rw [Visit.cells, List.getElem?_map, List.getElem?_dropLast, if_pos hinner, hmark]
      rfl
    rw [hcell, Option.some.injEq, Option.some.injEq]
    exact chosen_iff hg.cells hb

theorem Formed.spans {children : Handle → List Handle} {roots : List Handle}
    {vs : List (Visit Handle)} {tree : List TreeLine}
    (h : Formed children 0 (roots.map fun root => (root, [])) vs)
    (hlines : List.Forall₂ Visit.Draws vs tree) : TreeLine.Spans children roots tree := by
  have hdepths : TreeLine.depths tree = depths vs :=
    map_eq_of_forall₂ hlines fun v l h => h.depth
  have hhandles : ∀ i : Nat, tree[i]?.map TreeLine.handle = (vs[i]?.map Visit.spot).map Prod.fst := by
    intro i
    rw [← List.getElem?_map, map_eq_of_forall₂ hlines fun v l h => h.handle, List.getElem?_map,
      Option.map_map]
    rfl
  have hmap : ∀ {is : List Nat} {ps : List (Handle × List Bool)},
      (is.map fun i => vs[i]?.map Visit.spot) = ps.map some →
      (is.map fun i => tree[i]?.map TreeLine.handle) = (ps.map Prod.fst).map some := by
    intro is ps hspots
    calc (is.map fun i => tree[i]?.map TreeLine.handle)
        = (is.map fun i => vs[i]?.map Visit.spot).map (Option.map Prod.fst) := by
          rw [List.map_map]
          exact List.map_congr_left fun i _ => hhandles i
      _ = (ps.map Prod.fst).map some := by
          rw [hspots, List.map_map, List.map_map]
          rfl
  constructor
  case roots =>
    obtain ⟨is, his, hspots⟩ := h.outer
    rw [hdepths]
    refine ⟨is, his, (hmap hspots).trans ?_⟩
    rw [List.map_map, List.map_map]
    rfl
  case parent =>
    intro i l hl hd
    obtain ⟨v, hv, hvl⟩ := forall₂_right hlines hl
    rw [hvl.depth] at hd
    obtain ⟨p, hp⟩ := h.exists_under hv hd
    rw [hdepths]
    exact ⟨p, hp, fun q hq => hq.unique hp⟩
  case children =>
    intro p l hl
    obtain ⟨v, hv, hvl⟩ := forall₂_right hlines hl
    obtain ⟨is, his, hspots⟩ := h.under p v hv
    rw [hdepths]
    refine ⟨is, his, (hmap hspots).trans ?_⟩
    rw [map_fst_below, TreeLine.below, hvl.isBackReference, hvl.handle]
    rfl
  case ancestors =>
    intro i l k hl hk
    obtain ⟨v, hv, hvl⟩ := forall₂_right hlines hl
    rw [hdepths]
    refine existsUnique_above (fun j d hj => ?_) (depth_getElem? hv) (hvl.depth ▸ hk)
    obtain ⟨w, hw, hd⟩ := exists_of_depth hj
    exact h.exists_under hw (by omega)

end Walk

namespace Graph

theorem shows_of_draw {graph : Graph} {r : Registry} {charset : Charset}
    {children : Handle → List Handle} {roots : List Handle} {tree : List TreeLine}
    (h : graph.draw r charset children roots = .ok tree) :
    TreeLine.Shows graph r charset children roots tree := by
  have hlines := forall₂_of_draw h
  have hdraws : List.Forall₂ Walk.Visit.Draws (Walk.preorder graph.handles children roots) tree := by
    refine hlines.imp fun v l hvl => ?_
    obtain ⟨n, -, rfl⟩ := hvl
    exact v.draws_line _ r n
  have hdomain := mem_handles_of_draw h
  have hformed := (Walk.planted_visits _ _ hdomain).formed (d := 0) (by
    intro p hp
    obtain ⟨root, -, rfl⟩ := List.mem_map.1 hp
    rfl)
  have hdepths : TreeLine.depths tree = Walk.depths (Walk.preorder graph.handles children roots) :=
    map_eq_of_forall₂ hdraws fun v l hvl => hvl.depth
  refine ⟨hformed.spans hdraws, fun i l hl => ?_⟩
  obtain ⟨v, hv, n, hn, rfl⟩ := forall₂_right hlines hl
  obtain ⟨hdepth, hhandle, hback⟩ := v.draws_line charset.glyphs r n
  refine ⟨n, v.cells charset.glyphs, v.connector charset.glyphs, hhandle.symm ▸ hn, ?_, ?_, ?_⟩
  · rw [hdepth, hdepths]
    exact hformed.led (Walk.apart_glyphs charset) hv
  · rw [v.mark_eq, hback, hhandle]
    cases hfirst : v.isBackReference with
    | true => rfl
    | false =>
      have hmem := List.mem_of_getElem? hv
      rw [Walk.isLeaf_of_expanded _ _ v hmem hfirst (hdomain v hmem)]
  · rw [v.text_line, v.lead_eq]

theorem exists_expanded {graph : Graph} {r : Registry} {charset : Charset}
    {children : Handle → List Handle} {roots : List Handle} {tree : List TreeLine}
    (h : graph.draw r charset children roots = .ok tree) {l : TreeLine} (hl : l ∈ tree) :
    ∃ (p : Nat) (m : TreeLine), tree[p]? = some m ∧ m.handle = l.handle ∧
      m.isBackReference = false := by
  have hlines := forall₂_of_draw h
  obtain ⟨i, hi⟩ := List.getElem?_of_mem hl
  cases hback : l.isBackReference with
  | false => exact ⟨i, l, hi, rfl, hback⟩
  | true =>
    obtain ⟨v, hv, n, -, rfl⟩ := forall₂_right hlines hi
    obtain ⟨-, hhandle, hsame⟩ := v.draws_line charset.glyphs r n
    rw [hsame] at hback
    rcases Walk.expanded_before _ _ i v hv hback with hnone | ⟨j, w, -, hw, hwv, hfirst⟩
    · exact absurd hnone List.not_mem_nil
    · obtain ⟨m, hm, n', -, rfl⟩ := forall₂_left hlines hw
      obtain ⟨-, hhandle', hsame'⟩ := w.draws_line charset.glyphs r n'
      exact ⟨j, _, hm, by rw [hhandle', hwv, hhandle], hsame'.trans hfirst⟩

/-- Every handle that is reached from the roots of a drawn tree has a line. -/
theorem exists_line {graph : Graph} {r : Registry} {charset : Charset}
    {children : Handle → List Handle} {roots : List Handle} {tree : List TreeLine}
    (h : graph.draw r charset children roots = .ok tree) {root k : Handle} (hroot : root ∈ roots)
    (hreach : Walk.Reaches children root k) : ∃ l ∈ tree, l.handle = k := by
  have hspans := (shows_of_draw h).spans
  -- A line stands for each handle that lines are listed for.
  have hlisted : ∀ {is : List Nat} {hs : List Handle} {k : Handle},
      is.map (fun i => tree[i]?.map TreeLine.handle) = hs.map some → k ∈ hs →
      ∃ l ∈ tree, l.handle = k := by
    intro is hs k heq hk
    have hmem : some k ∈ is.map fun i => tree[i]?.map TreeLine.handle := by
      rw [heq]
      exact List.mem_map_of_mem hk
    obtain ⟨i, -, hi⟩ := List.mem_map.1 hmem
    obtain ⟨l, hl, rfl⟩ := Option.map_eq_some_iff.1 hi
    exact ⟨l, List.mem_of_getElem? hl, rfl⟩
  induction hreach with
  | refl =>
    obtain ⟨is, -, heq⟩ := hspans.roots
    exact hlisted heq hroot
  | @tail k c _ hc ih =>
    obtain ⟨l, hl, rfl⟩ := ih
    obtain ⟨p, m, hm, hsame, hfirst⟩ := exists_expanded h hl
    obtain ⟨is, -, heq⟩ := hspans.children p m hm
    refine hlisted heq ?_
    rw [TreeLine.below, hfirst, hsame]
    exact hc

/-- A tree is drawn exactly if all that is reached from the roots has nodes. Its lines are the
vertices of the tree that the walk goes through, and each line shows its place in that tree: the
cells and the connector tell, for the line and all that it hangs under, which ones are last. -/
theorem draw_shows (graph : Graph) (r : Registry) (charset : Charset)
    (children : Handle → List Handle) (roots : List Handle) :
    ((∃ tree, graph.draw r charset children roots = .ok tree) ↔
      ∀ root ∈ roots, ∀ h, Walk.Reaches children root h → ∃ n, graph.node? h = some n) ∧
    ∀ tree, graph.draw r charset children roots = .ok tree →
      TreeLine.Shows graph r charset children roots tree := by
  refine ⟨⟨?_, fun hnodes => ?_⟩, fun tree => shows_of_draw⟩
  · rintro ⟨tree, htree⟩ root hroot h hreach
    obtain ⟨l, hl, rfl⟩ := exists_line htree hroot hreach
    obtain ⟨i, hi⟩ := List.getElem?_of_mem hl
    obtain ⟨n, -, -, hn, -⟩ := (shows_of_draw htree).lines i l hi
    exact ⟨n, hn⟩
  · have hreached : ∀ v ∈ Walk.preorder graph.handles children roots,
        ∃ root ∈ roots, Walk.Reaches children root v.handle := by
      apply Walk.forall_visits (P := fun h => ∃ root ∈ roots, Walk.Reaches children root h)
      · rintro h ⟨root, hroot, hreach⟩ c hc
        exact ⟨root, hroot, hreach.tail hc⟩
      · intro p hp
        obtain ⟨root, hroot, rfl⟩ := List.mem_map.1 hp
        exact ⟨root, hroot, .refl⟩
    refine exists_draw (fun v hv => ?_) r charset
    obtain ⟨root, hroot, hreach⟩ := hreached v hv
    obtain ⟨n, hn⟩ := hnodes root hroot v.handle hreach
    exact mem_handles_of_node? hn

/-- What hangs under the second line, which is not a last one, has a bar, and what hangs under the
fourth, which is one, a blank. -/
theorem draw_shows_knot :
    let children : Handle → List Handle := fun h =>
      if h = 0 then [1, 2] else if h = 1 then [0] else if h = 2 then [3, 1] else []
    (∀ h, Walk.Reaches children 0 h → ∃ n, Group.knot.node? h = some n) ∧
      ∃ tree, Group.knot.draw .empty .ascii children [0] = .ok tree ∧
        TreeLine.Shows Group.knot .empty .ascii children [0] tree ∧
        tree.map TreeLine.text = ["field `_` on `A`", "|- field `_` on `B`",
          "|  `- field `_` on `A` (*)", "`- field `_` on `C`", "   |- field `_` on `D` x",
          "   `- field `_` on `B` (*)"] := by
  intro children
  have htexts : (Group.knot.draw .empty .ascii children [0]).map (List.map TreeLine.text) =
      .ok ["field `_` on `A`", "|- field `_` on `B`", "|  `- field `_` on `A` (*)",
        "`- field `_` on `C`", "   |- field `_` on `D` x", "   `- field `_` on `B` (*)"] := by
    cbv
  obtain ⟨tree, htree, htext⟩ := map_ok.1 htexts
  obtain ⟨hdrawn, hshows⟩ := draw_shows Group.knot .empty .ascii children [0]
  exact ⟨hdrawn.1 ⟨tree, htree⟩ 0 List.mem_cons_self, tree, htree, hshows tree htree, htext⟩

end Graph

end TraitTrace
