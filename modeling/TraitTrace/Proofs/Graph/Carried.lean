import TraitTrace.Proofs.Graph.Lines

/-! Trees drawn with carried texts. A walk may keep, with each place that is left to visit, what its
line begins with and its connector, and tell from the connector of a line which cell stands under it.
It draws what the walk over marks draws, as every place keeps what its marks stand for. -/

namespace TraitTrace

namespace Walk

/-- A place that is left to visit, with its depth and with the texts before its label. -/
structure Carried where
  handle : Handle
  depth : Nat
  lead : String
  connector : String

namespace Carried

/-- What the lines under a line begin with. -/
def leadBelow (g : Glyphs) (p : Carried) : String :=
  if p.depth = 0 then "" else p.lead ++ if p.connector = g.last then g.blank else g.bar

def below (g : Glyphs) (p : Carried) : List Handle → List Carried
  | [] => []
  | [c] => [⟨c, p.depth + 1, p.leadBelow g, g.last⟩]
  | c :: cs => ⟨c, p.depth + 1, p.leadBelow g, g.branch⟩ :: p.below g cs

/-- The line of a place whose handle was met before, or where it is met first. -/
def line (g : Glyphs) (r : Registry) (n : Node) (p : Carried) (isBackReference isLeaf : Bool) :
    TreeLine :=
  let text := p.lead ++ p.connector ++ n.label r
  if isBackReference then ⟨p.depth, p.handle, text ++ " " ++ backReferenceMark, true, none⟩
  else
    let mark := n.mark? g isLeaf
    let suffix :=
      match mark with
      | some m => " " ++ m
      | none => ""
    ⟨p.depth, p.handle, text ++ suffix, false, mark⟩

end Carried

/-- Draws the places left to visit. A handle without a node is a fault. -/
def drawn (graph : Graph) (g : Glyphs) (r : Registry) (children : Handle → List Handle) :
    List Carried → List Handle → Except Fault (List TreeLine)
  | [], _ => .ok []
  | p :: rest, expanded =>
    match graph.node? p.handle with
    | none => .error .indexRange
    | some n =>
      if _hb : expanded.contains p.handle = true then do
        return p.line g r n true false :: (← drawn graph g r children rest expanded)
      else if _hd : p.handle ∈ graph.handles then do
        let kids := children p.handle
        return p.line g r n false kids.isEmpty ::
          (← drawn graph g r children (p.below g kids ++ rest) (p.handle :: expanded))
      else .error .indexRange
termination_by left expanded => ((unexpanded graph.handles expanded).length, left.length)
decreasing_by
  · exact Prod.Lex.right _ (by simp)
  · exact Prod.Lex.left _ _ (length_unexpanded_lt _hd (by simpa using _hb))

/-- What is carried for a handle with its marks. -/
def carry (g : Glyphs) (p : Handle × List Bool) : Carried :=
  let v : Visit Handle := ⟨p.1, p.2, false, false⟩
  ⟨p.1, v.depth, String.join (v.cells g), v.connector g⟩

theorem carry_concat (g : Glyphs) (h : Handle) (ends : List Bool) (b : Bool) :
    carry g (h, ends ++ [b]) = ⟨h, ends.length + 1,
      String.join (ends.map fun e => if e then g.blank else g.bar),
      if b then g.last else g.branch⟩ := by
  unfold carry Visit.depth Visit.cells Visit.connector
  dsimp only
  rw [List.length_append, List.length_singleton, List.dropLast_concat, List.getLast?_concat]

/-- The cell that the connector of a line tells is the one that its last mark stands for. -/
theorem leadBelow_carry {g : Glyphs} (hg : Apart g) (h : Handle) (ends : List Bool) :
    (carry g (h, ends)).leadBelow g =
      String.join (ends.map fun e => if e then g.blank else g.bar) := by
  rcases List.eq_nil_or_concat ends with rfl | ⟨front, b, rfl⟩
  · rfl
  · have hcell : (if (if b = true then g.last else g.branch) = g.last then g.blank else g.bar) =
        if b = true then g.blank else g.bar :=
      if_congr (chosen_iff hg.connectors Iff.rfl).1 rfl rfl
    rw [List.concat_eq_append, carry_concat, Carried.leadBelow, if_neg (Nat.succ_ne_zero _), hcell,
      List.map_append, String.join_append, List.map_singleton, String.join_cons, String.join_nil,
      String.append_empty]

theorem carry_below {g : Glyphs} (hg : Apart g) (h : Handle) (ends : List Bool)
    (cs : List Handle) :
    (below ends cs).map (carry g) = (carry g (h, ends)).below g cs := by
  have hlead := leadBelow_carry hg h ends
  have hdepth : (carry g (h, ends)).depth = ends.length := rfl
  induction cs with
  | nil => rfl
  | cons c cs ih =>
    cases cs with
    | nil =>
      rw [below, Carried.below, List.map_singleton, carry_concat, hlead, hdepth]
      rfl
    | cons d cs =>
      rw [below, Carried.below, List.map_cons, carry_concat, hlead, hdepth, ih]
      · rfl
      · exact List.cons_ne_nil d cs
      · exact List.cons_ne_nil d cs

theorem line_carry (g : Glyphs) (r : Registry) (n : Node) (v : Visit Handle) :
    v.line g r n = (carry g (v.handle, v.ends)).line g r n v.isBackReference v.isLeaf := by
  unfold Visit.line Carried.line
  rw [v.lead_eq]
  rfl

/-- Carried texts draw what marks draw, from any places that are left to visit. -/
theorem drawn_carry {g : Glyphs} (hg : Apart g) (graph : Graph) (r : Registry)
    (children : Handle → List Handle) (left : List (Handle × List Bool)) (expanded : List Handle) :
    drawn graph g r children (left.map (carry g)) expanded =
      (visits graph.handles children left expanded).mapM fun v =>
        match graph.node? v.handle with
        | some n => .ok (v.line g r n)
        | none => .error .indexRange := by
  induction left, expanded using visits.induct graph.handles children with
  | case1 expanded =>
    rw [visits_nil, List.map_nil, drawn]
    rfl
  | case2 h ends rest expanded hb ih =>
    have hhandle : (carry g (h, ends)).handle = h := rfl
    rw [visits_of_mem (List.contains_iff_mem.1 hb), List.map_cons, drawn, List.mapM_cons, ← ih,
      hhandle]
    cases graph.node? h with
    | none => rfl
    | some n =>
      dsimp only
      rw [dif_pos hb, line_carry]
      rfl
  | case3 h ends rest expanded hb hd ih =>
    have hhandle : (carry g (h, ends)).handle = h := rfl
    rw [visits_of_not_mem (fun he => hb (List.contains_iff_mem.2 he)) hd, List.map_cons, drawn,
      List.mapM_cons, ← ih, hhandle]
    cases graph.node? h with
    | none => rfl
    | some n =>
      dsimp only
      rw [dif_neg hb, dif_pos hd, line_carry, List.map_append, carry_below hg h]
      rfl
  | case4 h ends rest expanded hb hd ih =>
    have hhandle : (carry g (h, ends)).handle = h := rfl
    have hnone : graph.node? h = none := by
      cases hn : graph.node? h with
      | none => rfl
      | some n => exact absurd (Graph.mem_handles_of_node? hn) hd
    rw [visits, dif_neg hb, dif_neg hd, List.map_cons, drawn, List.mapM_cons, hhandle, hnone]
    rfl

end Walk

/-- A tree is drawn with carried texts, from roots that have none. -/
theorem Graph.draw_eq_drawn (graph : Graph) (r : Registry) (charset : Charset)
    (children : Handle → List Handle) (roots : List Handle) :
    graph.draw r charset children roots =
      Walk.drawn graph charset.glyphs r children (roots.map fun root => ⟨root, 0, "", ""⟩) [] := by
  have hroots : (roots.map fun root => (root, [])).map (Walk.carry charset.glyphs) =
      roots.map fun root => ⟨root, 0, "", ""⟩ := by
    rw [List.map_map]
    rfl
  rw [← hroots, Walk.drawn_carry (Walk.apart_glyphs charset)]
  rfl

end TraitTrace
