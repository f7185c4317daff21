import TraitTrace.Proofs.TypeExpr.Stripped
import TraitTrace.Proofs.TypeExpr.Weight

/-! Printed types read again and again. A type gives its head and the texts of its arguments, each
of these gives its own, and so the whole nesting comes back. Reading does not tell whether paths are
dropped before it or after it: the arguments are the same types without their paths. -/

namespace TraitTrace.TypeExpr

open Text

theorem bracedLength?_append {s : List Char} {n : Nat} (h : bracedLength? s = some n)
    (t : List Char) : bracedLength? (s ++ t) = some n := by
  unfold bracedLength? at h
  split at h
  · rename_i c rest hdrop
    have hs := List.takeWhile_append_dropWhile (p := (· != '}')) (l := s)
    have hlength := congrArg List.length hs
    rw [hdrop, List.length_append, List.length_cons] at hlength
    have htake : (s ++ t).takeWhile (· != '}') = s.takeWhile (· != '}') := by
      rw [List.takeWhile_append, if_neg (by omega)]
    have hdrop' : (s ++ t).dropWhile (· != '}') = c :: '\'' :: (rest ++ t) := by
      rw [List.dropWhile_append, hdrop]
      rfl
    rw [bracedLength?, hdrop', htake]
    exact h
  · cases h

theorem literalLength?_append {s : List Char} {n : Nat} (h : literalLength? s = some n)
    (t : List Char) : literalLength? (s ++ t) = some n := by
  unfold literalLength? at h
  split at h
  · split at h
    · exact bracedLength?_append h t
    · exact h
    · cases h
    · rename_i hbraced _ hhex
      simp only [List.cons_append, literalLength?]
      split
      · rename_i heq
        exact absurd (List.cons.inj heq).1 hbraced
      · rename_i heq
        exact absurd (List.cons.inj heq).1 hhex
      · rename_i heq
        exact absurd (List.cons.inj heq).1 hhex
      · exact h
      · rename_i hother
        exact absurd rfl (hother _ _)
    · cases h
  · rename_i s hback
    simpa [literalLength?, hback] using h
  · cases h

/-- What is taken for a literal on its own is taken for one whatever follows it. -/
theorem literal_iff {s : List Char} : Literal s ↔ literalLength? s = some s.length := by
  constructor
  · exact Literal.literalLength?_eq
  · intro h
    refine ⟨?_, literalLength?_append h⟩
    rintro rfl
    cases h

/-- The head of a type, and the same of its arguments. -/
inductive Outline where
  | node (head : String) (args : List Outline)

/-- Reads a text, and then every argument in it. -/
def outline (text : String) : Outline :=
  .node (parseGeneric text).head ((parseGeneric text).args.attach.map fun arg => outline arg.1)
termination_by weight text.toList
decreasing_by exact weight_lt_of_mem_generic (mem_args_iff.1 arg.2)

theorem outline_eq (text : String) :
    outline text = .node (parseGeneric text).head ((parseGeneric text).args.map outline) := by
  rw [outline, List.attach_map_val]

mutual

/-- The nesting of heads and arguments; a group is read as a whole. -/
def Tree.outline : Tree → Outline
  | .leaf head => .node (String.ofList head.text) []
  | .applied head args => .node (String.ofList head.text) args.outlines
  | .lifetime name => .node (Tree.lifetime name).text []
  | .literal chars isLiteral => .node (Tree.literal chars isLiteral).text []
  | .group bracket items => .node (Tree.group bracket items).text []

def Trees.outlines : Trees → List Outline
  | .nil => []
  | .last t => [t.outline]
  | .more t _ rest => t.outline :: rest.outlines

end

mutual

theorem Tree.outline_text : ∀ t : Tree, TypeExpr.outline t.text = t.outline
  | .leaf head => by
    rw [outline_eq, Tree.parseGeneric_text]
    rfl
  | .applied head args => by
    rw [outline_eq, Tree.parseGeneric_text, Tree.outline, ← args.map_outline_text]
    rfl
  | .lifetime name => by
    rw [outline_eq, Tree.parseGeneric_text]
    rfl
  | .literal chars isLiteral => by
    rw [outline_eq, Tree.parseGeneric_text]
    rfl
  | .group bracket items => by
    rw [outline_eq, Tree.parseGeneric_text]
    rfl

theorem Trees.map_outline_text : ∀ ts : Trees,
    (ts.toList.map Tree.text).map TypeExpr.outline = ts.outlines
  | .nil => rfl
  | .last t => by
    rw [Trees.toList, List.map_singleton, List.map_singleton, t.outline_text, Trees.outlines]
  | .more t gap rest => by
    rw [Trees.toList, List.map_cons, List.map_cons, t.outline_text, rest.map_outline_text,
      Trees.outlines]

end

def Trees.text (ts : Trees) : String := String.ofList ts.print

/-- A type is read back as its head and its arguments, and reading them in turn gives the whole
nesting. The items of a group are read back from what stands between its brackets, and a bound as
its two types. -/
theorem recovered_text :
    (∀ t : Tree, parseGeneric t.text = ⟨String.ofList t.headText, t.args.map Tree.text⟩ ∧
      outline t.text = t.outline) ∧
    (∀ items : Trees, splitTopLevel (· == ',') items.text = items.toList.map Tree.text) ∧
    ∀ t bound : Tree, splitBound (t.text ++ ": " ++ bound.text) = some (t.text, bound.text) := by
  refine ⟨fun t => ⟨t.parseGeneric_text, t.outline_text⟩, fun items => ?_, fun t bound => ?_⟩
  · rw [splitTopLevel, Trees.text, String.toList_ofList, items.parts_print, List.map_map]
    rfl
  · have htext : (t.text ++ ": " ++ bound.text).toList = t.print ++ ':' :: ' ' :: bound.print := by
      simp [Tree.toList_text]
    rw [splitBound, htext, t.bound?_print]
    rfl

section Bare

variable {q : List Char → Prop}

/-- Every path of ASCII identifiers is dropped. -/
theorem Head.plain_of_isAscii {h : Head} (hpath : ∀ n ∈ h.path, n.IsAscii)
    (hname : h.name.IsAscii) : h.Plain := by
  refine ⟨hpath, fun _ => ?_⟩
  obtain ⟨hfirst, -⟩ := hname
  cases hchars : h.name.chars with
  | nil => exact absurd hchars h.name.ne_nil
  | cons c cs =>
    rw [hchars] at hfirst
    have hstart : isNameStart c = true := hfirst
    simp [leadsTo, hstart]

theorem Head.plain_bare (h : Head) : h.bare.Plain := ⟨nofun, fun hpath => absurd rfl hpath⟩

mutual

theorem Tree.forall_bare : ∀ t : Tree, t.Forall Head.Plain q → t.bare.Forall Head.Plain q
  | .leaf head, _ => head.plain_bare
  | .applied head args, h => ⟨head.plain_bare, args.forall_bare h.2⟩
  | .lifetime _, _ => trivial
  | .literal _ _, h => h
  | .group _ items, h => items.forall_bare h

theorem Trees.forall_bare : ∀ ts : Trees, ts.Forall Head.Plain q → ts.bare.Forall Head.Plain q
  | .nil, _ => trivial
  | .last t, h => t.forall_bare h
  | .more t _ rest, h => ⟨t.forall_bare h.1, rest.forall_bare h.2⟩

end

mutual

theorem Tree.bare_bare : ∀ t : Tree, t.bare.bare = t.bare
  | .leaf _ => rfl
  | .applied head args => by
    rw [Tree.bare, Tree.bare, args.bare_bare]
    rfl
  | .lifetime _ => rfl
  | .literal _ _ => rfl
  | .group bracket items => by
    rw [Tree.bare, Tree.bare, items.bare_bare]

theorem Trees.bare_bare : ∀ ts : Trees, ts.bare.bare = ts.bare
  | .nil => rfl
  | .last t => by rw [Trees.bare, Trees.bare, t.bare_bare]
  | .more t gap rest => by rw [Trees.bare, Trees.bare, t.bare_bare, rest.bare_bare]

end

theorem Trees.forall_toList : ∀ {ts : Trees} {p : Head → Prop}, ts.Forall p q →
    ∀ t ∈ ts.toList, t.Forall p q
  | .nil, _, _, t, ht => absurd ht List.not_mem_nil
  | .last u, _, h, t, ht => by
    rw [List.mem_singleton.1 ht]
    exact h
  | .more u _ rest, _, h, t, ht => by
    rcases List.mem_cons.1 ht with rfl | ht
    · exact h.1
    · exact Trees.forall_toList h.2 t ht

namespace Tree

variable {t : Tree}

theorem forall_args {p : Head → Prop} (h : t.Forall p q) : ∀ arg ∈ t.args, arg.Forall p q := by
  cases t with
  | applied head args => exact Trees.forall_toList h.2
  | leaf _ | lifetime _ | literal _ _ | group _ _ =>
    intro arg harg
    exact absurd harg List.not_mem_nil

theorem args_bare (t : Tree) : t.bare.args = t.args.map bare := by
  cases t with
  | applied head args => exact args.toList_bare
  | leaf _ | lifetime _ | literal _ _ | group _ _ => rfl

/-- A type without its arguments. -/
def unapplied : Tree → Tree
  | applied head _ => leaf head
  | t => t

theorem text_unapplied (t : Tree) : t.unapplied.text = String.ofList t.headText := by
  cases t <;> rfl

theorem unapplied_bare (t : Tree) : t.bare.unapplied = t.unapplied.bare := by
  cases t <;> rfl

theorem forall_unapplied {p : Head → Prop} (h : t.Forall p q) : t.unapplied.Forall p q := by
  cases t with
  | applied head args => exact h.1
  | leaf _ | lifetime _ | literal _ _ | group _ _ => exact h

/-- The paths of a head are dropped on its own as they are in the type. -/
theorem stripPaths_headText (h : t.Forall Head.Plain q) :
    stripPaths (String.ofList t.headText) = String.ofList t.bare.headText := by
  rw [← text_unapplied, ← text_unapplied, unapplied_bare]
  exact stripPaths_text (forall_unapplied h)

end Tree

end Bare

/-- Dropping the paths of a type cuts every head to the name that its path leads to and leaves the
rest. Doing so again changes nothing, and the type is then read as its head and its arguments, each
without paths. -/
theorem stripped_text {t : Tree} (h : t.Forall Head.Plain fun _ => True) :
    stripPaths t.text = t.bare.text ∧
    stripPaths (stripPaths t.text) = stripPaths t.text ∧
    parseGeneric (stripPaths t.text) =
      ⟨stripPaths (parseGeneric t.text).head, (parseGeneric t.text).args.map stripPaths⟩ := by
  have hbare := Tree.stripPaths_text h
  refine ⟨hbare, ?_, ?_⟩
  · rw [hbare, Tree.stripPaths_text (t.forall_bare h), t.bare_bare]
  · have hargs : t.bare.args.map Tree.text = (t.args.map Tree.text).map stripPaths := by
      rw [t.args_bare, List.map_map, List.map_map]
      refine List.map_congr_left fun arg harg => ?_
      exact (Tree.stripPaths_text (Tree.forall_args h arg harg)).symm
    rw [hbare, Tree.parseGeneric_text, Tree.parseGeneric_text, Tree.stripPaths_headText h, hargs]

/-- A cell that holds a quote, a lifetime, a slice of another cell, and a colon. -/
def cellTree : Tree :=
  let modules : List Name := [⟨"shapes".toList, by decide, by decide⟩]
  let line : Gap := ⟨['\n'], by decide⟩
  .applied ⟨modules, ⟨"Cell".toList, by decide, by decide⟩⟩
    (.more (.literal "'\\''".toList (literal_iff.2 (by decide))) line
      (.more (.lifetime ⟨"a".toList, by decide, by decide⟩) line
        (.more (.group .square (.last (.applied ⟨modules, ⟨"Cell".toList, by decide, by decide⟩⟩
          (.last (.leaf ⟨[], ⟨"42".toList, by decide, by decide⟩⟩))))) line
          (.last (.literal "':'".toList (literal_iff.2 (by decide)))))))

theorem stripped_text_cell : cellTree.Forall Head.Plain (fun _ => True) ∧
    cellTree.text = "shapes::Cell<'\\'',\n'a,\n[shapes::Cell<42>],\n':'>" ∧
    stripPaths cellTree.text = "Cell<'\\'',\n'a,\n[Cell<42>],\n':'>" ∧
    parseGeneric (stripPaths cellTree.text) = ⟨"Cell", ["'\\''", "'a", "[Cell<42>]", "':'"]⟩ := by
  have hcell : Head.Plain ⟨[⟨"shapes".toList, by decide, by decide⟩],
      ⟨"Cell".toList, by decide, by decide⟩⟩ := Head.plain_of_isAscii (by decide) (by decide)
  have hnumber : Head.Plain ⟨[], ⟨"42".toList, by decide, by decide⟩⟩ := Head.plain_bare ⟨[], _⟩
  have hplain : cellTree.Forall Head.Plain fun _ => True :=
    ⟨hcell, trivial, trivial, ⟨hcell, hnumber⟩, trivial⟩
  obtain ⟨hbare, -, hparts⟩ := stripped_text hplain
  have hprint : cellTree.text = "shapes::Cell<'\\'',\n'a,\n[shapes::Cell<42>],\n':'>" := by
    decide +kernel
  exact ⟨hplain, hprint, hbare.trans (by decide +kernel), hparts.trans (by decide +kernel)⟩

end TraitTrace.TypeExpr
