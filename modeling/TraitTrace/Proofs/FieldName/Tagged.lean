import TraitTrace.Proofs.FieldName.Printed
import TraitTrace.Proofs.TypeExpr.Spaced

/-! Field names in types. A tag is a type like any other: the names in it may have modules before
them, and once these are dropped the tag is the print of its field name. -/

namespace TraitTrace.FieldName

open TypeExpr

theorem isNamePart_toDigits (n : Nat) : (Nat.toDigits 10 n).all isNamePart = true := by
  have hdigit : ∀ v < 10, isNamePart v.digitChar = true := by decide +kernel
  rw [List.all_eq_true]
  intro c hc
  obtain ⟨v, hv, rfl⟩ := Decimal.mem_toDigits hc
  exact hdigit v hv

def numeral (n : Nat) : Name := ⟨Nat.toDigits 10 n, Nat.toDigits_ne_nil, isNamePart_toDigits n⟩

def symbolName : Name := ⟨symbolType, by decide, by decide⟩

def endName : Name := ⟨endType, by decide, by decide⟩

def hiddenName : Name := ⟨['_'], by decide, by decide⟩

/-- The name of a node. It stands without modules if it is not an ASCII letter. -/
def NodeName.head (modules : List Name) (name : NodeName) : Head where
  path := if name = .iota then [] else modules
  name := ⟨name.text, name.word.ne_nil, by cases name <;> decide⟩

def space : Gap := ⟨[' '], by decide⟩

theorem Shows.isWritten {c : Char} {s : List Char} (h : Shows (some c) s) : IsWritten s := by
  cases h with
  | visible hs => exact ⟨c, _, hs, rfl⟩

def Node.slotTree : Node → Tree
  | ⟨_, _, none, _⟩ => .leaf ⟨[], hiddenName⟩
  | ⟨_, s, some _, h⟩ => .literal s h.isWritten.literal

/-- A list of nodes whose names have modules before them. -/
def listTree (modules : List Name) : List Node → Tree
  | [] => .leaf ⟨modules, endName⟩
  | n :: nodes => .applied (n.name.head modules)
      (.more n.slotTree space (.last (listTree modules nodes)))

def tagTree (modules : List Name) (nodes : List Node) : Tree :=
  .applied ⟨modules, symbolName⟩
    (.more (.leaf ⟨[], numeral nodes.length⟩) space (.last (listTree modules nodes)))

section Tags

variable {modules : List Name}

theorem Node.print_slotTree (n : Node) : n.slotTree.bare.print = n.argument := by
  obtain ⟨name, s, slot, h⟩ := n
  cases slot with
  | none =>
    cases h
    rfl
  | some c => rfl

theorem print_bare_listTree (modules : List Name) (nodes : List Node) :
    (listTree modules nodes).bare.print =
      opened "Nil".toList nodes ++ List.replicate nodes.length '>' := by
  induction nodes with
  | nil => rfl
  | cons n nodes ih =>
    have hhead : (n.name.head modules).bare.text = n.name.text := rfl
    rw [listTree, Tree.bare, Tree.print, hhead, Trees.bare, Trees.print, n.print_slotTree,
      Trees.bare, Trees.print, ih, opened, List.length_cons, List.replicate_succ']
    simp [space]

/-- A tag without its modules is the print of the field name. -/
theorem text_bare_tagTree (modules : List Name) (nodes : List Node) :
    (tagTree modules nodes).bare.text = printed nodes.length nodes "Nil" (nodes.length + 1) := by
  have hprint : (tagTree modules nodes).bare.print =
      symbolType ++ '<' :: (Nat.toDigits 10 nodes.length ++ ',' :: ' ' ::
        ((listTree modules nodes).bare.print ++ ['>'])) := by
    simp [tagTree, Tree.bare, Trees.bare, Tree.print, Trees.print, Head.bare_text, symbolName,
      numeral, space]
  rw [Tree.text, hprint, print_bare_listTree, List.append_assoc, ← List.replicate_succ',
    ← String.toList_inj, toList_printed, String.toList_ofList]
  simp

theorem NodeName.plain_head (hmodules : ∀ n ∈ modules, n.IsAscii) (name : NodeName) :
    (name.head modules).Plain := by
  cases name with
  | chars => exact ⟨hmodules, fun _ => rfl⟩
  | char => exact ⟨hmodules, fun _ => rfl⟩
  | iota => exact ⟨nofun, fun h => absurd rfl h⟩

theorem Node.forall_slotTree (n : Node) : n.slotTree.Forall Head.Plain IsWritten := by
  obtain ⟨name, s, slot, h⟩ := n
  cases slot with
  | none => exact ⟨nofun, fun h => absurd rfl h⟩
  | some c => exact h.isWritten

theorem forall_listTree (hmodules : ∀ n ∈ modules, n.IsAscii) (nodes : List Node) :
    (listTree modules nodes).Forall Head.Plain IsWritten := by
  induction nodes with
  | nil => exact ⟨hmodules, fun _ => rfl⟩
  | cons n nodes ih => exact ⟨n.name.plain_head hmodules, n.forall_slotTree, ih⟩

theorem forall_tagTree (hmodules : ∀ n ∈ modules, n.IsAscii) (nodes : List Node) :
    (tagTree modules nodes).Forall Head.Plain IsWritten :=
  ⟨⟨hmodules, fun _ => rfl⟩, ⟨nofun, fun h => absurd rfl h⟩, forall_listTree hmodules nodes⟩

/-- A tag with modules gives its field name once they are dropped. -/
theorem decode_stripPaths_tagTree (hmodules : ∀ n ∈ modules, n.IsAscii) {nodes : List Node}
    (h : nodes.length ≤ maxSlots) :
    decode (stripPaths (tagTree modules nodes).text) = .ok ⟨slotTexts nodes⟩ := by
  rw [Tree.stripPaths_text (forall_tagTree hmodules nodes), text_bare_tagTree,
    (decode_printed nodes h).1]

end Tags

end TraitTrace.FieldName
