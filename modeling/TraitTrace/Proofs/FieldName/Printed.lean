import Mathlib.Data.List.TakeWhile
import TraitTrace.FieldName
import TraitTrace.Proofs.Decimal.Digits
import TraitTrace.Proofs.TypeExpr.Literals

/-! Field names read back from their print. A name is printed with the number of its places and a
list with one node for each, which the compiler may cut short: then the places of the nodes left out
are hidden, whatever brackets are still printed behind the cut. -/

namespace TraitTrace.FieldName

open TypeExpr

/-- The types of the nodes. -/
inductive NodeName where
  | chars
  | char
  | iota
  deriving DecidableEq, Repr

def NodeName.text : NodeName → List Char
  | chars => "Chars".toList
  | char => "Char".toList
  | iota => "ι".toList

/-- What may be printed for a slot. -/
inductive Shows : Option Char → List Char → Prop
  | hidden : Shows none ['_']
  | visible {c : Char} {s : List Char} : Writes c s → Shows (some c) (inQuotes s)

/-- A node as printed, with the slot that it stands for. -/
structure Node where
  name : NodeName
  argument : List Char
  slot : Option Char
  shows : Shows slot argument

def slotTexts (nodes : List Node) : List (Option String) :=
  nodes.map fun n => n.slot.map Char.toString

/-- The print of a list up to its end, without the brackets that close it. -/
def opened (tail : List Char) : List Node → List Char
  | [] => tail
  | n :: nodes => n.name.text ++ '<' :: (n.argument ++ ',' :: ' ' :: opened tail nodes)

def printed (length : Nat) (nodes : List Node) (tail : String) (closers : Nat) : String :=
  s!"Symbol<{length}, " ++ String.ofList (opened tail.toList nodes) ++
    String.ofList (List.replicate closers '>')

/-- Every choice of slots and of node names can be printed. -/
theorem exists_nodes (slots : List (NodeName × Option Char)) :
    ∃ nodes : List Node, nodes.map (fun n => (n.name, n.slot)) = slots := by
  induction slots with
  | nil => exact ⟨[], rfl⟩
  | cons p slots ih =>
    obtain ⟨name, slot⟩ := p
    obtain ⟨nodes, rfl⟩ := ih
    cases slot with
    | none => exact ⟨⟨name, _, none, .hidden⟩ :: nodes, rfl⟩
    | some c =>
      obtain ⟨s, hs⟩ := exists_writes c
      exact ⟨⟨name, _, some c, .visible hs⟩ :: nodes, rfl⟩

theorem digitChar_decimal : ∀ v < 10, (Text.isDigit v.digitChar = true ∧
    Text.decimalValue? v.digitChar = some v) ∧ isWordChar v.digitChar = true := by
  decide +kernel

section Length

variable {n : Nat} {c : Char}

theorem word_toDigits (n : Nat) : Word (Nat.toDigits 10 n) where
  ne_nil := Nat.toDigits_ne_nil
  all_chars := by
    rw [List.all_eq_true]
    intro c hc
    obtain ⟨v, hv, rfl⟩ := Decimal.mem_toDigits hc
    exact (digitChar_decimal v hv).2

theorem decimalValue?_of_mem (h : c ∈ Nat.toDigits 10 n) :
    Text.decimalValue? c = some (c.toNat - 48) := by
  obtain ⟨v, hv, rfl⟩ := Decimal.mem_toDigits h
  rw [(digitChar_decimal v hv).1.2, Nat.toNat_digitChar_sub_48_of_lt_ten hv]

theorem declared_toDigits (h : (Nat.toDigits 10 n).length ≤ Decimal.maxDigits) :
    declared (Nat.toDigits 10 n) = .ok (some n) := by
  have hd : (Nat.toDigits 10 n).all Text.isDigit = true := by
    rw [List.all_eq_true]
    intro c hc
    obtain ⟨v, hv, rfl⟩ := Decimal.mem_toDigits hc
    exact (digitChar_decimal v hv).1.1
  have hm : (Nat.toDigits 10 n).map Text.decimalValue? =
      (Nat.toDigits 10 n).map fun c => some (c.toNat - 48) :=
    List.map_congr_left fun c hc => decimalValue?_of_mem hc
  have hrun : ((Nat.toDigits 10 n).map fun c => some (c.toNat - 48)).takeWhile Option.isSome =
      (Nat.toDigits 10 n).map fun c => some (c.toNat - 48) :=
    List.takeWhile_eq_self_iff.2 fun o ho => by
      obtain ⟨c, -, rfl⟩ := List.mem_map.1 ho
      rfl
  rw [declared, if_pos ⟨Nat.toDigits_ne_nil, hd⟩]
  simp only [hm, hrun, List.length_map]
  rw [if_neg (by omega), if_pos trivial, List.filterMap_map]
  simp [Decimal.nat_toDigits]

end Length

theorem NodeName.word (name : NodeName) : Word name.text := by
  cases name <;> exact ⟨by decide, by decide⟩

theorem NodeName.text_mem (name : NodeName) : name.text ∈ nodeTypes := by
  cases name <;> decide

/-- A text that starts with the name of a node does not end the list. -/
theorem NodeName.goes_on (name : NodeName) (s : List Char) :
    ¬(name.text ++ s = [] ∨ name.text ++ s = endType ∨
      ['.', '.', '.'].isPrefixOf (name.text ++ s)) := by
  have hhead : ∃ c t, name.text = c :: t ∧ c ≠ 'N' ∧ c ≠ '.' := by
    cases name <;> exact ⟨_, _, rfl, by decide, by decide⟩
  obtain ⟨c, t, ht, hN, hdot⟩ := hhead
  have hend : endType = ['N', 'i', 'l'] := rfl
  rw [ht, hend]
  simp [hN, Ne.symm hdot]

theorem Shows.argument {slot : Option Char} {s : List Char} (h : Shows slot s) : Argument s := by
  cases h with
  | hidden => exact Word.argument ⟨by decide, by decide⟩
  | visible hs => exact hs.literal.argument (strip_inQuotes _)

/-- What has a value is taken whole, so that a node shows just that value. -/
theorem point_eq (s : List Char) : point s = literalPoint (Text.strip s) := by
  unfold point
  dsimp only
  split
  · rfl
  · rename_i hpart
    by_contra hvalue
    obtain ⟨n, body, hbody, hn⟩ := spells_of_literalPoint (Ne.symm hvalue)
    exact hpart (hbody ▸ hn.literal.literalLength?_eq)

theorem Shows.point_eq {slot : Option Char} {s : List Char} (h : Shows slot s) :
    point s = .ok (slot.map Char.toNat) := by
  rw [FieldName.point_eq, h.argument.strip_eq]
  cases h with
  | hidden => rfl
  | visible hs => exact hs.literalPoint_eq

@[simp]
theorem slotText_toNat (slot : Option Char) :
    slotText (slot.map Char.toNat) = slot.map Char.toString := by
  cases slot with
  | none => rfl
  | some c => rw [Option.map_some, slotText, Option.bind_some, Text.charOf?_toNat]

section Opened

variable {tail : List Char}

theorem whole_opened (ht : Word tail) (nodes : List Node) : Whole (opened tail nodes) := by
  induction nodes with
  | nil => exact ht.whole
  | cons n nodes ih =>
    have hp := whole_pair n.shows.argument ih
    exact n.name.word.whole.append (hp.cons (by decide))

theorem climb_opened (ht : Word tail) (nodes : List Node) :
    climb 0 (pieces (opened tail nodes)) = some nodes.length := by
  induction nodes with
  | nil => exact ht.argument.climb_eq
  | cons n nodes ih =>
    have hp := climb_pair n.shows.argument (opened tail nodes)
    exact climb_open n.name.word (hp.trans ih)

theorem endsOpen_opened (ht : Word tail) (nodes : List Node) : EndsOpen (opened tail nodes) := by
  induction nodes with
  | nil => exact ht.endsOpen
  | cons n nodes ih => exact ((((ih.cons _).cons _).append _).cons _).append _

theorem lastArgument_opened (ht : Word tail) (nodes : List Node) {closers : Nat}
    (hc : closers ≤ nodes.length) :
    LastArgument (opened tail nodes ++ List.replicate closers '>') := by
  cases nodes with
  | nil =>
    obtain rfl : closers = 0 := by simpa using hc
    simpa [opened] using ht.lastArgument
  | cons n nodes =>
    have hp := climb_pair n.shows.argument (opened tail nodes)
    have hl := lastArgument_closers n.name.word
      (whole_pair n.shows.argument (whole_opened ht nodes)) (hp.trans (climb_opened ht nodes))
      (((endsOpen_opened ht nodes).cons _).cons _ |>.append _) closers
    simpa [opened] using hl

/-- What a head gives whose first argument stands before a list of nodes. -/
theorem generic_pair (ht : Word tail) {head s : List Char} (hh : Word head) (hs : Argument s)
    (nodes : List Node) (closers : Nat) :
    ∃ kept ≤ nodes.length,
      generic (head ++ '<' :: (s ++ ',' :: ' ' :: opened tail nodes) ++
        List.replicate closers '>') =
      (head, [s, opened tail nodes ++ List.replicate kept '>']) := by
  have hg := generic_closers hh (whole_pair hs (whole_opened ht nodes))
    ((climb_pair hs _).trans (climb_opened ht nodes))
    (((endsOpen_opened ht nodes).cons _).cons _ |>.append _) closers
  have hkept : (if nodes.length < closers then nodes.length else 0) ≤ nodes.length := by
    split <;> omega
  refine ⟨_, hkept, ?_⟩
  have hp := parts_pair hs (lastArgument_opened ht nodes hkept)
  rw [List.append_assoc, List.cons_append, hg, List.append_assoc, List.cons_append,
    List.cons_append, hp]

end Opened

theorem nodePoints_eq_nil {s : List Char} (h : (generic s).2 = []) : nodePoints s = .ok [] := by
  rw [nodePoints]
  split
  · rename_i heq
    simp [heq] at h
  · rfl

theorem nodePoints_of_not_node {s head : List Char} {args : List (List Char)}
    (h : generic s = (head, args)) (hhead : head ∉ nodeTypes) : nodePoints s = .ok [] := by
  rw [nodePoints]
  split
  · rename_i heq
    rw [h] at heq
    obtain ⟨rfl, -⟩ := Prod.mk.inj heq
    rw [if_neg hhead]
  · rfl

/-- What a node gives: what its first argument shows, before what its second gives. -/
theorem nodePoints_node {s head a : List Char} {more : List (List Char)}
    (h : generic s = (head, a :: more)) (hh : head ∈ nodeTypes) :
    nodePoints s = point a >>= fun p =>
      match more with
      | [] => .ok [p]
      | rest :: _ =>
        if rest = [] ∨ rest = endType ∨ ['.', '.', '.'].isPrefixOf rest then .ok [p]
        else (nodePoints rest).map (p :: ·) := by
  rw [nodePoints]
  split
  · rename_i head' first more' heq
    rw [h] at heq
    obtain ⟨rfl, rfl, rfl⟩ : head = head' ∧ a = first ∧ more = more' := by simpa using heq
    rw [if_pos hh]
    cases point a <;> cases more <;> rfl
  · rename_i heq
    simp [h] at heq

theorem nodePoints_pair {s head a rest : List Char} {p : Option Nat}
    (h : generic s = (head, [a, rest])) (hh : head ∈ nodeTypes) (ha : point a = .ok p) :
    nodePoints s =
      if rest = [] ∨ rest = endType ∨ ['.', '.', '.'].isPrefixOf rest then .ok [p]
      else (nodePoints rest).map (p :: ·) := by
  rw [nodePoints_node h hh, ha]
  rfl

/-- What a printed list may end in. -/
def IsTail (tail : String) : Prop := tail = "Nil" ∨ tail = "..."

theorem IsTail.word {tail : String} (h : IsTail tail) : Word tail.toList := by
  rcases h with rfl | rfl <;> exact ⟨by decide, by decide⟩

/-- The code points of the nodes. -/
def slotPoints (nodes : List Node) : List (Option Nat) := nodes.map fun n => n.slot.map Char.toNat

theorem map_slotPoints (nodes : List Node) :
    (slotPoints nodes).map slotText = slotTexts nodes := by
  rw [slotPoints, List.map_map]
  exact List.map_congr_left fun n _ => slotText_toNat n.slot

theorem nodePoints_opened {tail : String} (ht : IsTail tail) (nodes : List Node) {closers : Nat}
    (hc : closers ≤ nodes.length) :
    nodePoints (opened tail.toList nodes ++ List.replicate closers '>') =
      .ok (slotPoints nodes) := by
  induction nodes generalizing closers with
  | nil =>
    obtain rfl : closers = 0 := by simpa using hc
    refine nodePoints_eq_nil ?_
    simp [opened, ht.word.generic]
  | cons n nodes ih =>
    obtain ⟨kept, hk, hg⟩ := generic_pair ht.word n.name.word n.shows.argument nodes closers
    rw [opened, nodePoints_pair hg n.name.text_mem n.shows.point_eq]
    cases nodes with
    | nil =>
      obtain rfl : kept = 0 := by simpa using hk
      have hstop : opened tail.toList [] ++ List.replicate 0 '>' = endType ∨
          ['.', '.', '.'].isPrefixOf (opened tail.toList [] ++ List.replicate 0 '>') := by
        rcases ht with rfl | rfl <;> decide
      rw [if_pos (.inr hstop)]
      rfl
    | cons m nodes =>
      have hgo : ¬(opened tail.toList (m :: nodes) ++ List.replicate kept '>' = [] ∨
          opened tail.toList (m :: nodes) ++ List.replicate kept '>' = endType ∨
          ['.', '.', '.'].isPrefixOf
            (opened tail.toList (m :: nodes) ++ List.replicate kept '>')) := by
        rw [opened, List.append_assoc]
        exact m.name.goes_on _
      rw [if_neg hgo, ih hk]
      rfl

theorem toList_printed (length : Nat) (nodes : List Node) (tail : String) (closers : Nat) :
    (printed length nodes tail closers).toList =
      symbolType ++ '<' :: (Nat.toDigits 10 length ++ ',' :: ' ' :: opened tail.toList nodes) ++
        List.replicate closers '>' := by
  have hlength : (toString length).toList = Nat.toDigits 10 length := Nat.toList_repr
  simp only [printed, String.toList_append, String.toList_ofList, hlength]
  simp only [List.append_assoc, List.cons_append]
  rfl

theorem points_printed {tail : String} (ht : IsTail tail) {length : Nat}
    (hl : (Nat.toDigits 10 length).length ≤ Decimal.maxDigits) (nodes : List Node)
    (closers : Nat) :
    points (printed length nodes tail closers) = padded (some length) (slotPoints nodes) := by
  have hw : Word symbolType := ⟨by decide, by decide⟩
  obtain ⟨kept, hk, hg⟩ := generic_pair ht.word hw (word_toDigits length).argument nodes closers
  rw [points, toList_printed, hg]
  simp only
  rw [if_pos trivial]
  simp only [List.getElem?_cons_succ, List.getElem?_cons_zero, Option.getD_some]
  rw [declared_toDigits hl, (lastArgument_opened ht.word nodes hk).strip_eq,
    nodePoints_opened ht nodes hk]
  rfl

theorem padded_eq_ok {length : Nat} (h : length ≤ maxSlots) (points : List (Option Nat)) :
    padded (some length) points =
      .ok (points ++ List.replicate (length - points.length) none) := by
  have hindex : ¬maxIndex < length - points.length := by
    have hle : maxSlots ≤ maxIndex := by decide
    omega
  rw [padded]
  simp only [Option.getD_some]
  rw [if_neg hindex, if_neg (by omega)]

theorem decode_printed_eq {tail : String} (ht : IsTail tail) {length : Nat} (h : length ≤ maxSlots)
    (nodes : List Node) (closers : Nat) :
    decode (printed length nodes tail closers) =
      .ok ⟨slotTexts nodes ++ List.replicate (length - nodes.length) none⟩ := by
  have hd : (Nat.toDigits 10 length).length ≤ Decimal.maxDigits := by
    have h19 : (Nat.toDigits 10 length).length ≤ 19 := by
      rw [Nat.length_toDigits_le_iff (by decide) (by decide)]
      exact Nat.lt_of_le_of_lt h (by decide)
    exact Nat.le_trans h19 (by decide)
  have hlength : (slotPoints nodes).length = nodes.length := List.length_map _
  rw [decode, points_printed ht hd, padded_eq_ok h, hlength, Except.map, List.map_append,
    map_slotPoints, List.map_replicate]
  rfl

/-- Of a name with no more places than a list has, a list of nodes printed to its end gives all
slots, and one cut after `k` nodes gives the slots of these and hides the other places, however many
brackets are printed behind the cut. -/
theorem decode_printed (nodes : List Node) (h : nodes.length ≤ maxSlots) :
    decode (printed nodes.length nodes "Nil" (nodes.length + 1)) = .ok ⟨slotTexts nodes⟩ ∧
    ∀ k ≤ nodes.length, ∀ closers,
      decode (printed nodes.length (nodes.take k) "..." closers) =
        .ok ⟨(slotTexts nodes).take k ++ List.replicate (nodes.length - k) none⟩ := by
  constructor
  · rw [decode_printed_eq (.inl rfl) h]
    simp
  · intro k hk closers
    rw [decode_printed_eq (.inr rfl) h]
    simp [slotTexts, Nat.min_eq_left hk]

theorem hexDigits_smiley :
    List.Forall₂ Decimal.HexDigit ['1', 'F', '6', '0', '0'] [1, 15, 6, 0, 0] := by
  simp only [List.forall₂_cons, List.forall₂_nil_left_iff, Decimal.HexDigit]
  decide

def mixedNodes : List Node :=
  [⟨.chars, _, some '>', .visible (.raw (by decide) (by decide))⟩,
    ⟨.iota, _, none, .hidden⟩,
    ⟨.char, _, some '😀', .visible (.code (by decide) hexDigits_smiley (by decide))⟩]

theorem decode_printed_mixed : mixedNodes.length ≤ maxSlots ∧
    decode "Symbol<3, Chars<'>', ι<_, Char<'\\u\x7b1F600\x7d', Nil>>>>" =
      .ok ⟨[some ">", none, some "😀"]⟩ ∧
    decode "Symbol<3, Chars<'>', ...>" = .ok ⟨[some ">", none, none]⟩ := by
  have h : mixedNodes.length ≤ maxSlots := by decide
  obtain ⟨hwhole, hcut⟩ := decode_printed mixedNodes h
  exact ⟨h, hwhole, hcut 1 (by decide) 1⟩

end TraitTrace.FieldName
