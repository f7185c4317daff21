import TraitTrace.Yaml.Document
import TraitTrace.Yaml.Scalar

/-! What a document says: the data of its nodes. Collections are gone through from the outside in,
level by level, and the first thing wrong counts. In a mapping, entries of other mappings can be
merged; those of its own count over them. -/

namespace TraitTrace.Yaml

/-- The value of a node: an atom, or what a collection holds, by the numbers of its nodes. A
collection that has been met but not gone through is open. -/
inductive Made where
  | atom (a : Atom)
  | opened
  | list (items : List Nat)
  | pairs (items : List (Nat × Nat))
  | set (members : List Atom)
  | map (entries : List (Atom × Nat))

/-- How far the nodes of a document have been gone through. Open collections stand newest first. -/
structure Making where
  nodes : Array Node
  made : Array (Option Made)
  opened : List Nat := []

abbrev Maker (α : Type) := StateT Making (Except Flaw) α

namespace Maker

def nodeAt (number : Nat) : Maker Node := do
  match (← get).nodes[number]? with
  | some n => return n
  | none => throw .malformed

def note (number : Nat) (m : Made) : Maker Unit :=
  modify fun s => { s with made := s.made.setIfInBounds number (some m) }

def entriesAt (number : Nat) : Maker (List (Nat × Nat)) := do
  match (← nodeAt number).content with
  | .mapping entries => return entries
  | _ => throw .malformed

def writeEntries (number : Nat) (entries : List (Nat × Nat)) : Maker Unit :=
  modify fun s =>
    { s with nodes := s.nodes.modify number fun n => { n with content := .mapping entries } }

def spellKeys (entries : List (Nat × Nat)) : Maker Unit :=
  modify fun s => { s with
    nodes := entries.foldl (fun nodes (k, _) =>
      nodes.modify k fun n => if n.tag = .value then { n with tag := .str } else n) s.nodes }

def isMergeKey (nodes : Array Node) (number : Nat) : Bool :=
  nodes[number]?.any fun n => n.tag = .merge

mutual

/-- Puts the entries that are merged into a mapping before its own. Those of the merge keys so far
are given. -/
def flatten : Nat → List (Nat × Nat) → Nat → Maker (List (Nat × Nat))
  | 0, _, _ => throw .malformed
  | fuel + 1, merged, number => do
    let entries ← entriesAt number
    let nodes := (← get).nodes
    let before := entries.takeWhile fun (k, _) => !isMergeKey nodes k
    spellKeys before
    match entries.drop before.length with
    | [] =>
      writeEntries number (merged ++ entries)
      return merged ++ entries
    | (_, value) :: after =>
      writeEntries number (before ++ after)
      let more ← mergedEntries fuel value
      flatten fuel (merged ++ more) number

/-- The entries that the value of a merge key gives: those of a mapping, or of several, of which an
earlier one counts over a later one. -/
def mergedEntries : Nat → Nat → Maker (List (Nat × Nat))
  | 0, _ => throw .malformed
  | fuel + 1, number => do
    match (← nodeAt number).content with
    | .mapping _ => flatten fuel [] number
    | .sequence items => do
      let several ← items.mapM (flatten fuel [])
      return several.reverse.flatten
    | .scalar _ => throw .malformed

end

/-- A bound for the steps of merging: every step takes a merge key out of a mapping. -/
def mergeSteps (nodes : Array Node) : Nat :=
  nodes.foldl (fun n node =>
    match node.content with
    | .mapping entries => n + 2 * entries.length
    | _ => n) 3

def textOf : Nat → Nat → Maker String
  | 0, _ => throw .malformed
  | fuel + 1, number => do
    match (← nodeAt number).content with
    | .scalar text => return text
    | .sequence _ => throw .malformed
    | .mapping entries =>
      let nodes := (← get).nodes
      match entries.find? fun (k, _) => nodes[k]?.any fun n => n.tag = .value with
      | some (_, value) => textOf fuel value
      | none => throw .malformed

def isCollection (t : Tag) : Bool :=
  t = .seq || t = .map || t = .set || t = .omap || t = .pairs

/-- Makes the value of a node, unless it has been made. -/
def make (number : Nat) : Maker Made := do
  let s ← get
  match s.made[number]?.join with
  | some m => return m
  | none =>
    let n ← nodeAt number
    if isCollection n.tag then
      note number .opened
      modify fun s => { s with opened := number :: s.opened }
      return .opened
    else
      match n.tag with
      | .merge => throw .malformed
      | .value => throw .malformed
      | .unknown => throw .malformed
      | tag =>
        let text ← textOf (s.nodes.size + 1) number
        let a ←
          match tag, n.content with
          | .timestamp, .mapping _ => throw (.fault .momentless)
          | _, _ => liftM (scalarValue tag text)
        note number (.atom a)
        return .atom a

def makeKey (number : Nat) : Maker Atom := do
  match ← make number with
  | .atom a => return a
  | _ => throw .malformed

def makeEntries (number : Nat) : Maker (List (Atom × Nat)) := do
  let entries ← flatten (mergeSteps (← get).nodes) [] number
  entries.mapM fun (k, v) => do
    let a ← makeKey k
    discard (make v)
    return (a, v)

/-- Makes the pair that an item of pairs is: a mapping of one entry. -/
def makePair (number : Nat) : Maker (Nat × Nat) := do
  match (← nodeAt number).content with
  | .mapping [(k, v)] =>
    discard (make k)
    discard (make v)
    return (k, v)
  | _ => throw .malformed

def goThrough (number : Nat) : Maker Unit := do
  let n ← nodeAt number
  match n.tag, n.content with
  | .map, _ => note number (.map (← makeEntries number))
  | .set, _ =>
    let entries ← makeEntries number
    let members : Table Key Atom := entries.foldl (fun t e =>
      if Table.has t e.1.key then t else Table.set t e.1.key e.1) []
    note number (.set (members.map Prod.snd))
  | .seq, .sequence items =>
    items.forM fun i => discard (make i)
    note number (.list items)
  | _, .sequence items =>
    let pairs ← items.mapM makePair
    note number (.pairs pairs)
  | _, _ => throw .malformed

def levels : Nat → Maker Unit
  | 0 => return ()
  | fuel + 1 => do
    let opened := (← get).opened.reverse
    modify fun s => { s with opened := [] }
    opened.forM goThrough
    levels fuel

end Maker

abbrev Known := Array (Option Datum)

def Made.datum (label : Option Nat) (part : Nat → Datum) : Made → Datum
  | atom a => .atom a
  | opened => .null
  | list items => .list label (items.map part)
  | pairs items => .list label (items.map fun (k, v) => .tuple [part k, part v])
  | set members => .set members
  | map entries =>
    .map label (entries.foldl (fun t (a, v) => Datum.Entries.put t a (part v)) [])

def Made.parts : Made → List Nat
  | list items => items
  | pairs items => items.flatMap fun (k, v) => [k, v]
  | map entries => entries.map Prod.snd
  | _ => []

def addKnown (made : Array (Option Made)) (known : Known) (number : Nat) : Known :=
  match made[number]?.join with
  | none => known
  | some m =>
    if m.parts.all fun i => (known[i]?.join).isSome then
      known.setIfInBounds number (some (m.datum none fun i => (known[i]?.join).getD .null))
    else known

/-- The data of a node that may contain itself. Below the outer levels, where a node is inside
itself it is cut. -/
def unfold (made : Array (Option Made)) (known : Known) : Nat → Nat → List Nat → Nat → Datum
  | 0, _, _, _ => .null
  | fuel + 1, outer, around, number =>
    match known[number]?.join, made[number]?.join with
    | some d, _ => d
    | none, none => .null
    | none, some m =>
      if around.contains number then
        match m with
        | .map _ => .again true
        | _ => .again false
      else
        m.datum (some number)
          (unfold made known fuel (outer - 1) (if outer = 0 then number :: around else around))

def settingLevels : Nat := 4

def Document.datum (d : Document) : Except Flaw Datum := do
  let size := d.nodes.size
  let start : Making := ⟨d.nodes, Array.replicate size none, []⟩
  let (_, s) ← (do discard (Maker.make d.root); Maker.levels size : Maker Unit).run start
  let known := d.ended.foldl (addKnown s.made) (Array.replicate size none)
  return unfold s.made known (size + settingLevels + 2) settingLevels [] d.root

def read (s : List Char) : Except Flaw Datum := do
  match ← Document.ofText? s with
  | none => return .null
  | some d => d.datum

end TraitTrace.Yaml
