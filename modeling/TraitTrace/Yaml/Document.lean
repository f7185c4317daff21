import TraitTrace.Yaml.Tag
import TraitTrace.Yaml.Token.Lexer

/-! Documents: the nodes that the tokens of a text make. A node is a scalar, a sequence or a mapping
and has a tag. Nodes refer to one another by number, for an alias stands for the node of its anchor,
which may be one that the alias is inside of. A text holds at most one document. -/

namespace TraitTrace.Yaml

/-- What a node holds: text, or nodes by their numbers. -/
inductive Content where
  | scalar (text : String)
  | sequence (items : List Nat)
  | mapping (entries : List (Nat × Nat))

structure Node where
  tag : Tag
  content : Content

/-- The nodes of a document by number, the number of the outermost, and all numbers in the order in
which the nodes end. -/
structure Document where
  nodes : Array Node
  root : Nat
  ended : List Nat

/-- How far the tokens of a text have been read. Numbers of nodes that have ended stand newest
first. -/
structure Reader where
  tokens : List Token
  stop : Option Fault
  handles : List (String × String) := []
  anchors : List (String × Nat) := []
  nodes : Array Node := #[]
  ended : List Nat := []
  depth : Nat := 0

def maxNesting : Nat := 487

abbrev Reading (α : Type) := StateT Reader (Except Flaw) α

namespace Reading

def next? : Reading (Option Token) := fun r =>
  match r.tokens, r.stop with
  | t :: _, _ => .ok (some t, r)
  | [], none => .ok (none, r)
  | [], some f => .error (.fault f)

def isNext (p : Token → Bool) : Reading Bool := return (← next?).any p

def skip : Reading Unit := modify fun r => { r with tokens := r.tokens.drop 1 }

def takes (t : Token) : Reading Bool := do
  if (← next?) = some t then
    skip
    return true
  else return false

/-- Goes past the comma before an item of flow, and says whether it is not there. The first item has
none. -/
def lacksComma (first : Bool) : Reading Bool := do
  if first then return false
  else return !(← takes .comma)

def start (anchor : Option String) (tag : Tag) (content : Content) : Reading Nat := do
  let r ← get
  match anchor with
  | none => pure ()
  | some name => if (r.anchors.lookup name).isSome then throw .malformed
  let number := r.nodes.size
  let anchors := (anchor.toList.map fun name => (name, number)) ++ r.anchors
  set { r with nodes := r.nodes.push ⟨tag, content⟩, anchors }
  return number

def finish (number : Nat) (content : Content) : Reading Nat := do
  modify fun r => { r with
    nodes := r.nodes.modify number fun n => { n with content }
    ended := number :: r.ended }
  return number

def enter (anchor : Option String) (tag : Tag) (content : Content) : Reading Nat := do
  let r ← get
  if maxNesting ≤ r.depth then throw (.fault .deepDocument)
  set { r with depth := r.depth + 1 }
  start anchor tag content

def leave (number : Nat) (content : Content) : Reading Nat := do
  modify fun r => { r with depth := r.depth - 1 }
  finish number content

def scalar (anchor : Option String) (tag : Tag) (text : String) : Reading Nat := do
  finish (← start anchor tag (.scalar text)) (.scalar text)

def empty : Reading Nat := scalar none .null ""

def properties : Reading (Option String × Option WrittenTag) := do
  match ← next? with
  | some (.anchor name) =>
    skip
    match ← next? with
    | some (.tag t) =>
      skip
      return (some name, some t)
    | _ => return (some name, none)
  | some (.tag t) =>
    skip
    match ← next? with
    | some (.anchor name) =>
      skip
      return (some name, some t)
    | _ => return (none, some t)
  | _ => return (none, none)

def tagText (t : WrittenTag) : Reading String := do
  match t.handle with
  | none => return t.suffix
  | some handle =>
    match (← get).handles.lookup handle with
    | some start => return start ++ t.suffix
    | none => throw .malformed

/-- The tag that a text names; a lone mark names the one that the node has by itself. -/
def named (tag : Option String) (itself : Tag) : Tag :=
  match tag with
  | none => itself
  | some "!" => itself
  | some s => .ofText s

def endsItem (t : Token) : Bool := t = .dash || t = .closeBlock

def endsEntry (t : Token) : Bool := t = .key || t = .value || t = .closeBlock

/-- Whether an item of a sequence at the column of its key is empty where a token follows its
dash. -/
def endsFlushItem (t : Token) : Bool := t = .dash || endsEntry t

def endsFlowItem (t : Token) : Bool := t = .comma || t = .closeList

def endsFlowEntry (t : Token) : Bool := t = .comma || t = .closeMap

mutual

/-- A node. A block may start here if `inBlock` says so, and a sequence at the column of its key if
`flush` does. -/
def node : Nat → Bool → Bool → Reading Nat
  | 0, _, _ => throw .malformed
  | fuel + 1, inBlock, flush => do
    match ← next? with
    | some (.alias name) =>
      skip
      match (← get).anchors.lookup name with
      | some number => return number
      | none => throw .malformed
    | _ =>
      let (anchor, written) ← properties
      let tag ← written.mapM tagText
      match ← next? with
      | some (.scalar text plain) =>
        skip
        let itself := if (plain && tag.isNone) || tag = some "!" then Tag.ofPlain text else .str
        scalar anchor (named tag itself) text
      | some .openList =>
        skip
        let number ← enter anchor (named tag .seq) (.sequence [])
        leave number (.sequence (← flowItems fuel true []))
      | some .openMap =>
        skip
        let number ← enter anchor (named tag .map) (.mapping [])
        leave number (.mapping (← flowEntries fuel true []))
      | t =>
        if t = some .dash && flush then
          let number ← enter anchor (named tag .seq) (.sequence [])
          leave number (.sequence (← flushItems fuel []))
        else if t = some .openSequence && inBlock then
          skip
          let number ← enter anchor (named tag .seq) (.sequence [])
          leave number (.sequence (← blockItems fuel []))
        else if t = some .openMapping && inBlock then
          skip
          let number ← enter anchor (named tag .map) (.mapping [])
          leave number (.mapping (← blockEntries fuel []))
        else if anchor.isSome || tag.isSome then scalar anchor (named tag .null) ""
        else throw .malformed

def nodeUnless : Nat → (Token → Bool) → Bool → Bool → Reading Nat
  | 0, _, _, _ => throw .malformed
  | fuel + 1, ends, inBlock, flush => do
    if ← isNext ends then empty else node fuel inBlock flush

def valueNode : Nat → (Token → Bool) → Bool → Reading Nat
  | 0, _, _ => throw .malformed
  | fuel + 1, ends, inBlock => do
    if ← takes .value then nodeUnless fuel ends inBlock inBlock else empty

/-- The items of a block sequence. Items so far stand newest first. -/
def blockItems : Nat → List Nat → Reading (List Nat)
  | 0, _ => throw .malformed
  | fuel + 1, items => do
    if ← takes .dash then
      let item ← nodeUnless fuel endsItem true false
      blockItems fuel (item :: items)
    else if ← takes .closeBlock then return items.reverse
    else throw .malformed

def flushItems : Nat → List Nat → Reading (List Nat)
  | 0, _ => throw .malformed
  | fuel + 1, items => do
    if ← takes .dash then
      let item ← nodeUnless fuel endsFlushItem true false
      flushItems fuel (item :: items)
    else return items.reverse

def blockEntries : Nat → List (Nat × Nat) → Reading (List (Nat × Nat))
  | 0, _ => throw .malformed
  | fuel + 1, entries => do
    if ← takes .key then
      let key ← nodeUnless fuel endsEntry true true
      let value ← valueNode fuel endsEntry true
      blockEntries fuel ((key, value) :: entries)
    else if ← takes .closeBlock then return entries.reverse
    else throw .malformed

/-- The items of a flow sequence. An item with the mark of a key is a mapping of one entry. -/
def flowItems : Nat → Bool → List Nat → Reading (List Nat)
  | 0, _, _ => throw .malformed
  | fuel + 1, first, items => do
    if ← takes .closeList then return items.reverse
    else if ← lacksComma first then throw .malformed
    else if ← isNext (· = .key) then
      let number ← enter none .map (.mapping [])
      skip
      let key ← nodeUnless fuel (fun t => t = .value || endsFlowItem t) false false
      let value ← valueNode fuel endsFlowItem false
      let item ← leave number (.mapping [(key, value)])
      flowItems fuel false (item :: items)
    else if ← takes .closeList then return items.reverse
    else
      let item ← node fuel false false
      flowItems fuel false (item :: items)

/-- The entries of a flow mapping. A key without its mark has no value. -/
def flowEntries : Nat → Bool → List (Nat × Nat) → Reading (List (Nat × Nat))
  | 0, _, _ => throw .malformed
  | fuel + 1, first, entries => do
    if ← takes .closeMap then return entries.reverse
    else if ← lacksComma first then throw .malformed
    else if ← takes .key then
      let key ← nodeUnless fuel (fun t => t = .value || endsFlowEntry t) false false
      let value ← valueNode fuel endsFlowEntry false
      flowEntries fuel false ((key, value) :: entries)
    else if ← takes .closeMap then return entries.reverse
    else
      let key ← node fuel false false
      let value ← empty
      flowEntries fuel false ((key, value) :: entries)

end

def standardHandles : List (String × String) := [("!", "!"), ("!!", Tag.standard)]

/-- The directives here: at most one version, which must be of the first kind, and no handle
twice. -/
def directives : Nat → Bool → List (String × String) → Reading Unit
  | 0, _, _ => throw .malformed
  | fuel + 1, versioned, handles => do
    match ← next? with
    | some (.directive d) =>
      skip
      match d with
      | .version major =>
        if versioned || major != 1 then throw .malformed else directives fuel true handles
      | .handle name start =>
        if (handles.lookup name).isSome then throw .malformed
        else directives fuel versioned ((name, start) :: handles)
      | .other => directives fuel versioned handles
    | _ => modify fun r => { r with handles := handles ++ standardHandles }

def endsDocument : Token → Bool
  | .directive _ => true
  | .documentStart => true
  | .documentEnd => true
  | _ => false

def startsDocument : Token → Bool
  | .directive _ => true
  | .documentStart => true
  | _ => false

def firstNode (fuel : Nat) : Reading Nat := do
  if ← isNext startsDocument then
    directives fuel false []
    if !(← takes .documentStart) then throw .malformed
    match ← next? with
    | none => empty
    | some t => if endsDocument t then empty else node fuel true false
  else
    modify fun r => { r with handles := standardHandles }
    node fuel true false

def endOfText : Nat → Reading Unit
  | 0 => throw .malformed
  | fuel + 1 => do
    if ← takes .documentEnd then endOfText fuel
    else
      match ← next? with
      | none => return ()
      | some (.directive _) =>
        directives fuel false []
        throw .malformed
      | some _ => throw .malformed

def document (fuel : Nat) : Reading (Option Nat) := do
  match ← next? with
  | none => return none
  | some _ =>
    let number ← firstNode fuel
    endOfText fuel
    return some number

end Reading

def isAllowed (c : Char) : Bool :=
  let n := c.toNat
  n == 9 || n == 10 || n == 13 || (0x20 ≤ n && n ≤ 0x7E) || n == 0x85 ||
    (0xA0 ≤ n && n ≤ 0xFFFD) || 0x10000 ≤ n

def Document.ofText? (s : List Char) : Except Flaw (Option Document) :=
  if s.all isAllowed then do
    let tokens ← Tokens.ofText s
    let fuel := 4 * tokens.list.length + 8
    let (root, r) ← (Reading.document fuel).run { tokens := tokens.list, stop := tokens.stop }
    return root.map fun root => ⟨r.nodes, root, r.ended.reverse⟩
  else .error .malformed

end TraitTrace.Yaml
