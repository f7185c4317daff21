import TraitTrace.Graph.Build
import TraitTrace.Report.Basic
import TraitTrace.Text.Line
import TraitTrace.TypeExpr.Path

/-! The report of a group of logical errors. Where a field is missing, it tells which, on which
context, and how to add it; otherwise it tells which provider is not resolved and where to look
further. Either way it shows the tree of dependencies. -/

namespace TraitTrace

def fieldDerive : String := "#[derive(HasField)]"

def checkConstruct : String := "check_components!"

namespace Group

def facts (g : Group) : List Fact := Fact.absorb [] (g.errors.flatMap LogicalError.facts)

def sources (g : Group) : List Source :=
  ((g.errors.flatMap LogicalError.records).map fun r => ⟨r.seq, r.diagnostic⟩).mergeSort
    fun a b => a.seq ≤ b.seq

/-- The branches a user sees first: the children of checked traits, and other roots themselves. -/
def topLevel (g : Group) (graph : Graph) : List Handle :=
  appendNew [] (g.roots.flatMap fun h => if graph.isCheck h then g.children graph h else [h])

end Group

namespace Report

/-- The name of a branch: its component, else its trait. -/
def branchName (graph : Graph) (h : Handle) : String :=
  match graph.node? h with
  | some n => orElseText n.componentMarker (orElseText n.contract "_")
  | none => "_"

def indent : String := "    "

def treeBlock (tree : List TreeLine) : List String :=
  "Dependency chain:" :: tree.map fun l => indent ++ l.text

def fieldTitle (m : MissingField) (name : FieldName) : String :=
  s!"missing field {name.quoted} in the context `{m.context}`."

def fieldHelp (m : MissingField) (name : FieldName) (branches : List String) (cause : RootCause)
    (tree : List TreeLine) : List String :=
  let shown := name.quoted
  let intro :=
    if 1 < branches.length then
      let list := ", ".intercalate (branches.map fun b => "`" ++ b ++ "`")
      [s!"Context `{m.context}` is missing a required field to use multiple components: {list}.",
        indent ++ s!"note: Missing field: {shown}"]
    else [s!"The struct `{m.context}` is missing the required field {shown}."]
  let hidden :=
    if name.hasHidden then
      ["note: some characters in the field name are hidden by the compiler and shown as '" ++
        FieldName.hiddenGlyph.toString ++ "'"]
    else []
  let definition :=
    match m.definition with
    | some l =>
      ["", s!"The struct `{m.context}` is defined at `{l.short}` " ++
        s!"but does not have the required field {shown}."]
    | none => []
  let atPlace :=
    match m.definition with
    | some l => s!" at {l.short}"
    | none => ""
  let derivation :=
    if cause = .missingFieldOrDerivation then
      [indent ++ s!"• Or add `{fieldDerive}` to the `{m.context}` struct " ++
        s!"if it already has the field {shown}"]
    else []
  intro ++ hidden ++ definition ++ [""] ++ treeBlock tree ++
    ["", "To fix this error:",
      indent ++ s!"• Add a field {shown} to the `{m.context}` struct{atPlace}"] ++ derivation

def checkAdvice (g : Group) (graph : Graph) (leaf : Node) : List String :=
  let checked := (g.topLevel graph).map fun h => (graph.node? h).bind Node.componentMarker
  match leaf.componentMarker, (Chain.nonempty? g.context).or leaf.context with
  | some marker, some context =>
    if some marker ∈ checked then []
    else
      ["", s!"Add a check that `{context}` can use `{marker}` using `{checkConstruct}` " ++
        "to get further details on the missing dependencies."]
  | _, _ => []

def blanketNote (facts : List Fact) (leaf : Node) : List String :=
  match leaf.kind, leaf.provider with
  | .provider, some provider =>
    match (facts.filterMap Fact.blanket?).find? fun b => b.provider = provider with
    | some b =>
      ["", s!"note: the provider `{provider}` is implemented by the blanket rule at " ++
        s!"`{b.location.short}`"]
    | none => []
  | _, _ => []

def providerHelp (g : Group) (graph : Graph) (facts : List Fact) (tree : List TreeLine) :
    List String :=
  treeBlock tree ++
    match (g.unsatisfiedLeaves graph).head?.bind graph.node? with
    | some leaf => checkAdvice g graph leaf ++ blanketNote facts leaf
    | none => []

def firstCode (ds : List Diagnostic) : Option String :=
  (ds.filterMap fun d => Chain.nonempty? d.code).head?

def ofGroup (g : Group) (graph : Graph) (r : Registry) (charset : Charset) :
    Except Fault Report := do
  let facts := g.facts
  let cause := RootCause.ofFacts facts
  let sources := g.sources
  let ds := sources.map Source.diagnostic
  let tree ← graph.draw r charset (g.children graph) g.roots
  let level :=
    if ds.any Diagnostic.isError then "error" else (ds.head?.map Diagnostic.level).getD ""
  let (title, help) ←
    match primaryMissing facts with
    | some m => do
      let name ← FieldName.decode m.tag
      let branches := (g.topLevel graph).map (branchName graph)
      pure (fieldTitle m name, fieldHelp m name branches cause tree)
    | none =>
      let headline := Text.headLine ((ds.head?.map Diagnostic.message).getD "")
      pure (TypeExpr.stripPaths headline, providerHelp g graph facts tree)
  return {
    rootCause := cause
    level
    title
    code := firstCode ds
    spans := appendNew [] (ds.flatMap Diagnostic.spans)
    help
    tree
    sources
    firstSeen := (sources.head?.map Source.seq).getD 0 }

end Report

end TraitTrace
