import TraitTrace.Diagnostic.Basic
import TraitTrace.Registry.Role

/-! Events: what a run reports to its log. -/

namespace TraitTrace

inductive LogLevel where
  | debug
  | info
  | warning
  | error
  | critical
  deriving DecidableEq, Repr

namespace LogLevel

def word : LogLevel → String
  | debug => "debug"
  | info => "info"
  | warning => "warning"
  | error => "error"
  | critical => "critical"

def severity : LogLevel → Nat
  | debug => 10
  | info => 20
  | warning => 30
  | error => 40
  | critical => 50

end LogLevel

inductive Event where
  | classified (runId : String) (seq : Int) (kind : String) (facts : Nat)
  | merged (seq : Int) (span : Option Location) (context : Option String) (records : Nat)
  | collision (span : Option Location) (context : Option String)
  | conflictIgnored (role : Role) (marker kept ignored : String)
  | graphBuilt (nodes groups failures : Nat)
  | fallback (runId : String) (span : Option Location) (context : Option String) (error : String)
  | finalized (runId : String) (errors rendered : Nat)
  | lineUnparsed (error : String)
  | renderFailed (kind error : String)

namespace Event

def name : Event → String
  | classified .. => "diagnostic_classified"
  | merged .. => "logical_error_merged"
  | collision .. => "logical_error_collision"
  | conflictIgnored .. => "registry_conflict_ignored"
  | graphBuilt .. => "graph_built"
  | fallback .. => "logical_error_fallback"
  | finalized .. => "session_finalized"
  | lineUnparsed _ => "stream_line_unparsed"
  | renderFailed .. => "render_failed"

def level : Event → LogLevel
  | fallback .. => .warning
  | renderFailed .. => .error
  | _ => .debug

def logger : Event → String
  | merged .. => "cgplens.analysis.database"
  | collision .. => "cgplens.analysis.database"
  | conflictIgnored .. => "cgplens.analysis.registry"
  | graphBuilt .. => "cgplens.analysis.graph"
  | lineUnparsed _ => "cgplens.cli.render"
  | renderFailed .. => "cgplens.cli.render"
  | _ => "cgplens.analysis.ops"

def spanJson (span : Option Location) : Json := .ofOption (span.map Location.text)

def fields : Event → Json.Members
  | classified runId seq kind facts =>
    [("run_id", .str runId), ("seq", .int seq), ("kind", .str kind), ("facts", .int facts)]
  | merged seq span context records =>
    [("seq", .int seq), ("span", spanJson span), ("context", .ofOption context),
      ("records", .int records)]
  | collision span context =>
    [("span", .str ((span.map Location.text).getD "None")), ("context", .ofOption context)]
  | conflictIgnored role marker kept ignored =>
    [("role", .str role.word), ("marker", .str marker), ("kept", .str kept),
      ("ignored", .str ignored)]
  | graphBuilt nodes groups failures =>
    [("nodes", .int nodes), ("groups", .int groups), ("failures", .int failures)]
  | fallback runId span context error =>
    [("run_id", .str runId), ("span", spanJson span), ("context", .ofOption context),
      ("error", .str error)]
  | finalized runId errors rendered =>
    [("run_id", .str runId), ("logical_errors", .int errors), ("rendered", .int rendered)]
  | lineUnparsed error => [("error", .str error)]
  | renderFailed kind error => [("error_type", .str kind), ("error", .str error)]

end Event

end TraitTrace
