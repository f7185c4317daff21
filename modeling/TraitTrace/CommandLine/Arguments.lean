import TraitTrace.Settings.FilePath
import TraitTrace.Settings.Basic

/-! The arguments of the command. -/

namespace TraitTrace.CommandLine

/-- A request to render a stream. What is not given is left to the settings. -/
structure Request where
  verbose : Bool := false
  messageFormat : Option MessageFormat := none
  color : Option ColorMode := none
  ascii : Bool := false
  project : Option String := none
  input : Option String := none

inductive Command where
  | version
  | render (request : Request)

namespace Request

def given (r : Request) : Json.Members :=
  let format := r.messageFormat.map fun f => ("message_format", Json.str f.setting)
  let color := r.color.map fun c => ("color", Json.str c.setting)
  let charset := if r.ascii then [("charset", Json.str Charset.ascii.setting)] else []
  let render := format.toList ++ color.toList ++ charset
  if render.isEmpty then [] else [("render", .obj render)]

def settingsName : String := ".cgplens.yaml"

def userSettingsPath (home : String) : String := home ++ "/.config/cgplens/config.yaml"

/-- The path of the project's settings file; without a project it is in the working directory. -/
def settingsPath (r : Request) (workingDirectory : String) : String :=
  let folder := Settings.FilePath.ofText (r.project.getD workingDirectory)
  { folder with parts := folder.parts ++ [settingsName] : Settings.FilePath }.text

def inputPath? (r : Request) : Option String := r.input.filter (· != "-")

end Request

inductive OptionShape where
  | flag
  | valued
  deriving DecidableEq, Repr

abbrev OptionTable := List (String × OptionShape)

/-- Arguments read: the options in order, flags with an empty value, and the operands. -/
structure Reading where
  options : List (String × String) := []
  operands : List String := []

namespace Reading

def withOption (r : Reading) (name value : String) : Reading :=
  { r with options := (name, value) :: r.options }

def withOperand (r : Reading) (arg : String) : Reading :=
  { r with operands := arg :: r.operands }

def has (r : Reading) (name : String) : Bool := r.options.any fun o => o.1 == name

end Reading

def splitOption (arg : String) : String × Option String :=
  let cs := arg.toList
  let name := cs.takeWhile (· != '=')
  if name.length < cs.length then
    (String.ofList name, some (String.ofList (cs.drop (name.length + 1))))
  else (arg, none)

/-- The flags written as one dash and their letters. Nothing where a letter is no flag. -/
def letters? (table : OptionTable) (arg : String) : Option (List String) :=
  match arg.toList with
  | '-' :: letters =>
    letters.mapM fun c =>
      let name := String.ofList ['-', c]
      if table.lookup name = some .flag then some name else none
  | _ => none

/-- Reads arguments by a table of options. After two dashes all is operands; so is, unless options
may follow operands, all from the first operand on. Nothing where an option is not understood. -/
def read? (table : OptionTable) (interspersed : Bool) : List String → Option Reading
  | [] => some {}
  | arg :: args =>
    if arg = "--" then some { operands := args }
    else if arg.startsWith "-" && arg != "-" then
      let (name, value) := splitOption arg
      match (if arg.startsWith "--" then table.lookup name else none), value, args with
      | some .valued, some value, args =>
        (read? table interspersed args).map (·.withOption name value)
      | some .valued, none, value :: args =>
        (read? table interspersed args).map (·.withOption name value)
      | some .valued, none, [] => none
      | some .flag, none, args => (read? table interspersed args).map (·.withOption name "")
      | some .flag, some _, _ => none
      | none, _, args => do
        let names ← if arg.startsWith "--" then none else letters? table arg
        let r ← read? table interspersed args
        return names.foldr (fun name r => r.withOption name "") r
    else if interspersed then (read? table interspersed args).map (·.withOperand arg)
    else some { operands := arg :: args }

def commonOptions : OptionTable := [("-v", .flag), ("--verbose", .flag), ("--version", .flag)]

def renderOptions : OptionTable :=
  [("--message-format", .valued), ("--color", .valued), ("--ascii", .flag), ("--project", .valued)]

def setOption? (r : Request) (name value : String) : Option Request :=
  match name with
  | "--message-format" =>
    ([.human, .json].find? fun f => MessageFormat.setting f == value).map fun f =>
      { r with messageFormat := some f }
  | "--color" =>
    ([.automatic, .always, .never].find? fun c => ColorMode.setting c == value).map fun c =>
      { r with color := some c }
  | "--project" => some { r with project := some value }
  | _ => some { r with ascii := true }

/-- The request of the arguments after the name of the command. There may be one operand, the file
to read. Nothing where the arguments are not understood. -/
def request? (r : Request) (args : List String) : Option Request := do
  let reading ← read? renderOptions true args
  let r ← reading.options.foldlM (fun r (name, value) => setOption? r name value) r
  match reading.operands with
  | [] => return r
  | [arg] => return { r with input := some arg }
  | _ => none

/-- The command of all arguments. Nothing where they are not understood. -/
def command? (args : List String) : Option Command := do
  let reading ← read? commonOptions false args
  if reading.has "--version" then return .version
  else
    match reading.operands with
    | "render" :: args =>
      let verbose := reading.has "-v" || reading.has "--verbose"
      (request? { verbose := verbose } args).map .render
    | _ => none

end TraitTrace.CommandLine
