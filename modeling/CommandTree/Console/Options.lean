import CommandTree.Text.Cut

/-!
# Options of the console

The console is started with `--config <path>`, `--player <name>` and `--online <names>`, each
also with `=` before its value.  The first two may be given once; `--online` adds names, separated
by commas, each time.  Arguments are read from left to right and the first fault decides;
`--version` and `--help` are obeyed as soon as they are reached.

Results:
* `parse_nil`: without arguments everything has its default.
-/
namespace CommandTree.Console

/-- What the console is started with. -/
structure Options where
  config : Option String := none
  player : Option String := none
  online : List String := []
deriving DecidableEq, Repr

/-- The name that commands are run as. -/
def Options.playerName (o : Options) : String := o.player.getD "console"

def Options.onlineNames (o : Options) : List String :=
  if o.online.isEmpty then ["Steve", "Alex"] else o.online

/-- What the arguments ask for. -/
inductive Request
  | run (options : Options)
  | version
  | help
  /-- The arguments make no sense. -/
  | misuse
deriving DecidableEq, Repr

/-- The option with a value that a name stands for. -/
inductive Name
  | config
  | player
  | online
deriving DecidableEq, Repr

def Name.ofText : String → Option Name
  | "--config" => some .config
  | "--player" => some .player
  | "--online" => some .online
  | _ => none

/-- Gives an option its value, unless it has one already or refuses it. -/
def Options.set (o : Options) (value : String) : Name → Option Options
  | .config => if o.config.isSome || value = "" then none else some { o with config := some value }
  | .player => if o.player.isSome then none else some { o with player := some value }
  | .online => some { o with online := o.online ++ Text.parts ',' value }

def Options.setNamed (o : Options) (name value : String) : Option Options :=
  (Name.ofText name).bind (o.set value)

/-- Whether an argument can stand as the value of the option before it. -/
def isValue (arg : String) : Bool := !Text.beginsWith arg "-" || arg == "-"

/-- Whether an argument asks for a text of its own, and for which. -/
def asked (arg : String) : Option Request :=
  if arg = "--version" || Text.beginsWith arg "-V" then some .version
  else if arg = "--help" || Text.beginsWith arg "-h" then some .help
  else none

def parseInto (o : Options) : List String → Request
  | [] => .run o
  | [arg] =>
    match asked arg, Text.cut '=' arg with
    | some request, _ => request
    | none, (name, some value) => ((o.setNamed name value).map .run).getD .misuse
    | none, (name, none) => if name = "--" then .run o else .misuse
  | arg :: value :: rest =>
    match asked arg, Text.cut '=' arg with
    | some request, _ => request
    | none, (name, some given) =>
      match o.setNamed name given with
      | some o => parseInto o (value :: rest)
      | none => .misuse
    | none, (name, none) =>
      match if isValue value then o.setNamed name value else none with
      | some o => parseInto o rest
      | none => .misuse

def parse (args : List String) : Request := parseInto {} args

theorem parse_nil : parse [] = .run {} := rfl

end CommandTree.Console
