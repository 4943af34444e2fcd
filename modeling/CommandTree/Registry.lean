import CommandTree.Cursor
import CommandTree.Plan
import CommandTree.Text.Lowercase

/-!
# Registries of commands

A registry keeps the trees of many commands under labels.  A label is looked up in lower case; a
command is created under one or more labels separated by `|`, and a label that another command
has stays with it.  The text up to the first space of a line, leading blanks aside, is its label;
the rest of the line is matched against the tree of the command.

Results:
* `splitLabel_snd_isSome_iff`: a line has a rest exactly when a space follows its leading blanks.
* `labelsOf_ne_empty`: no label is empty.
-/
namespace CommandTree

/-- A command: its labels, the first of which names it, and its tree. -/
structure Command (ε : Type) where
  aliases : List String := []
  tree : Tree ε := .empty

def Command.name {ε : Type} (c : Command ε) : String := c.aliases.headD ""

/-- Commands, the labels that lead to them, the argument types of all trees, and settings. -/
structure Registry (ε : Type) where
  commands : Array (Command ε) := #[]
  /-- For each label the position of its command. -/
  labels : List (String × Nat) := []
  types : TypeTable ε := .standard
  settings : Settings := {}

/-- The labels listed by a text, trimmed and in lower case, without empty ones. -/
def labelsOf (text : String) : List String :=
  ((Text.parts '|' text).map fun label => Text.lower (Text.trim label)).filter (· ≠ "")

/-- The label of a line, and the rest of the line if a space follows the label. -/
def splitLabel (line : String) : String × Option String := Text.cut ' ' (Text.trimStart line)

namespace Registry

variable {ε : Type}

def registerType (r : Registry ε) (name : String) (type : ArgumentType ε) : Registry ε :=
  { r with types := r.types.register name type }

def unregisterType (r : Registry ε) (name : String) : Registry ε :=
  { r with types := r.types.unregister name }

/-- Gives a command those of the labels that no command has. -/
def claim (r : Registry ε) (index : Nat) : List String → Registry ε
  | [] => r
  | label :: rest =>
    if (r.labels.lookup label).isSome then r.claim index rest
    else
      claim
        { r with
          labels := r.labels ++ [(label, index)]
          commands := r.commands.modify index fun c => { c with aliases := c.aliases ++ [label] } }
        index rest

/-- The position of the command that has the first of the labels, or of a new command. -/
def locate (r : Registry ε) (labels : List String) : Nat × Registry ε :=
  match labels.head?.bind (r.labels.lookup ·) with
  | some index => (index, r)
  | none => (r.commands.size, { r with commands := r.commands.push {} })

/-- Finds or creates the command with the labels listed by the text; gives its position. -/
def place (r : Registry ε) (text : String) : Nat × Registry ε :=
  let labels := labelsOf text
  let (index, r) := r.locate labels
  (index, r.claim index labels)

/-- Changes the tree of the command with the labels listed by the text, which is created on
first use. -/
def command (r : Registry ε) (text : String) (build : Tree ε → Tree ε) : Registry ε :=
  let (index, r) := r.place text
  { r with commands := r.commands.modify index fun c => { c with tree := build c.tree } }

def get? (r : Registry ε) (label : String) : Option (Command ε) :=
  (r.labels.lookup (Text.lower label)).bind fun index => r.commands[index]?

/-- The commands that have labels, in the order in which they were created. -/
def listed (r : Registry ε) : List (Command ε) :=
  r.commands.toList.filter fun c => !c.aliases.isEmpty

def grammar (r : Registry ε) (c : Command ε) : Grammar ε :=
  { tree := c.tree, types := r.types, settings := r.settings }

/-- Dispatches a line to the command of its label; nothing when no command has it. -/
def dispatch (r : Registry ε) (env : ε) (line : String) (base : List Value) :
    Option (Dispatched ε) :=
  let (label, rest) := splitLabel line
  (r.get? label).map fun c =>
    let grammar := r.grammar c
    grammar.dispatch (rest.getD "") (grammar.context env) base

/-- Dispatches a line, and tells whether a command had its label and its handler ended well. -/
def execute (r : Registry ε) (env : ε) (line : String) : Bool × List LogEntry × ε :=
  match r.dispatch env line [] with
  | none => (false, [], env)
  | some done =>
    match done.outcome with
    | .ok _ => (true, done.log, done.context.env)
    | .error e =>
      (false, done.log ++ [⟨.error, "Command '" ++ line ++ "' failed: " ++ e.message⟩],
        done.context.env)

/-- The texts that the end of a line could become: labels up to the first space, then what the
command of the label offers. -/
def complete (r : Registry ε) (env : ε) (line : String) : List String :=
  match splitLabel line with
  | (label, none) =>
    ((r.listed.flatMap Command.aliases).filter fun name =>
      Text.beginsWith name (Text.lower label)).take r.settings.completionLimit
  | (label, some rest) =>
    match r.get? label with
    | some c =>
      let grammar := r.grammar c
      (grammar.complete Tree.root (some rest) (grammar.context env)).texts
    | none => []

end Registry

theorem labelsOf_ne_empty (text : String) : "" ∉ labelsOf text := by
  simp [labelsOf]

/-- A line has a rest exactly when a space follows its leading blanks. -/
theorem splitLabel_snd_isSome_iff (line : String) :
    (splitLabel line).2.isSome = true ↔ ' ' ∈ Text.trimLeft line.toList := by
  have h : ∀ cs : List Char, (Text.cutChars ' ' cs).2.isSome = true ↔ ' ' ∈ cs := by
    intro cs
    induction cs with
    | nil => simp [Text.cutChars]
    | cons c cs ih =>
      unfold Text.cutChars
      by_cases hc : c = ' '
      · simp [hc]
      · simp [hc, Ne.symm hc, ih]
  simp [splitLabel, Text.cut, Text.trimStart, h]

end CommandTree
