import CommandTree.ArgumentType

/-!
# Slots

A slot is a node being read: the descriptor, the argument type that reads it, and the token taken
so far.  The type is asked for the value and for the completions of a token at most once; the
answers are remembered until another token is taken.

Results:
* `parse_error`: a failing parse changes nothing but the mark that one was tried.
-/
namespace CommandTree

/-- A node with its argument type, the token it has taken, and the answers about that token. -/
structure Slot (ε : Type) extends Place where
  type : ArgumentType ε
  answer : Option (Except ParseError Value) := none
  offers : Option (List String) := none

namespace Slot

variable {ε : Type}

/-- A parameter of the descriptor, or what the type has for it. -/
def parameter (s : Slot ε) (key : String) : Option String :=
  (s.descriptor.parameter key).or (s.type.defaultParameter key)

/-- Whether the value routes the line without becoming an argument. -/
def isSuppressed (s : Slot ε) : Bool := s.parameter "suppress" == some "true"

def isSwitch (s : Slot ε) : Bool := s.descriptor.isSwitch

/-- Whether the flag is one of the switch. -/
def answers (s : Slot ε) (flag : String) : Bool := s.descriptor.flags.contains flag

/-- Takes a token off the line; gives the line behind it.  When that fails the slot keeps the
token it had. -/
def parse (s : Slot ε) (line : Option String) : Slot ε × Except ParseError (Option String) :=
  match s.type.consume s.descriptor line with
  | .ok taken =>
    ({ s with parsed := true, token := taken.token, answer := none, offers := none },
      .ok taken.rest)
  | .error e => ({ s with parsed := true }, .error e)

/-- The value of the token, null without one. -/
def value (s : Slot ε) (around : Surroundings ε) : Except ParseError Value :=
  match s.answer with
  | some v => v
  | none =>
    match s.token with
    | some token => s.type.result token s.descriptor around
    | none => .ok .null

/-- The slot once it has been asked for its value. -/
def valued (s : Slot ε) (around : Surroundings ε) : Slot ε :=
  { s with answer := some (s.value around) }

/-- The completions of the token, none without one. -/
def completions (s : Slot ε) (around : Surroundings ε) : List String :=
  match s.offers with
  | some texts => texts
  | none =>
    match s.token with
    | some token => s.type.complete token s.descriptor around
    | none => []

/-- The slot once it has been asked for its completions. -/
def completed (s : Slot ε) (around : Surroundings ε) : Slot ε :=
  { s with offers := some (s.completions around) }

def shown (s : Slot ε) : String :=
  let token := match s.token with
    | some token => "Some(" ++ Text.quoted token ++ ")"
    | none => "None"
  "Parser \x7b node: NodeId(" ++ toString s.node ++ "), descriptor: " ++
    Text.quoted s.descriptor.text ++ ", token: " ++ token ++ ", parsed: " ++
    (if s.parsed then "true" else "false") ++ " \x7d"

/-- A failing parse changes nothing but the mark that one was tried. -/
theorem parse_error {s : Slot ε} {line : Option String} {e : ParseError}
    (h : s.type.consume s.descriptor line = .error e) :
    s.parse line = ({ s with parsed := true }, .error e) := by
  simp [parse, h]

theorem value_valued (s : Slot ε) (around around' : Surroundings ε) :
    (s.valued around).value around' = s.value around := rfl

end Slot

end CommandTree
