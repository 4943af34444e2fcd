import CommandTree.Grammar

/-!
# Dispatching a line

A line is matched from the root, and the match decides what is done (`Grammar.plan`): the
handler of the last node runs with the values of the path, or the nearest handler for dead ends
runs, or a refused value goes to the nearest error handler.  At most one handler runs.

Results:
* `padded_length`: a handler is never called with fewer arguments than it declares.
-/
namespace CommandTree

/-- What a line came to. -/
inductive Outcome
  | error
  | execute
  | default
  | noOp
  /-- A value was refused, and no error handler was found on the path. -/
  | unhandled (message : String)
deriving DecidableEq, Repr

/-- What is to be done about a line. -/
inductive Plan (ε : Type)
  /-- Run the handler of this node. -/
  | run (node : Nat) (kind : HandlerKind) (handler : Handler ε) (args : List Value)
  /-- Report a refused value. -/
  | report (message : String)
  /-- Write a warning and do nothing. -/
  | warn (message : String)
  /-- Do nothing. -/
  | idle

/-- The part of a chain that a line spells, with the values of its nodes. -/
structure Spelled where
  path : List Nat := []
  values : List Value := []
  /-- The first value that is missing or refused; the path ends with its node. -/
  fault : Option (Descriptor × ParseError) := none

structure Dispatched (ε : Type) where
  outcome : Except CommandError Outcome
  log : List LogEntry
  context : Context ε

def HandlerKind.outcome : HandlerKind → Outcome
  | .execute => .execute
  | .default => .default
  | .error => .error

/-- The arguments, with nulls up to the number declared. -/
def padded (arity : Nat) (args : List Value) : List Value :=
  args ++ List.replicate (arity - args.length) .null

/-- A handler is never called with fewer arguments than it declares, and never loses any. -/
theorem padded_length (arity : Nat) (args : List Value) :
    (padded arity args).length = max arity args.length := by
  simp only [padded, List.length_append, List.length_replicate]
  omega

variable {ε : Type}

namespace Context

/-- The slot whose value counts for a slot of a chain: the used switch of its node, or the slot
itself, which takes what an absent token becomes if it has taken none; nothing when that is
refused. -/
def settle (ctx : Context ε) (slot : Slot ε) : Option (Slot ε) :=
  let slot := (ctx.consumed? slot.node).getD slot
  if slot.parsed then some slot
  else
    match slot.parse none with
    | (slot, .ok _) => some slot
    | (_, .error _) => none

/-- Walks a chain up to its end, to the first value that is no value, or to the first switch
that must be given and is not. -/
def spell (ctx : Context ε) : List (Slot ε) → Spelled
  | [] => {}
  | slot :: rest =>
    match ctx.settle slot with
    | none => {}
    | some slot =>
      match slot.value ctx.around with
      | .error e => { path := [slot.node], fault := some (slot.descriptor, e) }
      | .ok v =>
        let tail := ctx.spell rest
        { tail with
          path := slot.node :: tail.path
          values := if slot.isSuppressed then tail.values else v :: tail.values }

end Context

namespace Grammar

/-- The handler of a kind that is nearest to the end of the path, with its node. -/
def nearest (g : Grammar ε) (path : List Nat) (kind : HandlerKind) :
    Option (Nat × Handler ε) :=
  path.reverse.findSome? fun node => (g.tree.handler? node kind).map (node, ·)

def planEnd (g : Grammar ε) (path : List Nat) (base values : List Value) : Plan ε :=
  let last := path.getLastD Tree.root
  match g.tree.handler? last .execute with
  | some handler => .run last .execute handler (padded handler.arity (base ++ values))
  | none =>
    match g.nearest path .default with
    | some (node, handler) => .run node .default handler base
    | none => .idle

def planRefused (g : Grammar ε) (path : List Nat) (base : List Value) (message : String) :
    Plan ε :=
  match g.nearest path .error with
  | some (node, handler) => .run node .error handler (base ++ [.text message])
  | none =>
    if g.settings.reportUnhandledErrors then .report message
    else .warn ("Dropping argument error with no handler: " ++ message)

/-- What is to be done about a trimmed line, and the context behind its match.  The arguments of
a handler begin with `base`. -/
def plan (g : Grammar ε) (line : String) (ctx : Context ε) (base : List Value) :
    Plan ε × Context ε :=
  let found := g.resolve Tree.root (if line = "" then none else some line) ctx
  let spelled := found.context.spell found.chain
  let path := Tree.root :: spelled.path
  let plan := match spelled.fault with
    | none => g.planEnd path base spelled.values
    | some (_, .invalid message) => g.planRefused path base message
    | some (d, e) =>
      .warn ("Argument '" ++ d.text ++ "' of '" ++ line ++ "': " ++ e.message)
  (plan, found.context)

/-- Does what a plan says. -/
def perform (ctx : Context ε) : Plan ε → Dispatched ε
  | .run _ kind handler args =>
    let reaction := handler.run ctx.env ⟨args⟩
    { outcome := reaction.outcome.map fun _ => kind.outcome
      log := reaction.log
      context := { ctx with env := reaction.env } }
  | .report message => ⟨.ok (.unhandled message), [], ctx⟩
  | .warn message => ⟨.ok .noOp, [⟨.warn, message⟩], ctx⟩
  | .idle => ⟨.ok .noOp, [], ctx⟩

/-- Matches a line and does what the match says. -/
def dispatch (g : Grammar ε) (line : String) (ctx : Context ε) (base : List Value) :
    Dispatched ε :=
  let (plan, ctx) := g.plan (Text.trim line) ctx base
  perform ctx plan

/-- Dispatches a line, and tells only whether its handler ended well; if not, the log says so. -/
def execute (g : Grammar ε) (line : String) (ctx : Context ε) (base : List Value) :
    Bool × List LogEntry × Context ε :=
  let done := g.dispatch line ctx base
  match done.outcome with
  | .ok _ => (true, done.log, done.context)
  | .error e =>
    (false, done.log ++ [⟨.error, "Handler for '" ++ line ++ "' failed: " ++ e.message⟩],
      done.context)

end Grammar

end CommandTree
