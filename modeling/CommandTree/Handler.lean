import CommandTree.Arguments

/-!
# Handlers

A handler is bound to a node and run with the arguments of a line.  Running it changes the
host's environment, may write to the log, and ends well or with an error; what it has changed by
then stays changed.
-/
namespace CommandTree

inductive Level
  | debug
  | info
  | warn
  | error
deriving DecidableEq, Repr

structure LogEntry where
  level : Level
  message : String
deriving DecidableEq, Repr

/-- The occasions on which a handler runs. -/
inductive HandlerKind
  | execute
  /-- When the matched path ends without an `execute` handler, at or below the node. -/
  | default
  /-- When a value at or below the node is refused. -/
  | error
deriving DecidableEq, Repr

structure Reaction (ε : Type) where
  env : ε
  log : List LogEntry := []
  outcome : Except CommandError Unit := .ok ()

/-- A callable and the number of arguments that it declares. -/
structure Handler (ε : Type) where
  arity : Nat
  run : ε → Arguments → Reaction ε

def Handler.shown {ε : Type} (h : Handler ε) : String :=
  "Handler(arity=" ++ toString h.arity ++ ")"

end CommandTree
