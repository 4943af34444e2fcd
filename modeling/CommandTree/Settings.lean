import CommandTree.Context

/-!
# Engine settings

The two settings of the engine with the values they have unless a file says otherwise.
-/
namespace CommandTree

structure Settings where
  /-- The most completions that one node offers. -/
  completionLimit : Nat := defaultLimit
  /-- Whether refused values without an error handler are reported, and not only logged. -/
  reportUnhandledErrors : Bool := false
deriving DecidableEq, Repr

end CommandTree
