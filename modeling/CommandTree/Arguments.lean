import CommandTree.Value

/-!
# Arguments of a handler

A handler is given a list of values and asks for them by position and kind.  Asking wrongly is a
fault of the handler, reported as such.

Results:
* `get_eq_error_iff`: asking fails for missing positions only.
-/
namespace CommandTree

/-- The values that a handler is called with. -/
structure Arguments where
  values : List Value

namespace Arguments

def get (args : Arguments) (index : Nat) : Except CommandError Value :=
  match args.values[index]? with
  | some v => .ok v
  | none => .error (.missingArgument index)

/-- The value at a position as seen by `view`, which knows values called `expected`. -/
def getAs {α : Type} (args : Arguments) (expected : String) (view : Value → Option α)
    (index : Nat) : Except CommandError α := do
  let v ← args.get index
  match view v with
  | some x => .ok x
  | none => .error (.wrongArgumentType index expected v.kindName)

def isNull (args : Arguments) (index : Nat) : Except CommandError Bool := do
  return (← args.get index).isNull

def getText (args : Arguments) : Nat → Except CommandError String :=
  args.getAs "String" Value.text?

def getInteger (args : Arguments) : Nat → Except CommandError Int32 :=
  args.getAs "Integer" Value.integer?

def getDouble (args : Arguments) : Nat → Except CommandError Float :=
  args.getAs "Double" Value.double?

def getContent (args : Arguments) (typeName : String) : Nat → Except CommandError String :=
  args.getAs typeName (Value.content? typeName)

theorem get_eq_error_iff (args : Arguments) (index : Nat) (e : CommandError) :
    args.get index = .error e ↔ args.values.length ≤ index ∧ e = .missingArgument index := by
  unfold get
  cases h : args.values[index]? with
  | none =>
    have := List.getElem?_eq_none_iff.1 h
    simp [this, eq_comm]
  | some v =>
    have := (List.getElem?_eq_some_iff.1 h).1
    simp; omega

end Arguments

end CommandTree
