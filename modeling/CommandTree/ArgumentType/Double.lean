import CommandTree.ArgumentType.Bounds
import CommandTree.Decimal.Layout
import CommandTree.Decimal.Reading

/-!
# Doubles

A finite double between the bounds of its node.  The bounds themselves may be infinite or not a
number, which excludes nothing.
-/
namespace CommandTree.ArgumentType

/-- Doubles in messages are written without an exponent, and whole ones without a point. -/
def messageDouble : Decimal.Layout := ⟨none, ""⟩

def doubleKind : NumberKind Float where
  read := Decimal.readDouble
  less x y := decide (x < y)
  write := messageDouble.write

/-- A finite double. -/
def double {ε : Type} : ArgumentType ε where
  result token d _ :=
    match (Decimal.readDouble token).filter Float.isFinite with
    | some x => (checkBounds doubleKind d x).map .double
    | none => .error (.invalid ("'" ++ token ++ "' is not a valid number"))

end CommandTree.ArgumentType
