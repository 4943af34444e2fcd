import CommandTree.ArgumentType
import CommandTree.Text.Blank

/-!
# Bounds

A number may be bounded by the parameters `min` and `max`.  A bound that cannot be read is no
bound; the lower one is looked at first.

Results:
* `checkBounds_eq_ok_iff`: a number passes exactly when no readable bound excludes it.
-/
namespace CommandTree.ArgumentType

/-- A kind of number: how it is read, compared and written. -/
structure NumberKind (α : Type) where
  read : String → Option α
  less : α → α → Bool
  write : α → String

/-- The bound given by a parameter, blanks around it ignored. -/
def NumberKind.bound {α : Type} (k : NumberKind α) (d : Descriptor) (key : String) : Option α :=
  (d.parameter key).bind fun value => k.read (Text.trim value)

/-- The number, unless a bound of the descriptor excludes it. -/
def checkBounds {α : Type} (k : NumberKind α) (d : Descriptor) (x : α) : Except ParseError α :=
  match (k.bound d "min").filter (k.less x), (k.bound d "max").filter (k.less · x) with
  | some low, _ => .error (.invalid (k.write x ++ " is less than " ++ k.write low))
  | none, some high => .error (.invalid (k.write x ++ " is greater than " ++ k.write high))
  | none, none => .ok x

theorem checkBounds_eq_ok_iff {α : Type} (k : NumberKind α) (d : Descriptor) (x y : α) :
    checkBounds k d x = .ok y ↔
      x = y ∧ (∀ low, k.bound d "min" = some low → k.less x low = false) ∧
        ∀ high, k.bound d "max" = some high → k.less high x = false := by
  unfold checkBounds
  cases hmin : k.bound d "min" with
  | none =>
    cases hmax : k.bound d "max" with
    | none => simp
    | some high => cases hb : k.less high x <;> simp [Option.filter, hb]
  | some low =>
    cases ha : k.less x low with
    | true => simp [Option.filter, ha]
    | false =>
      cases hmax : k.bound d "max" with
      | none => simp [Option.filter, ha]
      | some high => cases hb : k.less high x <;> simp [Option.filter, ha, hb]

end CommandTree.ArgumentType
