import CommandTree.Decimal.Layout
import CommandTree.Error
import CommandTree.Text.Quoted

/-!
# Values

A value is what an argument type makes of a token and what a handler is given.  A handle is a
value that the engine passes on without looking inside: it knows the name of its type, and two
handles are equal only when they are one.

Results:
* `Value.beq_self_iff`: every value equals itself, but for a NaN.
-/
namespace CommandTree

/-- A host's own value: which one it is, the name of its type, and its text.  Handles that are never
compared may all have the number 0. -/
structure Handle where
  serial : Nat
  typeName : String
  content : String
deriving DecidableEq, Repr

def Handle.textType : String := "alloc::string::String"

inductive Value
  | null
  | text (s : String)
  | integer (n : Int32)
  | double (x : Float)
  | handle (h : Handle)

namespace Value

def isNull : Value → Bool
  | .null => true
  | _ => false

def text? : Value → Option String
  | .text s => some s
  | _ => none

def integer? : Value → Option Int32
  | .integer n => some n
  | _ => none

def double? : Value → Option Float
  | .double x => some x
  | _ => none

def content? (typeName : String) : Value → Option String
  | .handle h => if h.typeName = typeName then some h.content else none
  | _ => none

/-- What kind of value it is, in the words of error messages. -/
def kindName : Value → String
  | .null => "Null"
  | .text _ => "String"
  | .integer _ => "Integer"
  | .double _ => "Double"
  | .handle _ => "Opaque"

/-- Doubles keep a point or an exponent, and have an exponent below 1e-4 and from 1e16. -/
def shownDouble : Decimal.Layout := ⟨some (-4, 15), ".0"⟩

/-- The value with its kind, as shown to a programmer. -/
def shown : Value → String
  | .null => "Null"
  | .text s => "String(" ++ Text.quoted s ++ ")"
  | .integer n => "Integer(" ++ toString n.toInt ++ ")"
  | .double x => "Double(" ++ shownDouble.write x ++ ")"
  | .handle _ => "Opaque(..)"

/-- Values of one kind with the same content; doubles by their order, handles by identity. -/
def beq : Value → Value → Bool
  | .null, .null => true
  | .text s, .text t => s == t
  | .integer m, .integer n => m == n
  | .double x, .double y => x == y
  | .handle g, .handle h => g.serial == h.serial
  | _, _ => false

instance : BEq Value := ⟨beq⟩

/-- Every value equals itself, but for a NaN. -/
theorem beq_self_iff (v : Value) : beq v v = true ↔ ∀ x, v = .double x → (x == x) = true := by
  cases v <;> simp [beq]

end Value

end CommandTree
