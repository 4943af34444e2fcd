import CommandTree.Descriptor
import CommandTree.Value

/-!
# Argument types

An argument type reads one node: `consume` takes a token off the line, `result` turns the token
into a value, `complete` offers texts that the token could become.  A host defines its own; the
engine's are in `CommandTree.ArgumentType`'s submodules.

`result` and `complete` see what has been matched so far (`Surroundings`).  `consume` sees only
the descriptor and the line.

Results:
* `consumeToken_some`: on a present line the standard way never fails and takes a token.
* `consumeAbsent_eq_ok_iff`, `consumeToken_none`: what an absent token becomes.
-/
namespace CommandTree

/-- A node of the tree and what it has taken from the line. -/
structure Place where
  node : Nat
  descriptor : Descriptor
  token : Option String := none
  /-- Whether the node has tried to take its token. -/
  parsed : Bool := false
deriving Inhabited

/-- What an argument type may look at: the host's environment, how many completions are wanted,
and the places matched, waiting and consumed out of order so far. -/
structure Surroundings (ε : Type) where
  env : ε
  limit : Nat
  matched : List Place := []
  switches : List Place := []
  consumed : List Place := []

/-- A token taken off the line, and the line behind it; both may be absent. -/
structure Consumed where
  token : Option String
  rest : Option String
deriving DecidableEq, Repr

/-- What a node that meets the end of the line takes: its default, or nothing if that is allowed.
The parameter `required` allows it unless it is absent or says `true`. -/
def consumeAbsent (d : Descriptor) : Except ParseError Consumed :=
  match d.parameter "default" with
  | some token => .ok ⟨some token, none⟩
  | none =>
    if (d.parameter "required").getD "true" = "true" then .error .requiredArgument
    else .ok ⟨none, none⟩

/-- The standard way to take a token: the text up to the first space.  An empty token is still a
token, the one being typed behind a trailing space. -/
def consumeToken (d : Descriptor) : Option String → Except ParseError Consumed
  | none => consumeAbsent d
  | some line =>
    let (token, rest) := Text.cut ' ' line
    .ok ⟨some token, rest⟩

/-- How the tokens of a node are read, in the environment `ε` of the host. -/
structure ArgumentType (ε : Type) where
  consume : Descriptor → Option String → Except ParseError Consumed := consumeToken
  result : String → Descriptor → Surroundings ε → Except ParseError Value
  complete : String → Descriptor → Surroundings ε → List String := fun _ _ _ => []
  /-- Parameters that hold where the descriptor does not say otherwise. -/
  defaultParameter : String → Option String := fun _ => none

theorem consumeToken_some (d : Descriptor) (line : String) :
    consumeToken d (some line) = .ok ⟨some (Text.cut ' ' line).1, (Text.cut ' ' line).2⟩ := rfl

/-- What an absent token becomes in the standard way: the default, or nothing if that is allowed. -/
theorem consumeAbsent_eq_ok_iff {d : Descriptor} {taken : Consumed} :
    consumeAbsent d = .ok taken ↔ taken.rest = none ∧ taken.token = d.parameter "default" ∧
      (taken.token = none → (d.parameter "required").getD "true" ≠ "true") := by
  obtain ⟨token, rest⟩ := taken
  unfold consumeAbsent
  cases d.parameter "default" with
  | some _ => grind
  | none => grind

theorem consumeToken_none (d : Descriptor) :
    consumeToken d none = .error .requiredArgument ↔
      d.parameter "default" = none ∧ (d.parameter "required").getD "true" = "true" := by
  unfold consumeToken consumeAbsent
  cases d.parameter "default" with
  | some t => simp
  | none => simp only [true_and]; split <;> simp_all

end CommandTree
