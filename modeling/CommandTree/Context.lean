import CommandTree.Slot

/-!
# Contexts of a match

While a line is matched, the context holds the switches met on the path and not yet used, the
slots matched, and the switches that were used, by node.  It also carries the host's environment
and the number of completions wanted.

`readPair` reads one `-flag value` pair from the start of a line, and `takePairs` all that stand
there.

Results:
* `Context.length_switches_readPair`: each pair read uses up one switch.
-/
namespace CommandTree

def defaultLimit : Nat := 20

/-- What has been matched so far. -/
structure Context (ε : Type) where
  env : ε
  limit : Nat := defaultLimit
  /-- Switches met on the path and not yet used. -/
  switches : List (Slot ε) := []
  /-- Slots that took a token in their place. -/
  matched : List (Slot ε) := []
  /-- Switches used, by ascending node. -/
  consumed : List (Slot ε) := []

variable {ε : Type}

/-- Removes the first switch that answers to the flag. -/
def removeSwitch (flag : String) : List (Slot ε) → Option (Slot ε × List (Slot ε))
  | [] => none
  | s :: rest =>
    if s.answers flag then some (s, rest)
    else (removeSwitch flag rest).map fun (found, others) => (found, s :: others)

/-- Puts a slot among slots in ascending order of nodes, in place of one of its own node. -/
def putSlot (s : Slot ε) : List (Slot ε) → List (Slot ε)
  | [] => [s]
  | t :: rest =>
    if s.node < t.node then s :: t :: rest
    else if s.node = t.node then s :: rest
    else t :: putSlot s rest

namespace Context

/-- What an argument type sees of the context. -/
def around (ctx : Context ε) : Surroundings ε where
  env := ctx.env
  limit := ctx.limit
  matched := ctx.matched.map Slot.toPlace
  switches := ctx.switches.map Slot.toPlace
  consumed := ctx.consumed.map Slot.toPlace

def pushMatched (ctx : Context ε) (s : Slot ε) : Context ε :=
  { ctx with matched := ctx.matched ++ [s] }

def pushSwitch (ctx : Context ε) (s : Slot ε) : Context ε :=
  { ctx with switches := ctx.switches ++ [s] }

def takeSwitch (ctx : Context ε) (flag : String) : Option (Slot ε × Context ε) :=
  (removeSwitch flag ctx.switches).map fun (s, rest) => (s, { ctx with switches := rest })

def consume (ctx : Context ε) (s : Slot ε) : Context ε :=
  { ctx with consumed := putSlot s ctx.consumed }

/-- The used switch of a node. -/
def consumed? (ctx : Context ε) (node : Nat) : Option (Slot ε) :=
  ctx.consumed.find? fun s => s.node == node

end Context

/-- What stands at the start of a line where a `-flag value` pair may stand. -/
inductive Pair (ε : Type)
  /-- No dash: no pair, and the line goes on. -/
  | absent
  /-- A flag without a space behind it. -/
  | unfinished (flag : String)
  /-- A flag that no switch on the path answers to. -/
  | unanswered
  /-- A value that the switch does not take; the context has lost the switch. -/
  | refused (ctx : Context ε)
  /-- A switch with its value, the line behind it, and the context without the switch. -/
  | read (switch : Slot ε) (rest : Option String) (ctx : Context ε)

namespace Context

def readPair (ctx : Context ε) (line : Option String) : Pair ε :=
  match line.bind Text.afterDash with
  | none => .absent
  | some pair =>
    match Text.cut ' ' pair with
    | (flag, none) => .unfinished flag
    | (flag, some value) =>
      match ctx.takeSwitch flag with
      | none => .unanswered
      | some (switch, ctx) =>
        match switch.parse (some value) with
        | (switch, .ok rest) => .read switch rest ctx
        | (_, .error _) => .refused ctx

end Context

theorem length_removeSwitch {flag : String} {switches rest : List (Slot ε)} {s : Slot ε}
    (h : removeSwitch flag switches = some (s, rest)) : rest.length < switches.length := by
  induction switches generalizing rest with
  | nil => simp [removeSwitch] at h
  | cons t ts ih =>
    unfold removeSwitch at h
    split at h
    · cases h; simp
    · cases hr : removeSwitch flag ts with
      | none => simp [hr] at h
      | some found =>
        obtain ⟨s', others⟩ := found
        rw [hr] at h
        cases h
        have := ih hr
        simp only [List.length_cons]
        omega

theorem Context.length_switches_takeSwitch {ctx ctx' : Context ε} {flag : String} {s : Slot ε}
    (h : ctx.takeSwitch flag = some (s, ctx')) : ctx'.switches.length < ctx.switches.length := by
  unfold takeSwitch at h
  obtain ⟨⟨s', rest⟩, hr, he⟩ := Option.map_eq_some_iff.1 h
  cases he
  exact length_removeSwitch hr

theorem Context.length_switches_readPair {ctx ctx' : Context ε} {line rest : Option String}
    {switch : Slot ε} (h : ctx.readPair line = .read switch rest ctx') :
    ctx'.switches.length < ctx.switches.length := by
  unfold readPair at h
  split at h
  · cases h
  · split at h
    · cases h
    · split at h
      · cases h
      · rename_i s c ht
        have hc := length_switches_takeSwitch ht
        split at h
        · cases h; exact hc
        · cases h

/-- How the pairs at the start of a line end. -/
inductive PairRun (ε : Type)
  /-- All were read; what follows is no pair. -/
  | through (rest : Option String) (ctx : Context ε)
  /-- One could not be read. -/
  | stuck (ctx : Context ε)

namespace Context

/-- Reads all pairs at the start of a line, recording the switches as used. -/
def takePairs (ctx : Context ε) (line : Option String) : PairRun ε :=
  match _h : ctx.readPair line with
  | .absent => .through line ctx
  | .unfinished _ | .unanswered => .stuck ctx
  | .refused ctx => .stuck ctx
  | .read switch rest ctx' => (ctx'.consume switch).takePairs rest
termination_by ctx.switches.length
decreasing_by
  show ctx'.switches.length < ctx.switches.length
  exact length_switches_readPair _h

end Context

end CommandTree
