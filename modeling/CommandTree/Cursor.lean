import CommandTree.Grammar

/-!
# Completing a line

The end of a line is a cursor: on the token of a node, on the value of a switch, or on a flag
being typed.  Every path of the tree that reads the line up to there leads to a cursor, and the
completions of a line are those of its cursors in the order of the paths.

Completing from a node also gives the context in which the reading of that node ended, for a
host that goes on with it: a switch met there waits, and the pairs and the token read there are
recorded.  A switch whose value the cursor is on, or whose value was refused, neither waits nor is
used.  The children read with copies, which leave nothing behind.

Results:
* `Context.length_flagOffers_le`: flags are offered at most once for each switch, up to the limit.
* `Grammar.context_complete_of_slot?_eq_none`: completing from a root that has children leaves
  the context as it was.
-/
namespace CommandTree

/-- Where the end of a line falls. -/
inductive Cursor (ε : Type)
  /-- On the token of a node. -/
  | token (slot : Slot ε) (ctx : Context ε)
  /-- On the value behind the flag of a switch. -/
  | value (switch : Slot ε) (ctx : Context ε)
  /-- On a flag, of which this much has been typed. -/
  | flag (typed : String) (ctx : Context ε)

/-- What comes of reading the pairs at the start of a line up to its end. -/
inductive Approach (ε : Type)
  /-- No cursor lies this way. -/
  | lost (ctx : Context ε)
  /-- The line ends here. -/
  | at (cursor : Cursor ε)
  /-- The line goes on. -/
  | go (rest : Option String) (ctx : Context ε)

/-- The texts that the end of a line could become, and the context left behind. -/
structure Completion (ε : Type) where
  texts : List String
  context : Context ε

namespace Context

variable {ε : Type}

/-- The first flag of each waiting switch that begins with what has been typed. -/
def flagOffers (ctx : Context ε) (typed : String) : List String :=
  (ctx.switches.filterMap fun s =>
    (s.descriptor.flags.find? fun flag => Text.beginsWith flag typed).map ("-" ++ ·)).take ctx.limit

/-- Reads the pairs at the start of a line; stops at the end of the line. -/
def approach (ctx : Context ε) (line : Option String) : Approach ε :=
  match _h : ctx.readPair line with
  | .absent => .go line ctx
  | .unfinished flag => .at (.flag flag ctx)
  | .unanswered => .lost ctx
  | .refused ctx => .lost ctx
  | .read switch none ctx => .at (.value switch ctx)
  | .read switch (some rest) ctx' => (ctx'.consume switch).approach (some rest)
termination_by ctx.switches.length
decreasing_by
  show ctx'.switches.length < ctx.switches.length
  exact length_switches_readPair _h

end Context

def Cursor.context {ε : Type} : Cursor ε → Context ε
  | .token _ ctx | .value _ ctx | .flag _ ctx => ctx

def Approach.context {ε : Type} : Approach ε → Context ε
  | .lost ctx | .go _ ctx => ctx
  | .at cursor => cursor.context

/-- The texts offered at a cursor. -/
def Cursor.offers {ε : Type} : Cursor ε → List String
  | .token slot ctx => slot.completions ctx.around
  | .value switch ctx => switch.completions ctx.around
  | .flag typed ctx => ctx.flagOffers typed

namespace Grammar

variable {ε : Type}

/-- Lets a node that is no switch take its token on the way to the end of the line. -/
def approachSlot (slot : Slot ε) (line : Option String) (ctx : Context ε) : Approach ε :=
  match slot.parse line with
  | (_, .error _) => .lost ctx
  | (slot, .ok none) => .at (.token slot ctx)
  | (slot, .ok (some rest)) =>
    let slot := slot.valued ctx.around
    match slot.value ctx.around with
    | .ok _ => .go (some rest) (ctx.pushMatched slot)
    | .error _ => .lost ctx

/-- Enters a node on the way to the end of the line. -/
def approach (g : Grammar ε) (node : Nat) (line : Option String) (ctx : Context ε) :
    Approach ε :=
  match g.slot? node with
  | none => .go line ctx
  | some slot =>
    if slot.isSwitch then .go line (ctx.pushSwitch slot)
    else
      match ctx.approach line with
      | .go rest ctx => approachSlot slot rest ctx
      | other => other

/-- The cursor among the pairs behind the last node of a path. -/
def trailingCursors (ctx : Context ε) (line : Option String) : List (Cursor ε) :=
  match ctx.approach line with
  | .at cursor => [cursor]
  | _ => []

/-- The cursors from a node down, as far as `levels` go. -/
def cursorsWithin (g : Grammar ε) :
    Nat → Nat → Option String → Context ε → List (Cursor ε)
  | 0, _, _, _ => []
  | levels + 1, node, line, ctx =>
    match g.approach node line ctx with
    | .lost _ => []
    | .at cursor => [cursor]
    | .go rest ctx =>
      if g.tree.isLeaf node then trailingCursors ctx rest
      else (g.tree.children node).flatMap fun child => g.cursorsWithin levels child rest ctx

def cursors (g : Grammar ε) (node : Nat) (line : Option String) (ctx : Context ε) :
    List (Cursor ε) :=
  g.cursorsWithin g.tree.size node line ctx

/-- The context in which the reading of a node ends: behind its token, or behind the pairs that
follow when the node has no children. -/
def contextBehind (g : Grammar ε) (node : Nat) (line : Option String) (ctx : Context ε) :
    Context ε :=
  match g.approach node line ctx with
  | .go rest ctx => if g.tree.isLeaf node then (ctx.approach rest).context else ctx
  | ended => ended.context

def complete (g : Grammar ε) (node : Nat) (line : Option String) (ctx : Context ε) :
    Completion ε where
  texts := (g.cursors node line ctx).flatMap Cursor.offers
  context := g.contextBehind node line ctx

theorem context_complete_of_slot?_eq_none (g : Grammar ε) (node : Nat) (line : Option String)
    (ctx : Context ε) (root : g.slot? node = none) (leaf : g.tree.isLeaf node = false) :
    (g.complete node line ctx).context = ctx := by
  simp [complete, contextBehind, approach, root, leaf]

end Grammar

theorem Context.length_flagOffers_le {ε : Type} (ctx : Context ε) (typed : String) :
    (ctx.flagOffers typed).length ≤ min ctx.limit ctx.switches.length := by
  unfold flagOffers
  rw [List.length_take]
  have := List.length_filterMap_le (fun s : Slot ε =>
    (s.descriptor.flags.find? fun flag => Text.beginsWith flag typed).map ("-" ++ ·)) ctx.switches
  omega

end CommandTree
