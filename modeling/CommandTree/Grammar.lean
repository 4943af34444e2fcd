import CommandTree.Context
import CommandTree.Settings
import CommandTree.Tree
import CommandTree.TypeTable

/-!
# Matching a line against a tree

Every child of a node is tried on the same remaining line, each with its own copy of the context.
The child that gives the longest chain of slots is followed; of equally long ones the child added
first.  The choice is made at each node on its own.

A switch takes nothing where it stands in the tree.  It waits for the rest of the path, and is
used wherever a `-flag value` pair stands before a token, or behind the last one.

The recursion is bounded by the number of nodes, which no path of a tree exceeds.

Results:
* `enter_root`: the root takes nothing.
* `longer_length`: of two chains none longer is passed over.
-/
namespace CommandTree

/-- A tree, the argument types that read its nodes, and the settings that matter to a match. -/
structure Grammar (ε : Type) where
  tree : Tree ε
  types : TypeTable ε
  settings : Settings := {}

/-- The slots matched on a path, outermost first, and the context behind them. -/
structure Match (ε : Type) where
  chain : List (Slot ε)
  context : Context ε

/-- What comes of entering a node. -/
inductive Entry (ε : Type)
  /-- The path ends here. -/
  | stop (found : Match ε)
  /-- The path may go on with what is left of the line. -/
  | go (found : Match ε) (rest : Option String)

/-- The longer of two matches, the first when they are equally long. -/
def Match.longer {ε : Type} (a b : Match ε) : Match ε :=
  if a.chain.length < b.chain.length then b else a

namespace Grammar

variable {ε : Type}

def context (g : Grammar ε) (env : ε) : Context ε :=
  { env, limit := g.settings.completionLimit }

/-- An empty slot for a node; the root has none. -/
def slot? (g : Grammar ε) (node : Nat) : Option (Slot ε) :=
  (g.tree.descriptor node).map fun d =>
    { node, descriptor := d, type := g.types.lookup d.name }

/-- Lets a node that is no switch take its token. -/
def enterSlot (slot : Slot ε) (line : Option String) (ctx : Context ε) : Entry ε :=
  match slot.parse line with
  | (_, .error _) => .stop ⟨[], ctx⟩
  | (slot, .ok rest) =>
    let slot := slot.valued ctx.around
    match slot.value ctx.around with
    | .ok _ => .go ⟨[slot], ctx.pushMatched slot⟩ rest
    | .error (.invalid _) => .stop ⟨[slot], ctx.pushMatched slot⟩
    | .error _ => .stop ⟨[], ctx.pushMatched slot⟩

/-- Enters a node: a switch waits, any other node reads the pairs before its token and then its
token. -/
def enter (g : Grammar ε) (node : Nat) (line : Option String) (ctx : Context ε) : Entry ε :=
  match g.slot? node with
  | none => .go ⟨[], ctx⟩ line
  | some slot =>
    if slot.isSwitch then .go ⟨[slot], ctx.pushSwitch slot⟩ line
    else
      match ctx.takePairs line with
      | .stuck ctx => .stop ⟨[], ctx⟩
      | .through line ctx => enterSlot slot line ctx

/-- The context once the pairs behind the last node of a path have been read. -/
def takeTrailing (ctx : Context ε) (line : Option String) : Context ε :=
  match ctx.takePairs line with
  | .stuck ctx => ctx
  | .through _ ctx => ctx

/-- The match from a node down, as far as `levels` go. -/
def resolveWithin (g : Grammar ε) : Nat → Nat → Option String → Context ε → Match ε
  | 0, _, _, ctx => ⟨[], ctx⟩
  | levels + 1, node, line, ctx =>
    match g.enter node line ctx with
    | .stop found => found
    | .go found rest =>
      if g.tree.isLeaf node then { found with context := takeTrailing found.context rest }
      else
        let best : Match ε := (g.tree.children node).foldl
          (fun best child => Match.longer best (g.resolveWithin levels child rest found.context))
          ⟨[], found.context⟩
        ⟨found.chain ++ best.chain, best.context⟩

/-- The match of a line from a node down.  Switches of the path appear in the chain as they
stand in the tree, without a token; the slot that took a value is among the consumed ones of the
context. -/
def resolve (g : Grammar ε) (node : Nat) (line : Option String) (ctx : Context ε) : Match ε :=
  g.resolveWithin g.tree.size node line ctx

theorem enter_root (g : Grammar ε) (line : Option String) (ctx : Context ε)
    (h : g.tree.descriptor Tree.root = none) :
    g.enter Tree.root line ctx = .go ⟨[], ctx⟩ line := by
  simp [enter, slot?, h]

theorem longer_length (a b : Match ε) :
    (a.longer b).chain.length = max a.chain.length b.chain.length := by
  unfold Match.longer
  split <;> omega

end Grammar

end CommandTree
