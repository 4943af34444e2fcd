import CommandTree.Handler
import CommandTree.Segment

/-!
# Trees of argument nodes

The nodes of a tree are numbered in the order in which they were added; node 0 is the root, the
only one without a descriptor.  A path is added by `insert`: each step goes to the child of that
name, which is added when there is none, and a segment with alternatives branches into all of
them.

Handlers are kept beside the nodes, the latest binding first.

Results:
* `size_insert_le`: inserting never removes a node.
* `handler?_bind`: a binding sets one slot of one node.
-/
namespace CommandTree

/-- A node with its parent and its children in the order in which they were added. -/
structure Node where
  parent : Option Nat
  children : List Nat := []
  descriptor : Option Descriptor
deriving Inhabited

/-- A handler bound to a node for one kind of occasion. -/
structure Binding (ε : Type) where
  node : Nat
  kind : HandlerKind
  handler : Handler ε

structure Tree (ε : Type) where
  nodes : Array Node := #[{ parent := none, descriptor := none }]
  bindings : List (Binding ε) := []

namespace Tree

variable {ε : Type}

def empty : Tree ε := {}

def root : Nat := 0

/-- The number of nodes, the root included. -/
def size (t : Tree ε) : Nat := t.nodes.size

def isEmpty (t : Tree ε) : Bool := t.size == 1

/-- The children of a node, first added first. -/
def children (t : Tree ε) (node : Nat) : List Nat :=
  match t.nodes[node]? with
  | some n => n.children
  | none => []

/-- The descriptor of a node; the root has none. -/
def descriptor (t : Tree ε) (node : Nat) : Option Descriptor :=
  t.nodes[node]?.bind Node.descriptor

/-- The parent of a node; the root has none. -/
def parent (t : Tree ε) (node : Nat) : Option Nat := t.nodes[node]?.bind Node.parent

def isLeaf (t : Tree ε) (node : Nat) : Bool := (t.children node).isEmpty

/-- The number of steps from `node` up to the root, as far as `steps` go. -/
def depthWithin (t : Tree ε) : Nat → Nat → Nat
  | 0, _ => 0
  | steps + 1, node =>
    match t.parent node with
    | some p => t.depthWithin steps p + 1
    | none => 0

/-- The number of steps from a node up to the root. -/
def depth (t : Tree ε) (node : Nat) : Nat := t.depthWithin t.size node

/-- The first child with the name of the descriptor. -/
def findChild (t : Tree ε) (node : Nat) (d : Descriptor) : Option Nat :=
  (t.children node).find? fun child => t.descriptor child == some d

/-- A new last child. -/
def addChild (t : Tree ε) (node : Nat) (d : Descriptor) : Tree ε :=
  { t with
    nodes := (t.nodes.modify node fun n => { n with children := n.children ++ [t.size] }).push
      { parent := some node, descriptor := some d } }

/-- The child with the name of the descriptor, added when there is none. -/
def child (t : Tree ε) (node : Nat) (d : Descriptor) : Nat × Tree ε :=
  match t.findChild node d with
  | some found => (found, t)
  | none => (t.size, t.addChild node d)

/-- The children of one node for all alternatives of a segment. -/
def grow (t : Tree ε) (node : Nat) : Segment → List Nat × Tree ε
  | [] => ([], t)
  | d :: ds =>
    let (first, t) := t.child node d
    let (rest, t) := t.grow node ds
    (first :: rest, t)

/-- The children of several nodes for all alternatives of a segment. -/
def growAll (t : Tree ε) (segment : Segment) : List Nat → List Nat × Tree ε
  | [] => ([], t)
  | node :: nodes =>
    let (first, t) := t.grow node segment
    let (rest, t) := t.growAll segment nodes
    (first ++ rest, t)

/-- Follows segments from several nodes at once, to the nodes where they end. -/
def growPath (t : Tree ε) (nodes : List Nat) : List Segment → List Nat × Tree ε
  | [] => (nodes, t)
  | segment :: rest =>
    let (next, t) := t.growAll segment nodes
    t.growPath next rest

/-- Adds the path of a spec below a node; gives the nodes where the path ends, the last segment
varying fastest. -/
def insert (t : Tree ε) (node : Nat) (path : String) : List Nat × Tree ε :=
  t.growPath [node] (Segment.parse path)

/-- Binds a handler to a node, in place of the one bound before. -/
def bind (t : Tree ε) (node : Nat) (kind : HandlerKind) (handler : Handler ε) : Tree ε :=
  { t with bindings := ⟨node, kind, handler⟩ :: t.bindings }

/-- The handler bound to a node for an occasion. -/
def handler? (t : Tree ε) (node : Nat) (kind : HandlerKind) : Option (Handler ε) :=
  (t.bindings.find? fun b => b.node == node && b.kind == kind).map Binding.handler

/-- Adds the path of a spec below the root and binds a handler to every node where it ends. -/
def bindPath (t : Tree ε) (path : String) (kind : HandlerKind) (handler : Handler ε) : Tree ε :=
  let (leaves, t) := t.insert root path
  leaves.foldl (fun t leaf => t.bind leaf kind handler) t

def line (t : Tree ε) (indent node : Nat) : String :=
  let name := match t.descriptor node with
    | some d => d.text
    | none => "<root>"
  let bound := [(HandlerKind.execute, "execute"), (.default, "default"), (.error, "error")].filter
    fun (kind, _) => (t.handler? node kind).isSome
  let flags := if bound.isEmpty then "" else " [" ++ ", ".intercalate (bound.map (·.2)) ++ "]"
  "".pushn ' ' indent ++ name ++ flags ++ "\n"

/-- The lines of a node and of what is below it, as far as `levels` go. -/
def listingWithin (t : Tree ε) : Nat → Nat → Nat → String
  | 0, _, _ => ""
  | levels + 1, indent, node =>
    t.line indent node ++
      String.join ((t.children node).map fun child => t.listingWithin levels (indent + 1) child)

def listing (t : Tree ε) : String := t.listingWithin t.size 0 root

theorem size_addChild (t : Tree ε) (node : Nat) (d : Descriptor) :
    (t.addChild node d).size = t.size + 1 := by
  simp [addChild, size]

theorem size_child_le (t : Tree ε) (node : Nat) (d : Descriptor) :
    t.size ≤ (t.child node d).2.size := by
  unfold child
  split
  · exact Nat.le_refl _
  · simp only [size_addChild]; omega

theorem size_grow (t : Tree ε) (node : Nat) (ds : Segment) : t.size ≤ (t.grow node ds).2.size := by
  induction ds generalizing t with
  | nil => exact Nat.le_refl _
  | cons d ds ih => exact Nat.le_trans (size_child_le t node d) (ih _)

theorem size_growAll (t : Tree ε) (segment : Segment) (nodes : List Nat) :
    t.size ≤ (t.growAll segment nodes).2.size := by
  induction nodes generalizing t with
  | nil => exact Nat.le_refl _
  | cons n ns ih => exact Nat.le_trans (size_grow t n segment) (ih _)

theorem size_growPath (t : Tree ε) (nodes : List Nat) (segments : List Segment) :
    t.size ≤ (t.growPath nodes segments).2.size := by
  induction segments generalizing t nodes with
  | nil => exact Nat.le_refl _
  | cons s ss ih => exact Nat.le_trans (size_growAll t s nodes) (ih _ _)

theorem size_insert_le (t : Tree ε) (node : Nat) (path : String) :
    t.size ≤ (t.insert node path).2.size :=
  size_growPath t [node] _

/-- A binding sets one slot of one node and leaves all others. -/
theorem handler?_bind (t : Tree ε) (node other : Nat) (kind kind' : HandlerKind)
    (h : Handler ε) :
    (t.bind node kind h).handler? other kind' =
      if other = node ∧ kind' = kind then some h else t.handler? other kind' := by
  unfold handler? bind
  by_cases hn : other = node
  · by_cases hk : kind' = kind
    · simp [hn, hk]
    · simp [hn, hk, Ne.symm hk]
  · simp [hn, Ne.symm hn]

end Tree

end CommandTree
