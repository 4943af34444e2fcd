import CommandTree.Proofs.DepthFirst

/-!
# What a listing says

The listing goes down the lists of children and counts the levels as it goes; the depth of a node
is counted up the parent links.  In an arena both count the nodes on the one way between the root
and the node, so the listing is the rows of all nodes (`row`), each of which looks at its own node
alone, one after the other in depth-first order.

Results:
* `line_eq`: a line of the listing is the text of a row.
* `Arena.row_tells`: what the row of a node says of it.
* `RootPath.listingWithin_eq`: the lines from a node down are those of the nodes met there.
* `listing_tells`: the listing of a built tree.
-/
namespace CommandTree

def HandlerKind.word : HandlerKind → String
  | .execute => "execute"
  | .default => "default"
  | .error => "error"

namespace Tree

variable {ε : Type} {t : Tree ε}

/-- What a listing says of a node. -/
structure Row where
  indent : Nat
  name : String
  bound : List HandlerKind

/-- The occasions in brackets, nothing when there are none. -/
def Row.flags (r : Row) : String :=
  if r.bound.isEmpty then "" else " [" ++ ", ".intercalate (r.bound.map HandlerKind.word) ++ "]"

def Row.text (r : Row) : String := "".pushn ' ' r.indent ++ r.name ++ r.flags ++ "\n"

/-- The row of a node, indented by its depth. -/
def row (t : Tree ε) (node : Nat) : Row where
  indent := t.depth node
  name := (t.descriptor node).elim "<root>" Descriptor.text
  bound := [.execute, .default, .error].filter fun kind => (t.handler? node kind).isSome

/-- The row says of the node how many others are above it, what it is, and for which occasions a
handler is bound to it. -/
structure Row.Tells (t : Tree ε) (node : Nat) (r : Row) : Prop where
  depth : r.indent = t.depth node
  climbs : t.Climbs node r.indent
  name : node = root ∧ r.name = "<root>" ∨
    node ≠ root ∧ ∃ d, t.descriptor node = some d ∧ r.name = d.text
  ordered : r.bound.Sublist [.execute, .default, .error]
  mem_bound : ∀ kind, kind ∈ r.bound ↔ ∃ handler, t.handler? node kind = some handler

theorem line_eq (t : Tree ε) (indent node : Nat) :
    t.line indent node = ({ t.row node with indent } : Row).text := by
  have words : [(HandlerKind.execute, "execute"), (.default, "default"), (.error, "error")] =
      [.execute, .default, .error].map fun kind => (kind, kind.word) := rfl
  simp only [line, words, List.filter_map, Row.text, Row.flags, row, List.isEmpty_map, List.map_map]
  cases t.descriptor node <;> rfl

theorem Arena.row_tells (a : t.Arena) {node : Nat} (inside : node < t.size) :
    (t.row node).Tells t node where
  depth := rfl
  climbs := by
    obtain ⟨path, way⟩ := a.exists_rootPath inside
    have climbs := way.climbs a
    rwa [← way.depth_eq a] at climbs
  name := by
    by_cases top : node = root
    · refine .inl ⟨top, ?_⟩
      rw [row, top, a.descriptor_root]
      rfl
    · obtain ⟨d, described⟩ := a.described node (Nat.pos_of_ne_zero top) inside
      refine .inr ⟨top, d, described, ?_⟩
      rw [row, described]
      rfl
  ordered := List.filter_sublist
  mem_bound kind := by
    rw [row, List.mem_filter, Option.isSome_iff_exists]
    exact and_iff_right (by cases kind <;> decide)

/-! ## Lines in depth-first order -/

theorem join_flatMap {α : Type} (f : α → List String) (xs : List α) :
    String.join (xs.flatMap f) = String.join (xs.map fun x => String.join (f x)) := by
  induction xs with
  | nil => rfl
  | cons x xs ih =>
    rw [List.flatMap_cons, String.join_append, ih, List.map_cons, String.join_cons]

/-- The lines from a node down are those of the nodes met there, when the count of levels begins
with the nodes on the way to the node. -/
theorem RootPath.listingWithin_eq (a : t.Arena) {node : Nat} {path : List Nat}
    (above : t.RootPath node path) (levels : Nat) :
    t.listingWithin levels path.length node =
      String.join ((t.preorderWithin levels node).map fun n => (t.row n).text) := by
  induction levels generalizing node path with
  | zero => rfl
  | succ levels ih =>
    have here : t.line path.length node = (t.row node).text := by
      rw [line_eq, ← above.depth_eq a]
      rfl
    have below : (t.children node).map (t.listingWithin levels (path.length + 1)) =
        (t.children node).map fun c =>
          String.join ((t.preorderWithin levels c).map fun n => (t.row n).text) := by
      refine List.map_congr_left fun c hc => ?_
      have lines := ih (.child above hc)
      rwa [List.length_append, List.length_singleton] at lines
    rw [listingWithin, here, below, ← join_flatMap, ← List.map_flatMap, preorderWithin,
      List.map_cons, String.join_cons]

/-- **The listing tells of every node, once and at its depth.**  The listing of a built tree is the
rows of its nodes, one after the other.  All nodes are there, each once, and those that a walk down
the tree meets earlier come first.  The row of a node has as many blanks as there are steps up the
parent links to the root, the node as it was declared, or `<root>` for the root and for no other,
and in brackets the occasions for which a handler is bound to the node, and no others. -/
theorem listing_tells (t : Tree ε) (built : t.Built) :
    t.listing = String.join ((t.preorder root).map fun n => (t.row n).text) ∧
      (t.preorder root).Perm (List.range t.size) ∧ (t.preorder root).Pairwise t.Precedes ∧
      ∀ n < t.size, (t.row n).Tells t n :=
  have a := built.arena
  ⟨RootPath.listingWithin_eq a .root t.size, a.preorder_perm, a.pairwise_preorder a.nonempty,
    fun _ inside => a.row_tells inside⟩

/-- Takes its arguments and does nothing with them. -/
def mute (arity : Nat) : Handler Unit := ⟨arity, fun _ _ => { env := () }⟩

def larderTree : Tree Unit :=
  let taken := (empty.insert root "get @int(min=1)").2.bind 2 .execute (mute 1)
  let stored := ((taken.insert root "put").2.bind 3 .default (mute 0)).bind 3 .execute (mute 0)
  (stored.insert 1 "all").2.bind root .error (mute 1)

theorem larderTree_built : larderTree.Built := by
  refine .bind (.insert (.bind (.bind (.insert_root (.bind (.insert_root .empty _) ?_ _ _) _)
    ?_ _ _) ?_ _ _) ?_ _) ?_ _ _ <;> decide +kernel

/-- The node 4 stands below `get` and thus before `put`, which was added earlier.  At `put` the
occasions stand in their own order and not in that of the bindings. -/
theorem listing_tells_larder :
    larderTree.Built ∧ larderTree.preorder root = [0, 1, 2, 4, 3] ∧
      larderTree.listing =
        "<root> [error]\n get()\n  @int(min=1) [execute]\n  all()\n put() [execute, default]\n" ∧
      (larderTree.preorder root).Perm (List.range larderTree.size) ∧
      (larderTree.preorder root).Pairwise larderTree.Precedes ∧
      ∀ n < larderTree.size, (larderTree.row n).Tells larderTree n := by
  obtain ⟨lines, every, order, tells⟩ := listing_tells larderTree larderTree_built
  refine ⟨larderTree_built, by decide +kernel, ?_, every, order, tells⟩
  rw [lines]
  decide +kernel

end Tree

end CommandTree
