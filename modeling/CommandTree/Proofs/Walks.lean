import CommandTree.Proofs.PositionalDepth
import CommandTree.Proofs.RootPath

/-!
# Walks from the root

The nodes of a walk from the root are the one path there is to where it comes.  A node does one
thing with a line and a context, so the line and the context behind a walk depend on nothing but
the nodes.  A walk is part of a derivable path, and no match of the line is shorter.

Results:
* `Walks.rootPath`: the nodes of a walk from the root.
* `Walks.unique_of_nodes`: walks by the same nodes leave the same.
* `Walks.length_le`: a match of the line is at least as long as a walk.
-/
namespace CommandTree.Grammar

variable {ε : Type} {g : Grammar ε}

theorem Passes.unique {node : Nat} {line rest rest' : Option String} {ctx ctx' ctx'' : Context ε}
    {slot slot' : Slot ε} (h : g.Passes node line ctx slot rest ctx')
    (h' : g.Passes node line ctx slot' rest' ctx'') :
    slot = slot' ∧ rest = rest' ∧ ctx' = ctx'' := by
  have same := (enter_of_passes h).symm.trans (enter_of_passes h')
  cases same
  exact ⟨rfl, rfl, rfl⟩

theorem Walks.last_step {node last : Nat} {line line' : Option String} {ctx ctx' : Context ε}
    {chain : List (Slot ε)} (h : g.Walks node line ctx chain last line' ctx') (moved : chain ≠ []) :
    ∃ pre slot above line₁ ctx₁, chain = pre ++ [slot] ∧
      g.Walks node line ctx pre above line₁ ctx₁ ∧ last ∈ g.tree.children above ∧
      g.Passes last line₁ ctx₁ slot line' ctx' := by
  induction h with
  | here => exact absurd rfl moved
  | @down node child last line line₁ line' ctx ctx₁ ctx' slot chain below passes rest ih =>
    by_cases stopped : chain = []
    · subst stopped
      cases rest
      exact ⟨[], slot, node, line, ctx, rfl, .here, below, passes⟩
    · obtain ⟨pre, slot', above, line₂, ctx₂, rfl, walk, below', passes'⟩ := ih stopped
      exact ⟨slot :: pre, slot', above, line₂, ctx₂, rfl, .down below passes walk, below', passes'⟩

theorem Walks.snoc {node above last : Nat} {line line₁ line' : Option String}
    {ctx ctx₁ ctx' : Context ε} {chain : List (Slot ε)} {slot : Slot ε}
    (h : g.Walks node line ctx chain above line₁ ctx₁) (below : last ∈ g.tree.children above)
    (passes : g.Passes last line₁ ctx₁ slot line' ctx') :
    g.Walks node line ctx (chain ++ [slot]) last line' ctx' := by
  induction h with
  | here => exact .down below passes .here
  | down below' passes' _ ih => exact .down below' passes' (ih below passes)

theorem Walks.path_append {node last : Nat} {line line' : Option String} {ctx ctx' : Context ε}
    {chain : List (Slot ε)} (h : g.Walks node line ctx chain last line' ctx') {path : List Nat}
    (start : g.tree.RootPath node path) : g.tree.RootPath last (path ++ nodesOf chain) := by
  induction h generalizing path with
  | here => simpa using start
  | down below passes _ ih =>
    have longer := ih (start.child below)
    rw [List.append_assoc] at longer
    rw [nodesOf_cons, passes.node_eq]
    exact longer

/-- The nodes of a walk from the root are the path to where it comes. -/
theorem Walks.rootPath {last : Nat} {line line' : Option String} {ctx ctx' : Context ε}
    {chain : List (Slot ε)} (h : g.Walks Tree.root line ctx chain last line' ctx') :
    g.tree.RootPath last (nodesOf chain) :=
  h.path_append .root

/-- Walks by the same nodes leave the same line and the same context. -/
theorem Walks.unique_of_nodes {node last last' : Nat} {line line' line'' : Option String}
    {ctx ctx' ctx'' : Context ε} {chain chain' : List (Slot ε)}
    (h : g.Walks node line ctx chain last line' ctx')
    (h' : g.Walks node line ctx chain' last' line'' ctx'')
    (nodes : nodesOf chain = nodesOf chain') :
    chain = chain' ∧ line' = line'' ∧ ctx' = ctx'' := by
  induction h generalizing chain' with
  | here =>
    cases h' with
    | here => exact ⟨rfl, rfl, rfl⟩
    | down _ _ _ => cases nodes
  | down _ passes _ ih =>
    cases h' with
    | here => cases nodes
    | down _ passes' rest' =>
      rw [nodesOf_cons, nodesOf_cons, List.cons.injEq] at nodes
      -- the two go to the same child, and this does the same in both
      obtain rfl := passes.node_eq.symm.trans (nodes.1.trans passes'.node_eq)
      obtain ⟨rfl, rfl, rfl⟩ := passes.unique passes'
      obtain ⟨rfl, rfl, rfl⟩ := ih rest' nodes.2
      exact ⟨rfl, rfl, rfl⟩

theorem Walks.derives {node last : Nat} {line line' : Option String} {ctx ctx' ctx'' : Context ε}
    {chain chain' : List (Slot ε)} (h : g.Walks node line ctx chain last line' ctx')
    (rest : g.Derives last line' ctx' chain' ctx'') :
    g.Derives node line ctx (chain ++ chain') ctx'' := by
  induction h with
  | here => exact rest
  | down below passes _ ih => exact .step below passes (ih rest)

/-- A match of the line is at least as long as a walk. -/
theorem Walks.length_le (a : g.tree.Arena) {last : Nat} {line line' : Option String}
    {ctx ctx' : Context ε} {chain : List (Slot ε)}
    (h : g.Walks Tree.root line ctx chain last line' ctx') :
    chain.length ≤ (g.resolve Tree.root line ctx).chain.length := by
  have rest := below_derives a (h.rootPath.lt_size a) line' ctx'
  have best := (below_outranks a a.nonempty (h.derives rest)).length_le
  rw [length_nodesOf, length_nodesOf, List.length_append, ← resolve_root a] at best
  exact Nat.le_trans (Nat.le_add_right _ _) best

end CommandTree.Grammar
