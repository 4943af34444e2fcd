import CommandTree.Proofs.Resolution

/-!
# Depth of the positional match

The children of a node compete by the length of their chains, and the switches that only wait are
counted in it.  So the child that is followed need not have the most positional slots: what it
lacks in them it may make up in placeholders.

Results:
* `positionals_le_iff`: at each node of a match, the child that is followed has the most positional
  slots exactly when a child that has the most is the first longest, placeholders counted.
* `placeholders_outweigh`: a line that spells one child, and a match that follows another.
-/
namespace CommandTree

variable {ε : Type}

/-- How many slots of a chain stand for nodes that are no switches. -/
def positionals (chain : List (Slot ε)) : Nat := chain.countP fun s => !s.isSwitch

def placeholders (chain : List (Slot ε)) : Nat := chain.countP fun s => s.isSwitch

theorem positionals_add_placeholders (chain : List (Slot ε)) :
    positionals chain + placeholders chain = chain.length := by
  have h := List.length_eq_countP_add_countP (fun s : Slot ε => s.isSwitch) (l := chain)
  have he : chain.countP (fun s => !s.isSwitch) =
      chain.countP fun s => decide ¬ s.isSwitch = true := by
    congr 1
    funext s
    cases s.isSwitch <;> rfl
  rw [positionals, placeholders, he]
  omega

namespace Grammar

/-- A path from one node down to another that every node on the way lets go on: the slots of the
path, the node it comes to, and the line and the context there. -/
inductive Walks (g : Grammar ε) :
    Nat → Option String → Context ε → List (Slot ε) → Nat → Option String → Context ε → Prop
  | here {node : Nat} {line : Option String} {ctx : Context ε} :
      Walks g node line ctx [] node line ctx
  | down {node child last : Nat} {line line' line'' : Option String} {ctx ctx' ctx'' : Context ε}
      {slot : Slot ε} {chain : List (Slot ε)} (below : child ∈ g.tree.children node)
      (passes : g.Passes child line ctx slot line' ctx')
      (rest : Walks g child line' ctx' chain last line'' ctx'') :
      Walks g node line ctx (slot :: chain) last line'' ctx''

variable {g : Grammar ε}

theorem isLeaf_eq_false_of_below {node : Nat} {line : Option String} {ctx : Context ε}
    (h : (g.below node line ctx).chain ≠ []) : g.tree.isLeaf node = false := by
  cases hl : g.tree.isLeaf node with
  | false => rfl
  | true => exact absurd (by simp [below, hl]) h

/-- The rest of a best match is the best match from where the part before it leads. -/
theorem below_append (a : g.tree.Arena) {node : Nat} {line : Option String} {ctx : Context ε}
    {pre post : List (Slot ε)} {slot : Slot ε}
    (split : (g.below node line ctx).chain = pre ++ slot :: post) :
    ∃ last line' ctx', g.Walks node line ctx pre last line' ctx' ∧
      (g.below last line' ctx').chain = slot :: post := by
  induction pre generalizing node line ctx with
  | nil => exact ⟨node, line, ctx, .here, split⟩
  | cons s pre ih =>
    have inner : g.tree.isLeaf node = false :=
      isLeaf_eq_false_of_below (by rw [split]; exact List.cons_ne_nil _ _)
    rcases below_cases inner line ctx with ⟨-, he⟩ | ⟨best, hbest, hne, he⟩
    · rw [he] at split
      cases split
    · have hlt := a.child_lt node best hbest.mem
      rw [he] at split
      rcases resolve_cases a hbest.mem line ctx with ⟨_, rest, ctx₁, h⟩ | ⟨_, ctx₁, h⟩ | h
      · rw [resolve_of_passes a hlt h] at split
        injection split with hs htail
        subst hs
        obtain ⟨last, line', ctx', walks, hb⟩ := ih htail
        exact ⟨last, line', ctx', .down hbest.mem h walks, hb⟩
      · rw [resolve_of_refuses a hlt h] at split
        simp at split
      · exact absurd h hne

theorem firstLongest_of_below (a : g.tree.Arena) {node : Nat} {line : Option String}
    {ctx : Context ε} {slot : Slot ε} {post : List (Slot ε)}
    (h : (g.below node line ctx).chain = slot :: post) :
    FirstLongest (fun c => (g.resolve c line ctx).chain) (g.tree.children node) slot.node ∧
      (g.resolve slot.node line ctx).chain = slot :: post := by
  have inner : g.tree.isLeaf node = false :=
    isLeaf_eq_false_of_below (by rw [h]; exact List.cons_ne_nil _ _)
  rcases below_cases inner line ctx with ⟨-, he⟩ | ⟨best, hbest, hne, he⟩
  · rw [he] at h
    cases h
  · rw [he] at h
    obtain ⟨first, tail, hcons, hfirst⟩ := resolve_head a hbest.mem hne
    rw [hcons] at h
    injection h with hs ht
    subst hs ht
    rw [hfirst]
    exact ⟨hbest, hcons⟩

end Grammar

theorem FirstLongest.unique {chain : Nat → List (Slot ε)} {nodes : List Nat} {b b' : Nat}
    (ascending : nodes.Pairwise (· < ·)) (h : FirstLongest chain nodes b)
    (h' : FirstLongest chain nodes b') : b = b' := by
  have hle := h.length_le h'.mem
  have hle' := h'.length_le h.mem
  rcases Nat.lt_trichotomy b b' with hlt | he | hlt
  · have := h'.length_lt ascending h.mem hlt
    omega
  · exact he
  · have := h.length_lt ascending h'.mem hlt
    omega

namespace Grammar

/-- **Where a match is deepest in positional slots.**  Let a match have `slot` behind `pre`, and let
`pre` lead to `node`.  Among the children of `node`, that of `slot` gives the first longest chain,
so one that has more positional slots has fewer placeholders.  It has the most positional slots
exactly when some child that has the most is also the first longest. -/
theorem positionals_le_iff (g : Grammar ε) (built : g.tree.Built) (line : Option String)
    (ctx : Context ε) (pre post : List (Slot ε)) (slot : Slot ε)
    (split : (g.resolve Tree.root line ctx).chain = pre ++ slot :: post) :
    ∃ node line' ctx', g.Walks Tree.root line ctx pre node line' ctx' ∧
      FirstLongest (fun c => (g.resolve c line' ctx').chain) (g.tree.children node) slot.node ∧
      (g.resolve slot.node line' ctx').chain = slot :: post ∧
      (∀ c ∈ g.tree.children node,
        positionals (g.resolve c line' ctx').chain + placeholders (g.resolve c line' ctx').chain ≤
          positionals (slot :: post) + placeholders (slot :: post)) ∧
      ((∀ c ∈ g.tree.children node,
          positionals (g.resolve c line' ctx').chain ≤ positionals (slot :: post)) ↔
        ∃ deepest ∈ g.tree.children node,
          (∀ c ∈ g.tree.children node, positionals (g.resolve c line' ctx').chain ≤
            positionals (g.resolve deepest line' ctx').chain) ∧
          FirstLongest (fun c => (g.resolve c line' ctx').chain) (g.tree.children node)
            deepest) := by
  have a := built.arena
  rw [resolve_root a] at split
  obtain ⟨node, line', ctx', walks, hbelow⟩ := below_append a split
  obtain ⟨first, hchain⟩ := firstLongest_of_below a hbelow
  refine ⟨node, line', ctx', walks, first, hchain, ?_, ?_, ?_⟩
  · intro c hc
    have h := first.length_le hc
    simp only [hchain] at h
    rw [positionals_add_placeholders, positionals_add_placeholders]
    exact h
  · intro h
    exact ⟨slot.node, first.mem, by simpa only [hchain] using h, first⟩
  · rintro ⟨deepest, -, h, longest⟩
    rw [longest.unique (a.ascending node) first, hchain] at h
    exact h

end Grammar

/-! ## A line whose match is not the deepest -/

def crowdedTree : Tree Unit :=
  ((Tree.empty.insert Tree.root "foo").2.insert Tree.root
    "@string(switch=a, default=x) @string(switch=b, default=y)").2

def crowdedGrammar : Grammar Unit := ⟨crowdedTree, .standard, {}⟩

theorem crowdedTree_built : crowdedTree.Built := .insert_root (.insert_root .empty _) _

/-- The line `foo` spells the first child, and the match follows the two switches beside it, of
which it says nothing. -/
theorem placeholders_outweigh :
    nodesOf (crowdedGrammar.resolve Tree.root (some "foo") (crowdedGrammar.context ())).chain =
        [2, 3] ∧
      ¬ ∀ c ∈ crowdedTree.children Tree.root,
        positionals (crowdedGrammar.resolve c (some "foo") (crowdedGrammar.context ())).chain ≤
          positionals
            (crowdedGrammar.resolve 2 (some "foo") (crowdedGrammar.context ())).chain := by
  decide +kernel

/-- The match of `foo` stands with its second switch below its first, where it is the longest. -/
theorem positionals_le_iff_crowded :
    crowdedTree.Built ∧ ∃ first second,
      (crowdedGrammar.resolve Tree.root (some "foo") (crowdedGrammar.context ())).chain =
        [first] ++ second :: [] ∧
      ∃ node line ctx, crowdedGrammar.Walks Tree.root (some "foo") (crowdedGrammar.context ())
          [first] node line ctx ∧
        FirstLongest (fun c => (crowdedGrammar.resolve c line ctx).chain)
          (crowdedTree.children node) second.node := by
  have nodes : nodesOf (crowdedGrammar.resolve Tree.root (some "foo")
      (crowdedGrammar.context ())).chain = [2, 3] := by decide +kernel
  obtain ⟨first, second, chain⟩ : ∃ first second, (crowdedGrammar.resolve Tree.root (some "foo")
      (crowdedGrammar.context ())).chain = [first, second] := by
    rw [← List.length_eq_two, ← length_nodesOf, nodes]
    rfl
  obtain ⟨node, line, ctx, walks, longest, -⟩ := Grammar.positionals_le_iff crowdedGrammar
    crowdedTree_built (some "foo") (crowdedGrammar.context ()) [first] [] second chain
  exact ⟨crowdedTree_built, first, second, chain, node, line, ctx, walks, longest⟩
end CommandTree
