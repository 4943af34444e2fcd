import CommandTree.Proofs.Arena
import CommandTree.Proofs.Derivation
import Mathlib.Data.List.Basic

/-!
# The match is the best derivable path

A match looks one level ahead at a time: at each node it follows the child with the longest chain,
the first of equally long ones.  The state behind a node depends on the path alone, so this greedy
choice is optimal among all derivable paths, and the context behind the match is the one that the
chosen path leaves: nothing of a branch that was given up stays.

The recursion of a match is bounded by the number of nodes.  On an arena the bound is never met
(`resolveWithin_eq`), which gives the match without it (`resolve_eq`).

Results:
* `resolve_eq`: a match from a node is what entering it comes to, followed by the best match below.
* `below_cases`: below a node stands the first longest of the children's matches.
* `resolve_outranks`: the match of a line is derivable, and no derivable path is longer, or as long
  and earlier in the tree.
-/
namespace CommandTree

variable {ε : Type}

/-- Longer, or as long and the same or earlier: where the two part, it goes to the node that was
added first. -/
def Outranks (p q : List Nat) : Prop :=
  q.length < p.length ∨ (q.length = p.length ∧ (p = q ∨ List.Lex (· < ·) p q))

theorem Outranks.refl (p : List Nat) : Outranks p p := .inr ⟨rfl, .inl rfl⟩

theorem Outranks.nil (p : List Nat) : Outranks p [] := by
  cases p with
  | nil => exact .refl []
  | cons a p => exact .inl (by simp)

theorem Outranks.cons {p q : List Nat} (h : Outranks p q) (a : Nat) :
    Outranks (a :: p) (a :: q) := by
  rcases h with h | ⟨h, rfl | hlex⟩
  · exact .inl (by simpa using h)
  · exact .refl _
  · exact .inr ⟨by simpa using h, .inr (.cons hlex)⟩

theorem Outranks.of_head_lt {p q : List Nat} {a b : Nat} (hab : a < b)
    (h : q.length ≤ p.length) : Outranks (a :: p) (b :: q) := by
  rcases Nat.lt_or_eq_of_le h with h | h
  · exact .inl (by simpa using h)
  · exact .inr ⟨by simpa using h, .inr (.rel hab)⟩

theorem Outranks.length_le {p q : List Nat} (h : Outranks p q) : q.length ≤ p.length := by
  rcases h with h | h <;> omega

/-- The first of the longest chains that the nodes give. -/
def FirstLongest (chain : Nat → List (Slot ε)) (nodes : List Nat) (best : Nat) : Prop :=
  ∃ before after, nodes = before ++ best :: after ∧
    (∀ b ∈ before, (chain b).length < (chain best).length) ∧
      ∀ a ∈ after, (chain a).length ≤ (chain best).length

namespace FirstLongest

variable {chain : Nat → List (Slot ε)} {nodes : List Nat} {best : Nat}

theorem mem (h : FirstLongest chain nodes best) : best ∈ nodes := by
  obtain ⟨before, after, rfl, -, -⟩ := h
  simp

theorem length_le (h : FirstLongest chain nodes best) {n : Nat} (hn : n ∈ nodes) :
    (chain n).length ≤ (chain best).length := by
  obtain ⟨before, after, rfl, hb, ha⟩ := h
  rcases List.mem_append.1 hn with hn | hn
  · exact Nat.le_of_lt (hb n hn)
  · rcases List.mem_cons.1 hn with rfl | hn
    · exact Nat.le_refl _
    · exact ha n hn

theorem cons (h : FirstLongest chain nodes best) {n : Nat}
    (hn : (chain n).length < (chain best).length) : FirstLongest chain (n :: nodes) best := by
  obtain ⟨before, after, rfl, hb, ha⟩ := h
  refine ⟨n :: before, after, rfl, ?_, ha⟩
  intro b hb'
  rcases List.mem_cons.1 hb' with rfl | hb'
  · exact hn
  · exact hb b hb'

theorem length_lt (h : FirstLongest chain nodes best) (ascending : nodes.Pairwise (· < ·)) {n : Nat}
    (hn : n ∈ nodes) (hlt : n < best) : (chain n).length < (chain best).length := by
  obtain ⟨before, after, rfl, hb, -⟩ := h
  rcases List.mem_append.1 hn with hn | hn
  · exact hb n hn
  · have := (List.pairwise_append.1 ascending).2.1
    rcases List.mem_cons.1 hn with rfl | hn
    · omega
    · have := List.rel_of_pairwise_cons this hn
      omega

end FirstLongest

namespace Grammar

/-- Keeping the longer match at each step leaves the first longest, or what was there before. -/
theorem foldl_longer (f : Nat → Match ε) (nodes : List Nat) (init : Match ε) :
    ((∀ n ∈ nodes, (f n).chain.length ≤ init.chain.length) ∧
        nodes.foldl (fun best n => best.longer (f n)) init = init) ∨
      ∃ best, FirstLongest (fun n => (f n).chain) nodes best ∧
        init.chain.length < (f best).chain.length ∧
          nodes.foldl (fun best n => best.longer (f n)) init = f best := by
  induction nodes generalizing init with
  | nil => exact .inl ⟨by simp, rfl⟩
  | cons n nodes ih =>
    rw [List.foldl_cons]
    by_cases hn : init.chain.length < (f n).chain.length
    · rw [show init.longer (f n) = f n from if_pos hn]
      rcases ih (f n) with ⟨hall, he⟩ | ⟨best, hbest, hlt, he⟩
      · exact .inr ⟨n, ⟨[], nodes, rfl, by simp, hall⟩, hn, he⟩
      · exact .inr ⟨best, hbest.cons hlt, by omega, he⟩
    · rw [show init.longer (f n) = init from if_neg hn]
      rcases ih init with ⟨hall, he⟩ | ⟨best, hbest, hlt, he⟩
      · refine .inl ⟨?_, he⟩
        intro m hm
        rcases List.mem_cons.1 hm with rfl | hm
        · omega
        · exact hall m hm
      · exact .inr ⟨best, hbest.cons (by omega), hlt, he⟩

/-! ## The match without its bound -/

/-- The best match below a node that has been left with this line and this context. -/
def below (g : Grammar ε) (node : Nat) (line : Option String) (ctx : Context ε) : Match ε :=
  if g.tree.isLeaf node then ⟨[], takeTrailing ctx line⟩
  else
    (g.tree.children node).foldl (fun best child => best.longer (g.resolve child line ctx))
      ⟨[], ctx⟩

variable {g : Grammar ε}

theorem resolveWithin_eq (a : g.tree.Arena) {levels levels' node : Nat}
    (hn : node < g.tree.size) (h : g.tree.size ≤ node + levels)
    (h' : g.tree.size ≤ node + levels') (line : Option String) (ctx : Context ε) :
    g.resolveWithin levels node line ctx = g.resolveWithin levels' node line ctx := by
  induction levels generalizing levels' node line ctx with
  | zero => omega
  | succ levels ih =>
    cases levels' with
    | zero => omega
    | succ levels' =>
      simp only [resolveWithin]
      cases g.enter node line ctx with
      | stop found => rfl
      | go found rest =>
        simp only
        split
        · rfl
        · have hf := List.foldl_ext
            (fun best child => Match.longer best (g.resolveWithin levels child rest found.context))
            (fun best child => Match.longer best (g.resolveWithin levels' child rest found.context))
            ⟨[], found.context⟩ (l := g.tree.children node) fun best c hc => by
              have h1 := a.lt_child node c hc
              have h2 := a.child_lt node c hc
              rw [ih h2 (by omega) (by omega : g.tree.size ≤ c + levels')]
          rw [hf]

/-- A match is what entering its node comes to, followed by the best match below. -/
theorem resolve_eq (a : g.tree.Arena) {node : Nat} (hn : node < g.tree.size)
    (line : Option String) (ctx : Context ε) :
    g.resolve node line ctx =
      match g.enter node line ctx with
      | .stop found => found
      | .go found rest =>
        ⟨found.chain ++ (g.below node rest found.context).chain,
          (g.below node rest found.context).context⟩ := by
  have hs := resolveWithin_eq a hn (Nat.le_add_left _ _)
    (by omega : g.tree.size ≤ node + (g.tree.size + 1)) line ctx
  rw [resolve, hs, resolveWithin]
  cases g.enter node line ctx with
  | stop found => rfl
  | go found rest =>
    simp only [below]
    split
    · simp
    · have hf := List.foldl_ext
        (fun best child => Match.longer best (g.resolveWithin g.tree.size child rest found.context))
        (fun best child => Match.longer best (g.resolve child rest found.context))
        ⟨[], found.context⟩ (l := g.tree.children node) fun best c hc => rfl
      rw [hf]

theorem slot?_child (a : g.tree.Arena) {node child : Nat} (h : child ∈ g.tree.children node) :
    ∃ s, g.slot? child = some s := by
  have h1 := a.lt_child node child h
  obtain ⟨d, hd⟩ := a.described child (by omega) (a.child_lt node child h)
  exact ⟨_, by rw [slot?, hd]; rfl⟩

theorem slot?_eq {node : Nat} {name : String}
    {entries : List (String × String)}
    (h : (g.tree.descriptor node).map (fun d => (d.name, d.params.entries)) =
      some (name, entries)) :
    g.slot? node = some { node, descriptor := ⟨name, ⟨entries⟩⟩, type := g.types.lookup name } := by
  obtain ⟨⟨_, ⟨_⟩⟩, hd, he⟩ := Option.map_eq_some_iff.1 h
  cases he
  rw [slot?, hd]
  rfl

theorem resolve_root (a : g.tree.Arena) (line : Option String) (ctx : Context ε) :
    g.resolve Tree.root line ctx = g.below Tree.root line ctx := by
  rw [resolve_eq a a.nonempty, enter_root g line ctx a.descriptor_root]
  rfl

theorem resolve_of_passes (a : g.tree.Arena) {node : Nat} (hn : node < g.tree.size)
    {line rest : Option String} {ctx ctx' : Context ε} {slot : Slot ε}
    (h : g.Passes node line ctx slot rest ctx') :
    g.resolve node line ctx =
      ⟨slot :: (g.below node rest ctx').chain, (g.below node rest ctx').context⟩ := by
  rw [resolve_eq a hn, enter_of_passes h]
  rfl

theorem resolve_of_refuses (a : g.tree.Arena) {node : Nat} (hn : node < g.tree.size)
    {line : Option String} {ctx ctx' : Context ε} {slot : Slot ε}
    (h : g.Refuses node line ctx slot ctx') : g.resolve node line ctx = ⟨[slot], ctx'⟩ := by
  rw [resolve_eq a hn, enter_of_refuses h]

/-- A match that has a chain begins with a node that lets the path go on or ends it. -/
theorem resolve_cases (a : g.tree.Arena) {node child : Nat} (h : child ∈ g.tree.children node)
    (line : Option String) (ctx : Context ε) :
    (∃ slot rest ctx', g.Passes child line ctx slot rest ctx') ∨
      (∃ slot ctx', g.Refuses child line ctx slot ctx') ∨
        (g.resolve child line ctx).chain = [] := by
  obtain ⟨s, hs⟩ := slot?_child a h
  rcases enter_cases hs line ctx with passes | refuses | ⟨ctx', he⟩
  · exact .inl passes
  · exact .inr (.inl refuses)
  · refine .inr (.inr ?_)
    rw [resolve_eq a (a.child_lt node child h), he]

/-- Below a node that has children stands the first longest of their matches, if one of them has a
chain at all. -/
theorem below_cases {node : Nat} (inner : g.tree.isLeaf node = false) (line : Option String)
    (ctx : Context ε) :
    ((∀ c ∈ g.tree.children node, (g.resolve c line ctx).chain = []) ∧
        g.below node line ctx = ⟨[], ctx⟩) ∨
      ∃ best, FirstLongest (fun c => (g.resolve c line ctx).chain) (g.tree.children node) best ∧
        (g.resolve best line ctx).chain ≠ [] ∧ g.below node line ctx = g.resolve best line ctx := by
  have hb : g.below node line ctx = (g.tree.children node).foldl
      (fun best child => best.longer (g.resolve child line ctx)) ⟨[], ctx⟩ := by
    simp [below, inner]
  rcases foldl_longer (fun c => g.resolve c line ctx) (g.tree.children node) ⟨[], ctx⟩ with
    ⟨hall, he⟩ | ⟨best, hbest, hlt, he⟩
  · refine .inl ⟨?_, hb.trans he⟩
    intro c hc
    have := hall c hc
    exact List.length_eq_zero_iff.1 (by simpa using this)
  · exact .inr ⟨best, hbest, List.ne_nil_of_length_pos hlt, hb.trans he⟩

/-! ## Greedy is optimal -/

theorem below_derives (a : g.tree.Arena) {node : Nat} (hn : node < g.tree.size)
    (line : Option String) (ctx : Context ε) :
    g.Derives node line ctx (g.below node line ctx).chain (g.below node line ctx).context := by
  revert line ctx
  refine a.descend (P := fun n => ∀ line ctx,
    g.Derives n line ctx (g.below n line ctx).chain (g.below n line ctx).context) ?_ node hn
  intro n hn ih line ctx
  cases hl : g.tree.isLeaf n with
  | true =>
    rw [below, if_pos hl]
    exact .leaf hl (Context.takeTrailing_eq_iff.1 rfl)
  | false =>
    rcases below_cases hl line ctx with ⟨-, he⟩ | ⟨best, hbest, hne, he⟩
    · rw [he]
      exact .stop hl
    · have hc := hbest.mem
      have hlt := a.child_lt n best hc
      rw [he]
      rcases resolve_cases a hc line ctx with ⟨slot, rest, ctx', h⟩ | ⟨slot, ctx', h⟩ | h
      · rw [resolve_of_passes a hlt h]
        exact .step hc h (ih best hc rest ctx')
      · rw [resolve_of_refuses a hlt h]
        exact .refused hc h
      · exact absurd h hne

theorem resolve_head (a : g.tree.Arena) {node child : Nat} (hc : child ∈ g.tree.children node)
    {line : Option String} {ctx : Context ε} (h : (g.resolve child line ctx).chain ≠ []) :
    ∃ slot chain, (g.resolve child line ctx).chain = slot :: chain ∧ slot.node = child := by
  have hlt := a.child_lt node child hc
  rcases resolve_cases a hc line ctx with ⟨slot, rest, ctx', hp⟩ | ⟨slot, ctx', hr⟩ | he
  · exact ⟨slot, _, by rw [resolve_of_passes a hlt hp], hp.node_eq⟩
  · exact ⟨slot, [], by rw [resolve_of_refuses a hlt hr], hr.node_eq⟩
  · exact absurd he h

/-- No path below a node is better than the best match there. -/
theorem below_outranks (a : g.tree.Arena) {node : Nat} (hn : node < g.tree.size)
    {line : Option String} {ctx ctx' : Context ε} {chain : List (Slot ε)}
    (h : g.Derives node line ctx chain ctx') :
    Outranks (nodesOf (g.below node line ctx).chain) (nodesOf chain) := by
  revert line ctx ctx' chain
  refine a.descend (P := fun n => ∀ {line ctx ctx' chain}, g.Derives n line ctx chain ctx' →
    Outranks (nodesOf (g.below n line ctx).chain) (nodesOf chain)) ?_ node hn
  intro n hn ih line ctx ctx' chain h
  cases chain with
  | nil => exact Outranks.nil _
  | cons slot chain =>
    obtain ⟨c, hc, hstep⟩ := derives_cons_iff.1 h
    have hlt := a.child_lt n c hc
    -- the path is no better than the match of the child that it enters
    have hchild : slot.node = c ∧
        Outranks (nodesOf (g.resolve c line ctx).chain) (nodesOf (slot :: chain)) := by
      rcases hstep with ⟨rest, ctx₁, passes, derives⟩ | ⟨rfl, refuses⟩
      · rw [resolve_of_passes a hlt passes]
        exact ⟨passes.node_eq, (ih c hc derives).cons _⟩
      · rw [resolve_of_refuses a hlt refuses]
        exact ⟨refuses.node_eq, .refl _⟩
    obtain ⟨hnode, hout⟩ := hchild
    have hlen := hout.length_le
    simp only [length_nodesOf] at hlen
    rcases below_cases (Tree.isLeaf_of_mem hc) line ctx with ⟨hall, -⟩ | ⟨best, hbest, hne, he⟩
    · rw [hall c hc] at hlen
      simp at hlen
    · rw [he]
      have hle := hbest.length_le hc
      rcases Nat.lt_trichotomy c best with hlt | rfl | hgt
      · have := hbest.length_lt (a.ascending n) hc hlt
        exact .inl (by simp only [length_nodesOf]; omega)
      · exact hout
      · obtain ⟨first, tail, hcons, hfirst⟩ := resolve_head a hbest.mem hne
        simp only [hcons, List.length_cons] at hle hlen
        rw [hcons, nodesOf_cons, nodesOf_cons, hfirst, hnode]
        exact .of_head_lt hgt (by simp only [length_nodesOf]; omega)

/-- The match of a line from the root reads it by the rules. -/
theorem resolve_derives (a : g.tree.Arena) (line : Option String) (ctx : Context ε) :
    g.Derives Tree.root line ctx (g.resolve Tree.root line ctx).chain
      (g.resolve Tree.root line ctx).context := by
  rw [resolve_root a]
  exact below_derives a a.nonempty line ctx

/-- **The match of a line is the best derivable path.**  It reads the line by the rules and leaves
the context of the path chosen; every path that reads the line by the rules is shorter, or as long
and later in the order in which the nodes were added. -/
theorem resolve_outranks (g : Grammar ε) (built : g.tree.Built) (line : Option String)
    (ctx : Context ε) :
    g.Derives Tree.root line ctx (g.resolve Tree.root line ctx).chain
        (g.resolve Tree.root line ctx).context ∧
      ∀ chain ctx', g.Derives Tree.root line ctx chain ctx' →
        Outranks (nodesOf (g.resolve Tree.root line ctx).chain) (nodesOf chain) := by
  have a := built.arena
  refine ⟨resolve_derives a line ctx, ?_⟩
  intro chain ctx' h
  rw [resolve_root a]
  exact below_outranks a a.nonempty h

end Grammar

/-- Two paths of one length that part behind a switch, the first of them spelled out. -/
def forkedTree : Tree Unit :=
  ((Tree.empty.insert Tree.root "go @string(switch=s) fast extra").2.insert Tree.root
    "go @string(switch=s) @string").2

def forkedGrammar : Grammar Unit := ⟨forkedTree, .standard, {}⟩

theorem forkedTree_built : forkedTree.Built := .insert_root (.insert_root .empty _) _

/-- The line `go -s 1 slow` is matched by the second path. -/
theorem resolve_outranks_forked :
    forkedTree.Built ∧
      nodesOf (forkedGrammar.resolve Tree.root (some "go -s 1 slow")
        (forkedGrammar.context ())).chain = [1, 2, 5] ∧
      ∀ chain ctx', forkedGrammar.Derives Tree.root (some "go -s 1 slow") (forkedGrammar.context ())
        chain ctx' → Outranks [1, 2, 5] (nodesOf chain) := by
  have nodes : nodesOf (forkedGrammar.resolve Tree.root (some "go -s 1 slow")
      (forkedGrammar.context ())).chain = [1, 2, 5] := by decide +kernel
  obtain ⟨-, best⟩ := Grammar.resolve_outranks forkedGrammar forkedTree_built
    (some "go -s 1 slow") (forkedGrammar.context ())
  rw [nodes] at best
  exact ⟨forkedTree_built, nodes, best⟩

end CommandTree
