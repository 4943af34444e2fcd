import CommandTree.Proofs.RootPath
import Mathlib.Data.List.Perm.Basic

/-!
# Nodes in depth-first order

The order in which a walk of the whole tree meets the nodes: each before its children, and children
in the order in which they were added.

Results:
* `Arena.preorder_eq`: the order from a node is the node, followed by the orders of its children.
* `Arena.pairwise_preorder`: the order is that of the ways from the root.
* `Arena.preorder_perm`: the order from the root has every node, once.
* `Arena.forksBelow`: two nodes of which none is above the other lie behind different children.
-/
namespace CommandTree.Tree

variable {ε : Type}

/-- The nodes from a node down, as far as `levels` go. -/
def preorderWithin (t : Tree ε) : Nat → Nat → List Nat
  | 0, _ => []
  | levels + 1, node => node :: (t.children node).flatMap (t.preorderWithin levels)

/-- The nodes from a node down, each before its children. -/
def preorder (t : Tree ε) (node : Nat) : List Nat := t.preorderWithin t.size node

/-- A node comes before another in a walk down the tree: the way to the other leads on from it, or
where their ways part its own takes the child that was added earlier.  Numbers count up as nodes are
added, so this is how the ways compare from the front. -/
def Precedes (t : Tree ε) (n n' : Nat) : Prop :=
  ∃ path path', t.RootPath n path ∧ t.RootPath n' path' ∧ path < path'

namespace Arena

variable {t : Tree ε}

theorem preorderWithin_eq (a : t.Arena) {levels levels' node : Nat} (inside : node < t.size)
    (h : t.size ≤ node + levels) (h' : t.size ≤ node + levels') :
    t.preorderWithin levels node = t.preorderWithin levels' node := by
  induction levels generalizing levels' node with
  | zero => omega
  | succ levels ih =>
    cases levels' with
    | zero => omega
    | succ levels' =>
      simp only [preorderWithin, List.cons.injEq, true_and]
      refine List.flatMap_congr fun c hc => ?_
      have lt := a.lt_child node c hc
      exact ih (a.child_lt node c hc) (by omega) (by omega)

/-- The order from a node is the node, followed by the orders of its children. -/
theorem preorder_eq (a : t.Arena) {node : Nat} (inside : node < t.size) :
    t.preorder node = node :: (t.children node).flatMap t.preorder := by
  rw [preorder, a.preorderWithin_eq inside (Nat.le_add_left _ _)
    (by omega : t.size ≤ node + (t.size + 1))]
  rfl

theorem mem_preorder_self (a : t.Arena) {node : Nat} (inside : node < t.size) :
    node ∈ t.preorder node := by
  rw [a.preorder_eq inside]
  exact List.mem_cons_self

theorem mem_preorder_cases (a : t.Arena) {node n : Nat} (inside : node < t.size)
    (h : n ∈ t.preorder node) : n = node ∨ ∃ c ∈ t.children node, n ∈ t.preorder c := by
  rwa [a.preorder_eq inside, List.mem_cons, List.mem_flatMap] at h

/-- The order goes on below every node that it has. -/
theorem mem_preorder_child (a : t.Arena) {node : Nat} (inside : node < t.size) {n c : Nat}
    (hn : n ∈ t.preorder node) (hc : c ∈ t.children n) : c ∈ t.preorder node := by
  revert hn
  refine a.descend (P := fun node => n ∈ t.preorder node → c ∈ t.preorder node) ?_ node inside
  intro node inside ih hn
  rw [a.preorder_eq inside, List.mem_cons, List.mem_flatMap]
  rcases a.mem_preorder_cases inside hn with rfl | ⟨k, hk, hn⟩
  · exact .inr ⟨c, hc, a.mem_preorder_self (a.child_lt n c hc)⟩
  · exact .inr ⟨k, hk, ih k hk hn⟩

theorem rootPath_of_mem_preorder (a : t.Arena) {node : Nat} {path : List Nat}
    (above : t.RootPath node path) {n : Nat} (h : n ∈ t.preorder node) :
    ∃ down, t.RootPath n (path ++ down) := by
  have inside := above.lt_size a
  revert path
  refine a.descend (P := fun node => n ∈ t.preorder node → ∀ {path}, t.RootPath node path →
    ∃ down, t.RootPath n (path ++ down)) ?_ node inside h
  intro node inside ih h path above
  rcases a.mem_preorder_cases inside h with rfl | ⟨c, hc, h⟩
  · exact ⟨[], by rwa [List.append_nil]⟩
  · obtain ⟨down, below⟩ := ih c hc h (.child above hc)
    exact ⟨c :: down, by rwa [List.append_assoc] at below⟩

theorem rootPath_through_child (a : t.Arena) {node : Nat} {path : List Nat}
    (above : t.RootPath node path) {c n : Nat} (hc : c ∈ t.children node)
    (h : n ∈ t.preorder c) : ∃ down, t.RootPath n (path ++ c :: down) := by
  obtain ⟨down, below⟩ := a.rootPath_of_mem_preorder (.child above hc) h
  exact ⟨down, by rwa [List.append_assoc] at below⟩

/-- Nothing lies below two siblings. -/
theorem disjoint_preorder (a : t.Arena) {node c c' : Nat} (hc : c ∈ t.children node)
    (hc' : c' ∈ t.children node) (other : c ≠ c') : (t.preorder c).Disjoint (t.preorder c') := by
  intro n hn hn'
  have lt := a.lt_child node c hc
  have inside := a.child_lt node c hc
  obtain ⟨path, above⟩ := a.exists_rootPath (Nat.lt_trans lt inside)
  obtain ⟨down, h⟩ := a.rootPath_through_child above hc hn
  obtain ⟨down', h'⟩ := a.rootPath_through_child above hc' hn'
  exact other (List.cons.inj (List.append_cancel_left (h.unique a h'))).1

theorem eq_of_mem_preorder (a : t.Arena) {node c c' n : Nat} (hc : c ∈ t.children node)
    (hc' : c' ∈ t.children node) (hn : n ∈ t.preorder c) (hn' : n ∈ t.preorder c') : c = c' := by
  by_contra other
  exact a.disjoint_preorder hc hc' other hn hn'

/-- In the order from a node earlier nodes come before later ones. -/
theorem pairwise_preorder (a : t.Arena) {node : Nat} (inside : node < t.size) :
    (t.preorder node).Pairwise t.Precedes := by
  refine a.descend (P := fun node => (t.preorder node).Pairwise t.Precedes) ?_ node inside
  intro node inside ih
  obtain ⟨path, above⟩ := a.exists_rootPath inside
  rw [a.preorder_eq inside, List.pairwise_cons, List.pairwise_flatMap]
  refine ⟨?_, ih, ?_⟩
  · -- a node comes before what lies below it
    intro n hn
    obtain ⟨c, hc, hn⟩ := List.mem_flatMap.1 hn
    obtain ⟨down, below⟩ := a.rootPath_through_child above hc hn
    have longer : path ++ [] < path ++ c :: down := List.append_left_lt (List.nil_lt_cons c down)
    rw [List.append_nil] at longer
    exact ⟨path, _, above, below, longer⟩
  · -- what lies below an earlier child comes before what lies below a later one
    refine (a.ascending node).imp_of_mem ?_
    intro c c' hc hc' lt n hn n' hn'
    obtain ⟨down, below⟩ := a.rootPath_through_child above hc hn
    obtain ⟨down', below'⟩ := a.rootPath_through_child above hc' hn'
    exact ⟨_, _, below, below', List.append_left_lt (List.cons_lt_cons_iff.2 (.inl lt))⟩

theorem ne_of_precedes (a : t.Arena) {n n' : Nat} (h : t.Precedes n n') : n ≠ n' := by
  rintro rfl
  obtain ⟨path, path', way, way', earlier⟩ := h
  rw [way.unique a way'] at earlier
  exact List.lt_irrefl path' earlier

theorem nodup_preorder (a : t.Arena) {node : Nat} (inside : node < t.size) :
    (t.preorder node).Nodup :=
  (a.pairwise_preorder inside).imp a.ne_of_precedes

theorem lt_size_of_mem_preorder (a : t.Arena) {top n : Nat} (inside : top < t.size)
    (h : n ∈ t.preorder top) : n < t.size := by
  obtain ⟨path, way⟩ := a.exists_rootPath inside
  obtain ⟨down, below⟩ := a.rootPath_of_mem_preorder way h
  exact below.lt_size a

theorem mem_preorder_trans (a : t.Arena) {top node n : Nat} (inside : top < t.size)
    (above : node ∈ t.preorder top) (below : n ∈ t.preorder node) : n ∈ t.preorder top := by
  have inside' := a.lt_size_of_mem_preorder inside above
  revert above below
  refine a.descend (P := fun node => node ∈ t.preorder top → n ∈ t.preorder node →
    n ∈ t.preorder top) ?_ node inside'
  intro node inside' ih above below
  rcases a.mem_preorder_cases inside' below with rfl | ⟨c, hc, below⟩
  · exact above
  · exact ih c hc (a.mem_preorder_child inside above hc) below

theorem mem_preorder_of_mem_path (a : t.Arena) {node : Nat} {path : List Nat}
    (way : t.RootPath node path) {top : Nat} (on : top ∈ path) :
    top < t.size ∧ node ∈ t.preorder top := by
  induction way with
  | root => cases on
  | @child above child path way below ih =>
    rcases List.mem_append.1 on with earlier | last
    · obtain ⟨inside, lies⟩ := ih earlier
      exact ⟨inside, a.mem_preorder_child inside lies below⟩
    · rw [List.mem_singleton.1 last]
      exact ⟨a.child_lt above child below, a.mem_preorder_self (a.child_lt above child below)⟩

/-- The order from the root has every node, once. -/
theorem preorder_perm (a : t.Arena) : (t.preorder root).Perm (List.range t.size) := by
  rw [List.perm_ext_iff_of_nodup (a.nodup_preorder a.nonempty) List.nodup_range]
  intro n
  rw [List.mem_range]
  constructor
  · intro h
    obtain ⟨_, below⟩ := a.rootPath_of_mem_preorder .root h
    exact below.lt_size a
  · intro inside
    obtain ⟨_, path⟩ := a.exists_rootPath inside
    induction path with
    | root => exact a.mem_preorder_self a.nonempty
    | child above below ih => exact a.mem_preorder_child a.nonempty (ih (above.lt_size a)) below

end Arena

/-! ## Forks -/

/-- Two nodes lie behind different children of a node that is `top` or lies below it. -/
def ForksBelow (t : Tree ε) (top n n' : Nat) : Prop :=
  ∃ fork ∈ t.preorder top, ∃ c ∈ t.children fork, ∃ c' ∈ t.children fork,
    c ≠ c' ∧ n ∈ t.preorder c ∧ n' ∈ t.preorder c'

variable {t : Tree ε}

/-- Two nodes below another, of which none lies below the other, part at a fork. -/
theorem Arena.forksBelow (a : t.Arena) {top n n' : Nat} (inside : top < t.size)
    (hn : n ∈ t.preorder top) (hn' : n' ∈ t.preorder top) (apart : n ∉ t.preorder n')
    (apart' : n' ∉ t.preorder n) : t.ForksBelow top n n' := by
  revert hn hn'
  refine a.descend (P := fun top => n ∈ t.preorder top → n' ∈ t.preorder top →
    t.ForksBelow top n n') ?_ top inside
  intro top inside ih hn hn'
  rcases a.mem_preorder_cases inside hn with rfl | ⟨c, hc, below⟩
  · exact absurd hn' apart'
  rcases a.mem_preorder_cases inside hn' with rfl | ⟨c', hc', below'⟩
  · exact absurd hn apart
  by_cases same : c = c'
  · subst same
    obtain ⟨fork, hf, fork_eq⟩ := ih c hc below below'
    have down := a.mem_preorder_child inside (a.mem_preorder_self inside) hc
    exact ⟨fork, a.mem_preorder_trans inside down hf, fork_eq⟩
  · exact ⟨top, a.mem_preorder_self inside, c, hc, c', hc', same, below, below'⟩

theorem not_forksBelow {top n n' : Nat}
    (single : ∀ node ∈ t.preorder top, (t.children node).length ≤ 1) :
    ¬ t.ForksBelow top n n' := by
  rintro ⟨fork, hf, c, hc, c', hc', other, -, -⟩
  obtain ⟨only, he⟩ := List.length_eq_one_iff.1
    (Nat.le_antisymm (single fork hf) (List.length_pos_of_mem hc))
  rw [he, List.mem_singleton] at hc hc'
  exact other (hc.trans hc'.symm)

end CommandTree.Tree
