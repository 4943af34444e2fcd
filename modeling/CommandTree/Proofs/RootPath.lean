import CommandTree.Proofs.Arena
import Mathlib.Data.List.Nodup

/-!
# The way from the root to a node

Every node of an arena is reached from the root by one path of children (`RootPath`), and the
parent links lead back along it.  The number of steps up is therefore the length of that path, and
the climb ends.

Two children of a node never have one name, so a name says which child is meant.

Results:
* `Arena.exists_rootPath`, `RootPath.unique`: the path to a node, and that there is no other.
* `RootPath.depthWithin_eq`, `RootPath.climbs`: climbing from a node takes as many steps as its path
  has nodes.
* `Arena.findChild_eq_some_iff`: the child of a name.
* `built_linked`: how the nodes of a built tree hang together.
-/
namespace CommandTree.Tree

variable {ε : Type} {t : Tree ε}

/-- The nodes on the way from the root down to a node, the root left out. -/
inductive RootPath (t : Tree ε) : Nat → List Nat → Prop
  | root : RootPath t root []
  | child {node child : Nat} {path : List Nat} (above : RootPath t node path)
      (below : child ∈ t.children node) : RootPath t child (path ++ [child])

theorem RootPath.lt_size (a : t.Arena) {node : Nat} {path : List Nat} (h : t.RootPath node path) :
    node < t.size := by
  cases h with
  | root => exact a.nonempty
  | child _ below => exact a.child_lt _ _ below

theorem Arena.root_not_mem_children (a : t.Arena) (node : Nat) : root ∉ t.children node :=
  fun h => Nat.not_lt_zero node (a.lt_child node root h)

theorem Arena.exists_rootPath (a : t.Arena) {node : Nat} (inside : node < t.size) :
    ∃ path, t.RootPath node path := by
  induction node using Nat.strongRecOn with
  | ind node ih =>
    rcases Nat.eq_zero_or_pos node with rfl | pos
    · exact ⟨[], .root⟩
    · obtain ⟨p, hp⟩ := a.parented node pos inside
      have below := (a.mem_children_iff p node).2 hp
      have lt := a.lt_child p node below
      obtain ⟨path, above⟩ := ih p lt (Nat.lt_trans lt inside)
      exact ⟨path ++ [node], .child above below⟩

theorem RootPath.unique (a : t.Arena) {node : Nat} {path other : List Nat}
    (h : t.RootPath node path) (h' : t.RootPath node other) : path = other := by
  induction h generalizing other with
  | root =>
    cases h' with
    | root => rfl
    | child _ below => exact absurd below (a.root_not_mem_children _)
  | @child p node path above below ih =>
    cases h' with
    | root => exact absurd below (a.root_not_mem_children _)
    | @child p' _ path' above' below' =>
      have same : some p = some p' :=
        ((a.mem_children_iff p node).1 below).symm.trans ((a.mem_children_iff p' node).1 below')
      cases same
      rw [ih above']

theorem RootPath.length_le (a : t.Arena) {node : Nat} {path : List Nat}
    (h : t.RootPath node path) : path.length ≤ node := by
  induction h with
  | root => exact Nat.zero_le _
  | @child p node path _ below ih =>
    have lt := a.lt_child p node below
    rw [List.length_append, List.length_singleton]
    omega

/-- Climbing from a node takes as many steps as its path has nodes, and ends there. -/
theorem RootPath.depthWithin_eq (a : t.Arena) {node : Nat} {path : List Nat}
    (h : t.RootPath node path) {steps : Nat} (enough : path.length ≤ steps) :
    t.depthWithin steps node = path.length := by
  induction h generalizing steps with
  | root =>
    cases steps with
    | zero => rfl
    | succ steps => simp only [depthWithin, a.parent_root, List.length_nil]
  | @child p node path above below ih =>
    rw [List.length_append, List.length_singleton] at enough ⊢
    cases steps with
    | zero => omega
    | succ steps =>
      simp only [depthWithin, (a.mem_children_iff p node).1 below]
      rw [ih (by omega)]

/-- The depth of a node is the length of the path to it. -/
theorem RootPath.depth_eq (a : t.Arena) {node : Nat} {path : List Nat}
    (h : t.RootPath node path) : t.depth node = path.length :=
  h.depthWithin_eq a (Nat.le_of_lt (Nat.lt_of_le_of_lt (h.length_le a) (h.lt_size a)))

/-- So many steps along the parent links lead from a node to one that has no parent. -/
inductive Climbs (t : Tree ε) : Nat → Nat → Prop
  | top {node : Nat} (top : t.parent node = none) : Climbs t node 0
  | up {node parent steps : Nat} (link : t.parent node = some parent)
      (above : Climbs t parent steps) : Climbs t node (steps + 1)

theorem RootPath.climbs (a : t.Arena) {node : Nat} {path : List Nat} (h : t.RootPath node path) :
    t.Climbs node path.length := by
  induction h with
  | root => exact .top a.parent_root
  | @child p node path _ below ih =>
    rw [List.length_append, List.length_singleton]
    exact .up ((a.mem_children_iff p node).1 below) ih

/-! ## Children by name -/

theorem Arena.eq_of_name_eq (a : t.Arena) {node c c' : Nat} (hc : c ∈ t.children node)
    (hc' : c' ∈ t.children node)
    (name : (t.descriptor c).map Descriptor.name = (t.descriptor c').map Descriptor.name) :
    c = c' := by
  have names : ((t.children node).map fun c => (t.descriptor c).map Descriptor.name).Nodup :=
    List.pairwise_map.2 (a.named node)
  exact List.inj_on_of_nodup_map names hc hc' name

theorem descriptor_beq_iff {node : Nat} {d : Descriptor} :
    (t.descriptor node == some d) = true ↔
      (t.descriptor node).map Descriptor.name = some d.name := by
  cases t.descriptor node with
  | none => simp
  | some d' => rw [Option.some_beq_some, Descriptor.beq_iff, Option.map_some, Option.some.injEq]

/-- What is found under a name is the child of that name. -/
theorem Arena.findChild_eq_some_iff (a : t.Arena) {node c : Nat} {d : Descriptor} :
    t.findChild node d = some c ↔
      c ∈ t.children node ∧ (t.descriptor c).map Descriptor.name = some d.name := by
  constructor
  · intro h
    exact ⟨findChild_mem h, descriptor_beq_iff.1 (List.find?_some h :)⟩
  · rintro ⟨hc, name⟩
    have found : (t.findChild node d).isSome := by
      rw [findChild, List.find?_isSome]
      exact ⟨c, hc, descriptor_beq_iff.2 name⟩
    obtain ⟨c', hc'⟩ := Option.isSome_iff_exists.1 found
    have name' := descriptor_beq_iff.1 (List.find?_some hc' :)
    rw [hc', a.eq_of_name_eq (findChild_mem hc') hc (name'.trans name.symm)]

/-! ## Built trees -/

/-- How the nodes of a tree hang together.  The two ways in which parents and children are stored
agree; numbers grow from parents to children and from siblings to later ones; names tell siblings
apart; the climb to the root ends behind as many steps as the one path down has nodes; and no
number that the tree gives out, as root, parent, child, end of an inserted path or place of a
binding, lies outside it. -/
structure Linked (t : Tree ε) : Prop where
  parent_eq_none_iff : ∀ n < t.size, t.parent n = none ↔ n = root
  descriptor_eq_none_iff : ∀ n < t.size, t.descriptor n = none ↔ n = root
  listed_once : ∀ n < t.size, n ≠ root → ∃ p < n, t.parent n = some p ∧
    (t.children p).count n = 1 ∧ ∀ q, q ≠ p → n ∉ t.children q
  ascending : ∀ n, (n :: t.children n).Pairwise (· < ·)
  named : ∀ n, (t.children n).Pairwise fun c c' =>
    (t.descriptor c).map Descriptor.name ≠ (t.descriptor c').map Descriptor.name
  findChild_eq_some_iff : ∀ n d c, t.findChild n d = some c ↔
    c ∈ t.children n ∧ (t.descriptor c).map Descriptor.name = some d.name
  depth_eq : ∀ n < t.size, ∃ path, t.RootPath n path ∧ t.depth n = path.length ∧
    (∀ other, t.RootPath n other → other = path) ∧
      ∀ steps, path.length ≤ steps → t.depthWithin steps n = path.length
  root_lt : root < t.size
  parent_lt : ∀ n p, t.parent n = some p → p < t.size
  child_lt : ∀ n, ∀ c ∈ t.children n, c < t.size
  inserted_lt : ∀ n < t.size, ∀ path, t.size ≤ (t.insert n path).2.size ∧
    ∀ leaf ∈ (t.insert n path).1, leaf < (t.insert n path).2.size
  bound_lt : ∀ b ∈ t.bindings, b.node < t.size

theorem Arena.ascending_cons (a : t.Arena) (n : Nat) : (n :: t.children n).Pairwise (· < ·) :=
  List.pairwise_cons.2 ⟨a.lt_child n, a.ascending n⟩

theorem Arena.parent_eq_none_iff (a : t.Arena) {n : Nat} (inside : n < t.size) :
    t.parent n = none ↔ n = root := by
  constructor
  · intro none
    by_contra other
    obtain ⟨p, hp⟩ := a.parented n (Nat.pos_of_ne_zero other) inside
    rw [none] at hp
    cases hp
  · rintro rfl
    exact a.parent_root

theorem Arena.descriptor_eq_none_iff (a : t.Arena) {n : Nat} (inside : n < t.size) :
    t.descriptor n = none ↔ n = root := by
  constructor
  · intro none
    by_contra other
    obtain ⟨d, hd⟩ := a.described n (Nat.pos_of_ne_zero other) inside
    rw [none] at hd
    cases hd
  · rintro rfl
    exact a.descriptor_root

theorem Arena.listed_once (a : t.Arena) {n : Nat} (inside : n < t.size) (other : n ≠ root) :
    ∃ p < n, t.parent n = some p ∧ (t.children p).count n = 1 ∧
      ∀ q, q ≠ p → n ∉ t.children q := by
  obtain ⟨p, hp⟩ := a.parented n (Nat.pos_of_ne_zero other) inside
  have below := (a.mem_children_iff p n).2 hp
  have nodup : (t.children p).Nodup := (a.ascending p).imp Nat.ne_of_lt
  refine ⟨p, a.lt_child p n below, hp, List.count_eq_one_of_mem nodup below, ?_⟩
  intro q hq listed
  have hq' := (a.mem_children_iff q n).1 listed
  rw [hp] at hq'
  exact hq (Option.some.inj hq').symm

/-- **The nodes of a built tree hang together.**  Whatever paths have been inserted below whatever
nodes, and whatever has been bound, the tree is `Linked`. -/
theorem built_linked (t : Tree ε) (built : t.Built) : t.Linked where
  parent_eq_none_iff _ inside := built.arena.parent_eq_none_iff inside
  descriptor_eq_none_iff _ inside := built.arena.descriptor_eq_none_iff inside
  listed_once _ inside other := built.arena.listed_once inside other
  ascending n := built.arena.ascending_cons n
  named n := built.arena.named n
  findChild_eq_some_iff _ _ _ := built.arena.findChild_eq_some_iff
  depth_eq n inside := by
    obtain ⟨path, h⟩ := built.arena.exists_rootPath inside
    exact ⟨path, h, h.depth_eq built.arena, fun _ h' => h'.unique built.arena h,
      fun _ enough => h.depthWithin_eq built.arena enough⟩
  root_lt := built.arena.nonempty
  parent_lt n p hp :=
    have below := (built.arena.mem_children_iff p n).2 hp
    Nat.lt_trans (built.arena.lt_child p n below) (built.arena.child_lt p n below)
  child_lt n := built.arena.child_lt n
  inserted_lt _ inside path :=
    ⟨size_insert_le _ _ _, (Grown.insert built.arena inside path).2⟩
  bound_lt := built.arena.bound

/-- A path whose first step names one node twice, so that its end is reached twice. -/
def twinTree : Tree Unit := (empty.insert root "a,a b").2

theorem twinTree_built : twinTree.Built := .insert_root .empty _

/-- Both ends of the path `a,a b` are the node 2, below the only child of the root. -/
theorem built_linked_twin :
    twinTree.Built ∧ ((empty : Tree Unit).insert root "a,a b").1 = [2, 2] ∧
      twinTree.children root = [1] ∧ twinTree.depth 2 = 2 ∧ twinTree.Linked :=
  ⟨twinTree_built, by decide +kernel, by decide +kernel, by decide +kernel,
    built_linked twinTree twinTree_built⟩

end CommandTree.Tree
