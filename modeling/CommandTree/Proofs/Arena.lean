import CommandTree.Tree

/-!
# The arena of a tree

A tree is built from the empty one by inserting paths below its nodes and binding handlers to its
nodes (`Built`).  The only change an insertion makes to the nodes is to add a last child where
there was none of that name (`Grown`), so whatever one such step keeps, every run keeps.

`Arena` is what the nodes of a built tree satisfy.  Parents and children are stored twice; the two
agree.  A child has a larger number than its parent, so a walk down the tree ends, and one can
argue about a node after its children (`Arena.descend`).

Results:
* `Grown.insert`: an insertion only adds children.
* `Built.arena`: every built tree is an arena.
* `Arena.descend`: induction from the leaves up.
-/
namespace CommandTree.Tree

variable {ε : Type}

/-- The trees that insertions and bindings lead to. -/
inductive Built : Tree ε → Prop
  | empty : Built empty
  | insert {t : Tree ε} (built : Built t) {node : Nat} (inside : node < t.size) (path : String) :
      Built (t.insert node path).2
  | bind {t : Tree ε} (built : Built t) {node : Nat} (inside : node < t.size) (kind : HandlerKind)
      (handler : Handler ε) : Built (t.bind node kind handler)

/-- The trees that adding children to a tree leads to. -/
inductive Grown (t : Tree ε) : Tree ε → Prop
  | refl : Grown t t
  | add {t' : Tree ε} (grown : Grown t t') {node : Nat} (inside : node < t'.size) {d : Descriptor}
      (absent : t'.findChild node d = none) : Grown t (t'.addChild node d)

/-- What the nodes and bindings of a built tree satisfy. -/
structure Arena (t : Tree ε) : Prop where
  nonempty : root < t.size
  parent_root : t.parent root = none
  descriptor_root : t.descriptor root = none
  parented : ∀ n, 0 < n → n < t.size → ∃ p, t.parent n = some p
  described : ∀ n, 0 < n → n < t.size → ∃ d, t.descriptor n = some d
  mem_children_iff : ∀ n c, c ∈ t.children n ↔ t.parent c = some n
  lt_child : ∀ n c, c ∈ t.children n → n < c
  child_lt : ∀ n c, c ∈ t.children n → c < t.size
  ascending : ∀ n, (t.children n).Pairwise (· < ·)
  named : ∀ n, (t.children n).Pairwise fun a b =>
    (t.descriptor a).map Descriptor.name ≠ (t.descriptor b).map Descriptor.name
  bound : ∀ b ∈ t.bindings, b.node < t.size

theorem isLeaf_of_mem {t : Tree ε} {node child : Nat} (h : child ∈ t.children node) :
    t.isLeaf node = false := by
  rw [isLeaf, List.isEmpty_eq_false_iff]
  exact List.ne_nil_of_mem h

/-! ## One child more -/

theorem getElem?_nodes_size (t : Tree ε) : t.nodes[t.size]? = none := by simp [size]

theorem getElem?_addChild (t : Tree ε) (node : Nat) (d : Descriptor) (n : Nat) :
    (t.addChild node d).nodes[n]? =
      if n = t.size then some { parent := some node, descriptor := some d }
      else if n = node then t.nodes[n]?.map fun m => { m with children := m.children ++ [t.size] }
      else t.nodes[n]? := by
  simp only [addChild, Array.getElem?_push, Array.size_modify, Array.getElem?_modify, size]
  by_cases hn : n = t.nodes.size
  · simp [hn]
  · by_cases hm : n = node
    · subst hm; simp [hn]
    · simp [hn, hm, Ne.symm hm]

theorem children_addChild (t : Tree ε) {node : Nat} (inside : node < t.size) (d : Descriptor)
    (n : Nat) :
    (t.addChild node d).children n =
      if n = node then t.children n ++ [t.size] else t.children n := by
  unfold children
  rw [getElem?_addChild]
  by_cases hs : n = t.size
  · have hne : n ≠ node := by omega
    rw [if_pos hs, if_neg hne, hs, getElem?_nodes_size]
  · by_cases hn : n = node
    · rw [if_neg hs, if_pos hn, if_pos hn]
      have hlt : n < t.nodes.size := by simpa [hn, size] using inside
      rw [Array.getElem?_eq_getElem hlt]
      rfl
    · rw [if_neg hs, if_neg hn, if_neg hn]

theorem parent_addChild (t : Tree ε) (node : Nat) (d : Descriptor) (n : Nat) :
    (t.addChild node d).parent n = if n = t.size then some node else t.parent n := by
  unfold parent
  rw [getElem?_addChild]
  by_cases hs : n = t.size
  · rw [if_pos hs, if_pos hs]; rfl
  · rw [if_neg hs, if_neg hs]
    split
    · cases t.nodes[n]? <;> rfl
    · rfl

theorem descriptor_addChild (t : Tree ε) (node : Nat) (d : Descriptor) (n : Nat) :
    (t.addChild node d).descriptor n = if n = t.size then some d else t.descriptor n := by
  unfold descriptor
  rw [getElem?_addChild]
  by_cases hs : n = t.size
  · rw [if_pos hs, if_pos hs]; rfl
  · rw [if_neg hs, if_neg hs]
    split
    · cases t.nodes[n]? <;> rfl
    · rfl

theorem name_ne_of_findChild_eq_none {t : Tree ε} {node : Nat} {d : Descriptor}
    (absent : t.findChild node d = none) {c : Nat} (hc : c ∈ t.children node) :
    (t.descriptor c).map Descriptor.name ≠ some d.name := by
  intro he
  obtain ⟨d', hd', hname⟩ := Option.map_eq_some_iff.1 he
  have h := List.find?_eq_none.1 absent c hc
  apply h
  rw [hd', Option.some_beq_some, Descriptor.beq_iff]
  exact hname

theorem descriptor_addChild_of_lt (t : Tree ε) (node : Nat) (d : Descriptor) {n : Nat}
    (old : n < t.size) : (t.addChild node d).descriptor n = t.descriptor n := by
  rw [descriptor_addChild, if_neg (Nat.ne_of_lt old)]

theorem mem_children_addChild (t : Tree ε) {node : Nat} (inside : node < t.size) (d : Descriptor)
    {n c : Nat} :
    c ∈ (t.addChild node d).children n ↔ c ∈ t.children n ∨ n = node ∧ c = t.size := by
  rw [children_addChild t inside]
  by_cases hn : n = node
  · simp [hn]
  · simp [hn]

/-- The new child is the last in the list of its parent, and no other list changes. -/
theorem pairwise_children_addChild {t : Tree ε} {node : Nat} (inside : node < t.size)
    (d : Descriptor) {R : Nat → Nat → Prop} {n : Nat} (old : (t.children n).Pairwise R)
    (new : ∀ c ∈ t.children node, R c t.size) : ((t.addChild node d).children n).Pairwise R := by
  rw [children_addChild t inside]
  split
  · rename_i hn
    refine List.pairwise_append.2 ⟨old, List.pairwise_singleton _ _, fun x hx y hy => ?_⟩
    exact List.mem_singleton.1 hy ▸ new x (hn ▸ hx)
  · exact old

theorem Arena.addChild {t : Tree ε} (a : t.Arena) {node : Nat} (inside : node < t.size)
    {d : Descriptor} (absent : t.findChild node d = none) : (t.addChild node d).Arena where
  nonempty := by
    have h := a.nonempty
    rw [size_addChild]
    omega
  parent_root := by
    have h := a.nonempty
    rw [parent_addChild, if_neg (by omega)]
    exact a.parent_root
  descriptor_root := (descriptor_addChild_of_lt t node d a.nonempty).trans a.descriptor_root
  parented n h0 hn := by
    rw [size_addChild] at hn
    rw [parent_addChild]
    split
    · exact ⟨node, rfl⟩
    · exact a.parented n h0 (by omega)
  described n h0 hn := by
    rw [size_addChild] at hn
    rw [descriptor_addChild]
    split
    · exact ⟨d, rfl⟩
    · exact a.described n h0 (by omega)
  mem_children_iff n c := by
    rw [mem_children_addChild t inside, parent_addChild]
    by_cases hc : c = t.size
    · -- the new node is in no list of the old tree
      subst hc
      have hold : t.size ∉ t.children n := fun h => Nat.lt_irrefl _ (a.child_lt n _ h)
      simp [hold, eq_comm]
    · simp [hc, a.mem_children_iff n c]
  lt_child n c hc := by
    rcases (mem_children_addChild t inside d).1 hc with h | ⟨rfl, rfl⟩
    · exact a.lt_child n c h
    · exact inside
  child_lt n c hc := by
    rw [size_addChild]
    rcases (mem_children_addChild t inside d).1 hc with h | ⟨-, rfl⟩
    · exact Nat.lt_succ_of_lt (a.child_lt n c h)
    · exact Nat.lt_succ_self _
  ascending n := pairwise_children_addChild inside d (a.ascending n) fun c hc => a.child_lt node c hc
  named n := by
    have old {m c : Nat} (hc : c ∈ t.children m) :
        (t.addChild node d).descriptor c = t.descriptor c :=
      descriptor_addChild_of_lt t node d (a.child_lt m c hc)
    refine pairwise_children_addChild inside d ?_ fun c hc => ?_
    · refine (a.named n).imp_of_mem fun hx hy hxy => ?_
      rw [old hx, old hy]
      exact hxy
    · rw [old hc, descriptor_addChild, if_pos rfl]
      exact name_ne_of_findChild_eq_none absent hc
  bound b hb := by
    rw [size_addChild]
    have := a.bound b hb
    omega

/-! ## Whole insertions -/

theorem Grown.trans {t t' t'' : Tree ε} (h : Grown t t') (h' : Grown t' t'') : Grown t t'' := by
  induction h' with
  | refl => exact h
  | add _ inside absent ih => exact .add ih inside absent

theorem Grown.size_le {t t' : Tree ε} (h : Grown t t') : t.size ≤ t'.size := by
  induction h with
  | refl => exact Nat.le_refl _
  | add _ _ _ ih => rw [size_addChild]; omega

theorem findChild_mem {t : Tree ε} {node c : Nat} {d : Descriptor}
    (h : t.findChild node d = some c) : c ∈ t.children node :=
  List.mem_of_find?_eq_some h

theorem Grown.child (t : Tree ε) {node : Nat} (inside : node < t.size) (d : Descriptor) :
    Grown t (t.child node d).2 := by
  unfold Tree.child
  split
  · exact .refl
  · rename_i absent
    exact .add .refl inside absent

theorem Arena.child_inside {t : Tree ε} (a : t.Arena) (node : Nat) (d : Descriptor) :
    (t.child node d).1 < (t.child node d).2.size := by
  unfold Tree.child
  split
  · rename_i c found
    exact a.child_lt node c (findChild_mem found)
  · rw [size_addChild]; omega

theorem Arena.grown {t t' : Tree ε} (a : t.Arena) (h : Grown t t') : t'.Arena := by
  induction h with
  | refl => exact a
  | add _ inside absent ih => exact ih.addChild inside absent

theorem Grown.grow {t : Tree ε} (a : t.Arena) {node : Nat} (inside : node < t.size)
    (ds : Segment) :
    Grown t (t.grow node ds).2 ∧ ∀ n ∈ (t.grow node ds).1, n < (t.grow node ds).2.size := by
  induction ds generalizing t with
  | nil => exact ⟨.refl, by simp [Tree.grow]⟩
  | cons d ds ih =>
    have first := Grown.child t inside d
    have hin := a.child_inside node d
    obtain ⟨rest, hrest⟩ := ih (a.grown first) (Nat.lt_of_lt_of_le inside first.size_le)
    refine ⟨first.trans rest, ?_⟩
    intro n hn
    rcases List.mem_cons.1 hn with rfl | hn
    · exact Nat.lt_of_lt_of_le hin rest.size_le
    · exact hrest n hn

theorem Grown.growAll {t : Tree ε} (a : t.Arena) (segment : Segment) {nodes : List Nat}
    (inside : ∀ n ∈ nodes, n < t.size) :
    Grown t (t.growAll segment nodes).2 ∧
      ∀ n ∈ (t.growAll segment nodes).1, n < (t.growAll segment nodes).2.size := by
  induction nodes generalizing t with
  | nil => exact ⟨.refl, by simp [Tree.growAll]⟩
  | cons node nodes ih =>
    obtain ⟨first, hfirst⟩ := Grown.grow a (inside node List.mem_cons_self) segment
    obtain ⟨rest, hrest⟩ := ih (a.grown first) fun n hn =>
      Nat.lt_of_lt_of_le (inside n (List.mem_cons_of_mem _ hn)) first.size_le
    refine ⟨first.trans rest, ?_⟩
    intro n hn
    rcases List.mem_append.1 hn with hn | hn
    · exact Nat.lt_of_lt_of_le (hfirst n hn) rest.size_le
    · exact hrest n hn

theorem Grown.growPath {t : Tree ε} (a : t.Arena) (segments : List Segment) {nodes : List Nat}
    (inside : ∀ n ∈ nodes, n < t.size) :
    Grown t (t.growPath nodes segments).2 ∧
      ∀ n ∈ (t.growPath nodes segments).1, n < (t.growPath nodes segments).2.size := by
  induction segments generalizing t nodes with
  | nil => exact ⟨.refl, inside⟩
  | cons segment rest ih =>
    obtain ⟨first, hfirst⟩ := Grown.growAll a segment inside
    obtain ⟨later, hlater⟩ := ih (a.grown first) hfirst
    exact ⟨first.trans later, hlater⟩

/-- An insertion only adds children, and it ends at nodes of the tree. -/
theorem Grown.insert {t : Tree ε} (a : t.Arena) {node : Nat} (inside : node < t.size)
    (path : String) :
    Grown t (t.insert node path).2 ∧
      ∀ n ∈ (t.insert node path).1, n < (t.insert node path).2.size :=
  Grown.growPath a _ (by simpa using inside)

/-! ## Built trees -/

theorem arena_empty : (empty : Tree ε).Arena where
  nonempty := by simp [empty, size, root]
  parent_root := rfl
  descriptor_root := rfl
  parented n h0 hn := absurd hn (by simp [empty, size]; omega)
  described n h0 hn := absurd hn (by simp [empty, size]; omega)
  mem_children_iff n c := by
    have hp : (empty : Tree ε).parent c = none := by
      unfold parent empty
      rcases c with _ | c <;> simp
    have hc : (empty : Tree ε).children n = [] := by
      unfold children empty
      rcases n with _ | n <;> simp
    simp [hp, hc]
  lt_child n c hc := by rcases n with _ | n <;> simp [children, empty] at hc
  child_lt n c hc := by rcases n with _ | n <;> simp [children, empty] at hc
  ascending n := by rcases n with _ | n <;> simp [children, empty]
  named n := by rcases n with _ | n <;> simp [children, empty]
  bound b hb := absurd hb (by simp [empty])

theorem Arena.bind {t : Tree ε} (a : t.Arena) {node : Nat} (inside : node < t.size)
    (kind : HandlerKind) (handler : Handler ε) : (t.bind node kind handler).Arena :=
  { a with
    bound := by
      intro b hb
      rcases List.mem_cons.1 hb with rfl | hb
      · exact inside
      · exact a.bound b hb }

theorem Built.arena {t : Tree ε} (h : t.Built) : t.Arena := by
  induction h with
  | empty => exact arena_empty
  | insert _ inside path a => exact a.grown (Grown.insert a inside path).1
  | bind _ inside kind handler a => exact a.bind inside kind handler

/-- Paths may always be inserted below the root. -/
theorem Built.insert_root {t : Tree ε} (built : Built t) (path : String) :
    Built (t.insert root path).2 := .insert built built.arena.nonempty path

/-! ## Trees as tables

Reading the specs of a tree is dear.  A tree that several computations look at is read once, into
the table of its nodes. -/

deriving instance DecidableEq for Descriptor, Node

theorem eq_of_nodes {t : Tree ε} {nodes : Array Node}
    (h : t.nodes = nodes ∧ t.bindings.isEmpty = true) : t = ⟨nodes, []⟩ := by
  obtain ⟨rfl, unbound⟩ := h
  rw [← List.isEmpty_iff.1 unbound]

/-! ## From the leaves up -/

/-- What holds of a node as soon as it holds of its children holds of every node. -/
theorem Arena.descend {t : Tree ε} (a : t.Arena) {P : Nat → Prop}
    (step : ∀ n, n < t.size → (∀ c ∈ t.children n, P c) → P n) (n : Nat) (hn : n < t.size) :
    P n := by
  -- the induction is on the number of nodes behind `n`
  induction hk : t.size - n using Nat.strongRecOn generalizing n with
  | ind k ih =>
    refine step n hn fun c hc => ?_
    have h1 := a.lt_child n c hc
    have h2 := a.child_lt n c hc
    exact ih (t.size - c) (by omega) c h2 rfl

end CommandTree.Tree
