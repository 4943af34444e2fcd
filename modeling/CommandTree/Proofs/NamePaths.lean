import CommandTree.Proofs.RootPath

/-!
# Names on the way down

A list of names leads from a node to what is below it (`Reaches`): each name is that of a child of
the node reached before.  Siblings have different names, so names lead to one node, and a node has
one list of names that leads to it from the root.

`follow` looks the names up one after the other.  In an arena it finds what the names reach.

A tree that has grown still holds its old nodes as they were (`Kept`), so what names have reached
they still reach.

Results:
* `Arena.follow_eq_some_iff`: looking names up finds what they reach.
* `Reaches.names_unique`: the names on the way from the root to a node.
* `Arena.exists_reaches`: every node is reached from the root.
* `Grown.kept`, `Reaches.kept`: growing keeps nodes and what names reach.
-/
namespace CommandTree.Tree

variable {ε : Type} {t t' : Tree ε}

/-- The node that a list of names leads to, each name that of a child of the node before. -/
inductive Reaches (t : Tree ε) : Nat → List String → Nat → Prop
  | here {node : Nat} : Reaches t node [] node
  | step {node child last : Nat} {name : String} {names : List String}
      (below : child ∈ t.children node)
      (named : (t.descriptor child).map Descriptor.name = some name)
      (rest : Reaches t child names last) : Reaches t node (name :: names) last

def follow (t : Tree ε) (node : Nat) : List String → Option Nat
  | [] => some node
  | name :: names => (t.findChild node ⟨name, {}⟩).bind fun child => t.follow child names

theorem Arena.findChild_congr (a : t.Arena) (node : Nat) {d d' : Descriptor}
    (name : d.name = d'.name) : t.findChild node d = t.findChild node d' := by
  refine Option.ext fun c => ?_
  rw [a.findChild_eq_some_iff, a.findChild_eq_some_iff, name]

theorem Arena.follow_cons (a : t.Arena) (node : Nat) (d : Descriptor) (names : List String) :
    t.follow node (d.name :: names) =
      (t.findChild node d).bind fun child => t.follow child names := by
  have renamed : t.findChild node ⟨d.name, {}⟩ = t.findChild node d := a.findChild_congr node rfl
  rw [follow, renamed]

theorem Arena.follow_eq_some_iff (a : t.Arena) {node last : Nat} {names : List String} :
    t.follow node names = some last ↔ t.Reaches node names last := by
  induction names generalizing node with
  | nil =>
    constructor
    · rintro ⟨⟩
      exact .here
    · rintro ⟨⟩
      rfl
  | cons name names ih =>
    rw [follow, Option.bind_eq_some_iff]
    constructor
    · rintro ⟨child, found, rest⟩
      obtain ⟨below, named⟩ := a.findChild_eq_some_iff.1 found
      exact .step below named (ih.1 rest)
    · rintro (_ | ⟨below, named, rest⟩)
      exact ⟨_, a.findChild_eq_some_iff.2 ⟨below, named⟩, ih.2 rest⟩

theorem Reaches.unique (a : t.Arena) {node n n' : Nat} {names : List String}
    (h : t.Reaches node names n) (h' : t.Reaches node names n') : n = n' :=
  Option.some.inj ((a.follow_eq_some_iff.2 h).symm.trans (a.follow_eq_some_iff.2 h'))

theorem Reaches.lt_size (a : t.Arena) {node last : Nat} {names : List String}
    (h : t.Reaches node names last) (inside : node < t.size) : last < t.size := by
  induction h with
  | here => exact inside
  | step below _ _ ih => exact ih (a.child_lt _ _ below)

theorem Reaches.append {node mid last : Nat} {names names' : List String}
    (h : t.Reaches node names mid) (h' : t.Reaches mid names' last) :
    t.Reaches node (names ++ names') last := by
  induction h with
  | here => exact h'
  | step below named _ ih => exact .step below named (ih h')

theorem Reaches.split {node last : Nat} {names names' : List String}
    (h : t.Reaches node (names ++ names') last) :
    ∃ mid, t.Reaches node names mid ∧ t.Reaches mid names' last := by
  induction names generalizing node with
  | nil => exact ⟨node, .here, h⟩
  | cons name names ih =>
    obtain _ | ⟨below, named, rest⟩ := h
    obtain ⟨mid, first, second⟩ := ih rest
    exact ⟨mid, .step below named first, second⟩

/-! ## From the root -/

/-- The names that lead on from a node are those of the nodes that its path goes on with. -/
theorem Reaches.rootPath {node last : Nat} {names : List String} (h : t.Reaches node names last)
    {path : List Nat} (above : t.RootPath node path) :
    ∃ path', t.RootPath last (path ++ path') ∧
      path'.map (fun n => (t.descriptor n).map Descriptor.name) = names.map some := by
  induction h generalizing path with
  | here => exact ⟨[], by rwa [List.append_nil], rfl⟩
  | @step node child last name names below named _ ih =>
    obtain ⟨path', whole, same⟩ := ih (above.child below)
    refine ⟨child :: path', ?_, ?_⟩
    · rwa [List.append_assoc] at whole
    · rw [List.map_cons, List.map_cons, named, same]

/-- One list of names leads from the root to a node. -/
theorem Reaches.names_unique (a : t.Arena) {n : Nat} {names names' : List String}
    (h : t.Reaches root names n) (h' : t.Reaches root names' n) : names = names' := by
  obtain ⟨path, whole, same⟩ := h.rootPath .root
  obtain ⟨path', whole', same'⟩ := h'.rootPath .root
  rw [List.nil_append] at whole whole'
  rw [whole.unique a whole', same'] at same
  exact (List.map_injective_iff.2 (fun _ _ => Option.some.inj) same).symm

theorem Arena.exists_reaches (a : t.Arena) {n : Nat} (inside : n < t.size) :
    ∃ names, t.Reaches root names n := by
  obtain ⟨path, h⟩ := a.exists_rootPath inside
  clear inside
  induction h with
  | root => exact ⟨[], .here⟩
  | @child node child path above below ih =>
    obtain ⟨names, reached⟩ := ih
    obtain ⟨d, described⟩ := a.described child
      (Nat.lt_of_le_of_lt (Nat.zero_le _) (a.lt_child _ _ below)) (a.child_lt _ _ below)
    refine ⟨names ++ [d.name], reached.append (.step below ?_ .here)⟩
    rw [described]
    rfl

/-! ## Growing -/

/-- The nodes of a tree stand in another one as they were: with their parents, descriptors and
handlers, and with new children only behind the old. -/
structure Kept (t t' : Tree ε) : Prop where
  size_le : t.size ≤ t'.size
  parent : ∀ n < t.size, t'.parent n = t.parent n
  descriptor : ∀ n < t.size, t'.descriptor n = t.descriptor n
  children : ∀ n, t.children n <+: t'.children n
  bindings : t'.bindings = t.bindings

theorem Kept.refl (t : Tree ε) : t.Kept t :=
  ⟨Nat.le_refl _, fun _ _ => rfl, fun _ _ => rfl, fun _ => List.prefix_rfl, rfl⟩

theorem Kept.addChild (h : t.Kept t') {node : Nat} (inside : node < t'.size) (d : Descriptor) :
    t.Kept (t'.addChild node d) where
  size_le := by
    have := h.size_le
    rw [size_addChild]
    omega
  parent n hn := by
    have := h.size_le
    rw [parent_addChild, if_neg (by omega), h.parent n hn]
  descriptor n hn := by
    rw [descriptor_addChild_of_lt t' node d (Nat.lt_of_lt_of_le hn h.size_le), h.descriptor n hn]
  children n := by
    rw [children_addChild t' inside]
    split
    · exact (h.children n).trans (List.prefix_append _ _)
    · exact h.children n
  bindings := h.bindings

theorem Grown.kept (h : Grown t t') : t.Kept t' := by
  induction h with
  | refl => exact .refl t
  | add _ inside _ ih => exact ih.addChild inside _

theorem Kept.mem_children (h : t.Kept t') {node child : Nat} (below : child ∈ t.children node) :
    child ∈ t'.children node := (h.children node).subset below

theorem Kept.handler? (h : t.Kept t') (n : Nat) (kind : HandlerKind) :
    t'.handler? n kind = t.handler? n kind := by
  rw [Tree.handler?, Tree.handler?, h.bindings]

/-- What names reach they still reach when the tree has grown. -/
theorem Reaches.kept {node last : Nat} {names : List String} (h : t.Reaches node names last)
    (a : t.Arena) (kept : t.Kept t') : t'.Reaches node names last := by
  induction h with
  | here => exact .here
  | step below named _ ih =>
    refine .step (kept.mem_children below) ?_ ih
    rwa [kept.descriptor _ (a.child_lt _ _ below)]

/-- What names reach among the old nodes they reached before. -/
theorem Reaches.of_kept (a' : t'.Arena) (a : t.Arena) (kept : t.Kept t') {names : List String}
    {n : Nat} (h : t'.Reaches root names n) (inside : n < t.size) : t.Reaches root names n := by
  obtain ⟨names', reached⟩ := a.exists_reaches inside
  rwa [h.names_unique a' (reached.kept a kept)]

end CommandTree.Tree
