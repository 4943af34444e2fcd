import CommandTree.Proofs.Names
import CommandTree.Proofs.NamePaths
import Mathlib.Algebra.Group.Nat.Defs

/-!
# What an insertion adds

A path text stands for all the ways to choose one alternative from each of its segments
(`choices`).  Inserting it below a node makes every choice lead somewhere: the insertion gives the
nodes that the choices reach, in the order of the choices, and adds what was missing on the way and
nothing else.  An old node stays as it was, with new children behind the old.  A new node has the
descriptor that comes first in its segment among those of its name (`Grafted`).

An insertion goes level by level.  Each level is told by two lemmas: what the names of a segment are
found at (`found`), and which nodes are new (`grafted`).  A third tells that nothing is added where
all names are found (`present`).

Results:
* `Segment.length_choices`: the number of choices.
* `growPath_found`, `growPath_grafted`, `growPath_present`: all levels together.
* `insert_refines`: an insertion adds the choices of a text to the paths of a tree, once.
-/
namespace CommandTree

namespace Segment

/-- The names that the segments let one choose, one from each, the last varying fastest. -/
def choices : List Segment → List (List String)
  | [] => [[]]
  | segment :: rest => segment.flatMap fun d => (choices rest).map (d.name :: ·)

theorem length_choices (segments : List Segment) :
    (choices segments).length = (segments.map List.length).prod := by
  induction segments with
  | nil => rfl
  | cons segment rest ih =>
    rw [choices, List.length_flatMap, List.map_cons, List.prod_cons, ← ih]
    simp only [List.length_map, List.map_const', List.sum_replicate_nat]

theorem mem_choices_cons {segment : Segment} {rest : List Segment} {d : Descriptor}
    {names : List String} (hd : d ∈ segment) (hnames : names ∈ choices rest) :
    d.name :: names ∈ choices (segment :: rest) :=
  List.mem_flatMap.2 ⟨d, hd, List.mem_map_of_mem hnames⟩

theorem exists_choice {segments : List Segment} (nonempty : ∀ s ∈ segments, s ≠ []) :
    ∃ names, names ∈ choices segments := by
  induction segments with
  | nil => exact ⟨[], List.mem_singleton_self _⟩
  | cons segment rest ih =>
    rw [List.forall_mem_cons] at nonempty
    obtain ⟨d, hd⟩ := List.exists_mem_of_ne_nil _ nonempty.1
    obtain ⟨names, hnames⟩ := ih nonempty.2
    exact ⟨_, mem_choices_cons hd hnames⟩

theorem append_mem_choices {before after : List Segment} {names names' : List String}
    (h : names ∈ choices before) (h' : names' ∈ choices after) :
    names ++ names' ∈ choices (before ++ after) := by
  induction before generalizing names with
  | nil =>
    rw [List.mem_singleton.1 h]
    exact h'
  | cons segment before ih =>
    obtain ⟨d, hd, chosen⟩ := List.mem_flatMap.1 h
    obtain ⟨names, hnames, rfl⟩ := List.mem_map.1 chosen
    exact mem_choices_cons hd (ih hnames)

theorem all_nonempty (cs : List Char) : ∀ segment ∈ all cs, segment ≠ [] := by
  induction hn : cs.length using Nat.strongRecOn generalizing cs with
  | ind n ih =>
    cases cs with
    | nil => simp [all]
    | cons c cs =>
      rw [all_cons]
      split
      · simp
      · rename_i nonempty
        exact List.forall_mem_cons.2 ⟨nonempty, ih _ (hn ▸ length_read_lt c cs) _ rfl⟩

theorem parse_nonempty (spec : String) : ∀ segment ∈ parse spec, segment ≠ [] :=
  all_nonempty spec.toList

end Segment

namespace Tree

open Segment (choices)

variable {ε : Type} {t t' : Tree ε}

/-- A node hangs below `p`, and of the descriptors of its name it has the one that comes first in
the segment. -/
structure Grafted (t : Tree ε) (segment : Segment) (p n : Nat) : Prop where
  parent : t.parent n = some p
  first : ∃ d, t.descriptor n = some d ∧ segment.find? (·.name == d.name) = some d

theorem Grafted.kept {segment : Segment} {p n : Nat} (h : t.Grafted segment p n)
    (inside : n < t.size) (kept : t.Kept t') : t'.Grafted segment p n where
  parent := (kept.parent n inside).trans h.parent
  first := by
    rw [kept.descriptor n inside]
    exact h.first

/-- A new node leads on by the name of an alternative of its segment. -/
theorem Grafted.step (a : t.Arena) {segment : Segment} {p n : Nat} (h : t.Grafted segment p n) :
    ∃ d ∈ segment, t.Reaches p [d.name] n := by
  obtain ⟨d, described, first⟩ := h.first
  have below := (a.mem_children_iff p n).2 h.parent
  refine ⟨d, List.mem_of_find?_eq_some first, .step below ?_ .here⟩
  rw [described]
  rfl

theorem findChild_kept (a : t.Arena) (a' : t'.Arena) (kept : t.Kept t') {node c : Nat}
    {d : Descriptor} (found : t.findChild node d = some c) : t'.findChild node d = some c := by
  obtain ⟨below, named⟩ := a.findChild_eq_some_iff.1 found
  refine a'.findChild_eq_some_iff.2 ⟨kept.mem_children below, ?_⟩
  rwa [kept.descriptor c (a.child_lt _ _ below)]

theorem Grown.inside (h : Grown t t') {nodes : List Nat} (inside : ∀ n ∈ nodes, n < t.size) :
    ∀ n ∈ nodes, n < t'.size :=
  fun n hn => Nat.lt_of_lt_of_le (inside n hn) h.size_le

/-! ## One name -/

theorem child_found (a : t.Arena) {node : Nat} (inside : node < t.size) (d : Descriptor) :
    (t.child node d).2.findChild node d = some (t.child node d).1 := by
  have a' := a.grown (Grown.child t inside d)
  unfold child at a' ⊢
  split
  · assumption
  · rename_i absent
    rw [absent] at a'
    refine a'.findChild_eq_some_iff.2 ⟨(mem_children_addChild t inside d).2 (.inr ⟨rfl, rfl⟩), ?_⟩
    rw [descriptor_addChild, if_pos rfl]
    rfl

/-- Only a missing child is added, with the descriptor given. -/
theorem child_new {node n : Nat} {d : Descriptor} (old : t.size ≤ n)
    (new : n < (t.child node d).2.size) :
    (t.child node d).2.parent n = some node ∧ (t.child node d).2.descriptor n = some d := by
  unfold child at new ⊢
  cases found : t.findChild node d with
  | some c =>
    simp only [found] at new
    exact absurd new (Nat.not_lt.2 old)
  | none =>
    simp only [found, size_addChild] at new ⊢
    have last : n = t.size := by omega
    rw [parent_addChild, descriptor_addChild, if_pos last, if_pos last]
    exact ⟨rfl, rfl⟩

theorem child_present {node : Nat} {d : Descriptor} (present : (t.findChild node d).isSome) :
    (t.child node d).2 = t := by
  obtain ⟨c, found⟩ := Option.isSome_iff_exists.1 present
  rw [child, found]

/-! ## One segment below one node -/

theorem grow_found (a : t.Arena) {node : Nat} (inside : node < t.size) (ds : Segment) :
    (t.grow node ds).1.map some = ds.map ((t.grow node ds).2.findChild node) := by
  induction ds generalizing t with
  | nil => rfl
  | cons d ds ih =>
    have first := Grown.child t inside d
    have a₁ := a.grown first
    have inside₁ := Nat.lt_of_lt_of_le inside first.size_le
    have rest := (Grown.grow a₁ inside₁ ds).1
    have kept := findChild_kept a₁ (a₁.grown rest) rest.kept (child_found a inside d)
    exact congrArg₂ List.cons kept.symm (ih a₁ inside₁)

theorem grow_grafted (a : t.Arena) {node : Nat} (inside : node < t.size) {ds : Segment} {n : Nat}
    (old : t.size ≤ n) (new : n < (t.grow node ds).2.size) :
    (t.grow node ds).2.Grafted ds node n := by
  induction ds generalizing t with
  | nil => exact absurd new (Nat.not_lt.2 old)
  | cons d ds ih =>
    have first := Grown.child t inside d
    have a₁ := a.grown first
    have inside₁ := Nat.lt_of_lt_of_le inside first.size_le
    have rest := (Grown.grow a₁ inside₁ ds).1
    have a₂ := a₁.grown rest
    by_cases n₁ : n < (t.child node d).2.size
    · obtain ⟨parent, described⟩ := child_new old n₁
      have here : (t.child node d).2.Grafted (d :: ds) node n :=
        ⟨parent, d, described, List.find?_cons_of_pos (by simp)⟩
      exact here.kept n₁ rest.kept
    · have n₁ := Nat.not_lt.1 n₁
      obtain ⟨parent, d', described, found⟩ := ih a₁ inside₁ n₁ new
      refine ⟨parent, d', described, ?_⟩
      rw [List.find?_cons_of_neg, found]
      -- the child of the first name is there before this node is added
      intro same
      obtain ⟨below, named⟩ := a₁.findChild_eq_some_iff.1 (child_found a inside d)
      have before := a₁.child_lt _ _ below
      have one : n = (t.child node d).1 := by
        refine a₂.eq_of_name_eq ((a₂.mem_children_iff _ _).2 parent)
          (rest.kept.mem_children below) ?_
        change (t.child node d).2.grow node ds |>.2.descriptor n = some d' at described
        rw [rest.kept.descriptor _ before, named, described, Option.map_some, beq_iff_eq.1 same]
      omega

theorem grow_present {node : Nat} {ds : Segment}
    (present : ∀ d ∈ ds, (t.findChild node d).isSome) : (t.grow node ds).2 = t := by
  induction ds with
  | nil => rfl
  | cons d ds ih =>
    rw [List.forall_mem_cons] at present
    have same := child_present present.1
    show ((t.child node d).2.grow node ds).2 = t
    rw [same, ih present.2]

/-! ## One segment below several nodes -/

theorem growAll_found (a : t.Arena) (segment : Segment) {nodes : List Nat}
    (inside : ∀ n ∈ nodes, n < t.size) :
    (t.growAll segment nodes).1.map some =
      nodes.flatMap fun node => segment.map ((t.growAll segment nodes).2.findChild node) := by
  induction nodes generalizing t with
  | nil => rfl
  | cons node nodes ih =>
    rw [List.forall_mem_cons] at inside
    have first := (Grown.grow a inside.1 segment).1
    have a₁ := a.grown first
    have inside₁ := first.inside inside.2
    have rest := (Grown.growAll a₁ segment inside₁).1
    have here : (t.grow node segment).1.map some =
        segment.map (((t.grow node segment).2.growAll segment nodes).2.findChild node) := by
      have found := grow_found a inside.1 segment
      rw [found]
      refine List.map_congr_left fun d hd => ?_
      obtain ⟨c, -, hc⟩ := List.mem_map.1 (found ▸ List.mem_map_of_mem hd)
      rw [← hc, findChild_kept a₁ (a₁.grown rest) rest.kept hc.symm]
    rw [List.flatMap_cons]
    show ((t.grow node segment).1 ++ _).map some = _
    rw [List.map_append, here, ih a₁ inside₁]
    rfl

theorem growAll_grafted (a : t.Arena) {segment : Segment} {nodes : List Nat}
    (inside : ∀ n ∈ nodes, n < t.size) {n : Nat} (old : t.size ≤ n)
    (new : n < (t.growAll segment nodes).2.size) :
    ∃ p ∈ nodes, (t.growAll segment nodes).2.Grafted segment p n := by
  induction nodes generalizing t with
  | nil => exact absurd new (Nat.not_lt.2 old)
  | cons node nodes ih =>
    rw [List.forall_mem_cons] at inside
    have first := (Grown.grow a inside.1 segment).1
    have a₁ := a.grown first
    have inside₁ := first.inside inside.2
    have rest := (Grown.growAll a₁ segment inside₁).1
    by_cases n₁ : n < (t.grow node segment).2.size
    · exact ⟨node, List.mem_cons_self, (grow_grafted a inside.1 old n₁).kept n₁ rest.kept⟩
    · obtain ⟨p, hp, grafted⟩ := ih a₁ inside₁ (Nat.not_lt.1 n₁) new
      exact ⟨p, List.mem_cons_of_mem _ hp, grafted⟩

theorem growAll_present {segment : Segment} {nodes : List Nat}
    (present : ∀ node ∈ nodes, ∀ d ∈ segment, (t.findChild node d).isSome) :
    (t.growAll segment nodes).2 = t := by
  induction nodes with
  | nil => rfl
  | cons node nodes ih =>
    rw [List.forall_mem_cons] at present
    have same := grow_present present.1
    show ((t.grow node segment).2.growAll segment nodes).2 = t
    rw [same, ih present.2]

/-- What one level of an insertion comes to, from the nodes it starts at to those it ends at. -/
structure Level (t : Tree ε) (segment : Segment) (nodes next : List Nat) (t' : Tree ε) : Prop where
  grown : t.Grown t'
  inside : ∀ n ∈ next, n < t'.size
  found : next.map some = nodes.flatMap fun node => segment.map (t'.findChild node)
  grafted : ∀ n, t.size ≤ n → n < t'.size → ∃ p ∈ nodes, t'.Grafted segment p n

theorem growAll_level (a : t.Arena) (segment : Segment) {nodes : List Nat}
    (inside : ∀ n ∈ nodes, n < t.size) :
    t.Level segment nodes (t.growAll segment nodes).1 (t.growAll segment nodes).2 where
  grown := (Grown.growAll a segment inside).1
  inside := (Grown.growAll a segment inside).2
  found := growAll_found a segment inside
  grafted _ old new := growAll_grafted a inside old new

theorem Level.found_of_mem {segment : Segment} {nodes next : List Nat}
    (h : t.Level segment nodes next t') {c : Nat} (hc : c ∈ next) :
    ∃ node ∈ nodes, ∃ d ∈ segment, t'.findChild node d = some c := by
  have found : some c ∈ next.map some := List.mem_map_of_mem hc
  rw [h.found] at found
  obtain ⟨node, hnode, found⟩ := List.mem_flatMap.1 found
  obtain ⟨d, hd, found⟩ := List.mem_map.1 found
  exact ⟨node, hnode, d, hd, found⟩

theorem Level.exists_found {segment : Segment} {nodes next : List Nat}
    (h : t.Level segment nodes next t') {node : Nat} (hnode : node ∈ nodes) {d : Descriptor}
    (hd : d ∈ segment) : ∃ c, t'.findChild node d = some c := by
  have found : t'.findChild node d ∈ next.map some := by
    rw [h.found]
    exact List.mem_flatMap.2 ⟨node, hnode, List.mem_map_of_mem hd⟩
  obtain ⟨c, -, hc⟩ := List.mem_map.1 found
  exact ⟨c, hc.symm⟩

/-! ## All segments -/

/-- An insertion ends where the choices lead, in their order. -/
theorem growPath_found (a : t.Arena) (segments : List Segment) {nodes : List Nat}
    (inside : ∀ n ∈ nodes, n < t.size) :
    (t.growPath nodes segments).1.map some =
      nodes.flatMap fun node =>
        (choices segments).map ((t.growPath nodes segments).2.follow node) := by
  induction segments generalizing t nodes with
  | nil => exact (List.flatMap_pure_eq_map some nodes).symm
  | cons segment rest ih =>
    have level := growAll_level a segment inside
    rw [growPath]
    generalize t.growAll segment nodes = grown at level ⊢
    obtain ⟨next, t₁⟩ := grown
    have a₁ : t₁.Arena := a.grown level.grown
    have later := (Grown.growPath a₁ rest level.inside).1
    have step := ih a₁ level.inside
    change (t₁.growPath next rest).1.map some = nodes.flatMap fun node =>
      (choices (segment :: rest)).map ((t₁.growPath next rest).2.follow node)
    generalize t₁.growPath next rest = whole at later step ⊢
    obtain ⟨ends, t₂⟩ := whole
    have a₂ : t₂.Arena := a₁.grown later
    -- where the names behind the first lead from what the first was found at
    let onward (c : Option Nat) := (choices rest).map fun names => c.bind (t₂.follow · names)
    calc ends.map some
        = next.flatMap fun c => onward (some c) := step
      _ = (next.map some).flatMap onward := (List.flatMap_map ..).symm
      _ = nodes.flatMap fun node => segment.flatMap fun d => onward (t₁.findChild node d) := by
          rw [level.found, List.flatMap_assoc]
          simp only [List.flatMap_map]
      _ = nodes.flatMap fun node => (choices (segment :: rest)).map (t₂.follow node) := by
          refine List.flatMap_congr fun node hnode => ?_
          rw [choices, List.map_flatMap]
          refine List.flatMap_congr fun d hd => ?_
          obtain ⟨c, hc⟩ := level.exists_found hnode hd
          rw [List.map_map]
          refine List.map_congr_left fun names _ => ?_
          rw [hc, Function.comp_apply, a₂.follow_cons, findChild_kept a₁ a₂ later.kept hc]

/-- Every new node hangs where the choices from the segments before its own lead. -/
theorem growPath_grafted (a : t.Arena) {segments : List Segment} {nodes : List Nat}
    (inside : ∀ n ∈ nodes, n < t.size) {n : Nat} (old : t.size ≤ n)
    (new : n < (t.growPath nodes segments).2.size) :
    ∃ before segment after, segments = before ++ segment :: after ∧
      ∃ node ∈ nodes, ∃ names ∈ choices before, ∃ p,
        (t.growPath nodes segments).2.Reaches node names p ∧
          (t.growPath nodes segments).2.Grafted segment p n := by
  induction segments generalizing t nodes with
  | nil => exact absurd new (Nat.not_lt.2 old)
  | cons segment rest ih =>
    have level := growAll_level a segment inside
    rw [growPath] at new ⊢
    generalize t.growAll segment nodes = grown at level new ⊢
    obtain ⟨next, t₁⟩ := grown
    have a₁ : t₁.Arena := a.grown level.grown
    have later := (Grown.growPath a₁ rest level.inside).1
    have a₂ := a₁.grown later
    by_cases n₁ : n < t₁.size
    · -- a node of the first level hangs where no name has been followed yet
      obtain ⟨p, hp, grafted⟩ := level.grafted n old n₁
      exact ⟨[], segment, rest, rfl, p, hp, [], List.mem_singleton_self _, p, .here,
        grafted.kept n₁ later.kept⟩
    · obtain ⟨before, own, after, rfl, c, hc, names, hnames, p, reached, grafted⟩ :=
        ih a₁ level.inside (Nat.not_lt.1 n₁) new
      obtain ⟨node, hnode, d, hd, found⟩ := level.found_of_mem hc
      obtain ⟨below, named⟩ := a₂.findChild_eq_some_iff.1 (findChild_kept a₁ a₂ later.kept found)
      exact ⟨segment :: before, own, after, rfl, node, hnode, d.name :: names,
        Segment.mem_choices_cons hd hnames, p, .step below named reached, grafted⟩

/-- Nothing is added where every choice leads somewhere. -/
theorem growPath_present (a : t.Arena) {segments : List Segment}
    (nonempty : ∀ s ∈ segments, s ≠ []) {nodes : List Nat} (inside : ∀ n ∈ nodes, n < t.size)
    (present : ∀ node ∈ nodes, ∀ names ∈ choices segments, (t.follow node names).isSome) :
    (t.growPath nodes segments).2 = t := by
  induction segments generalizing nodes with
  | nil => rfl
  | cons segment rest ih =>
    rw [List.forall_mem_cons] at nonempty
    have onward : ∀ node ∈ nodes, ∀ d ∈ segment, ∀ names ∈ choices rest,
        ∃ c, t.findChild node d = some c ∧ (t.follow c names).isSome := by
      intro node hnode d hd names hnames
      have whole := present node hnode _ (Segment.mem_choices_cons hd hnames)
      rw [a.follow_cons] at whole
      cases found : t.findChild node d with
      | none => simp [found] at whole
      | some c => exact ⟨c, rfl, by simpa [found] using whole⟩
    have same : (t.growAll segment nodes).2 = t := by
      obtain ⟨names, hnames⟩ := Segment.exists_choice nonempty.2
      refine growAll_present fun node hnode d hd => ?_
      obtain ⟨c, found, -⟩ := onward node hnode d hd names hnames
      exact Option.isSome_of_eq_some found
    have level := growAll_level a segment inside
    rw [growPath]
    generalize t.growAll segment nodes = grown at level same ⊢
    obtain ⟨next, t₁⟩ := grown
    obtain rfl : t₁ = t := same
    refine ih nonempty.2 level.inside fun c hc names hnames => ?_
    obtain ⟨node, hnode, d, hd, found⟩ := level.found_of_mem hc
    obtain ⟨c', found', rest⟩ := onward node hnode d hd names hnames
    rw [found] at found'
    rwa [Option.some.inj found']

/-! ## What a path text comes to -/

/-- A list of names leads from the root to some node. -/
def HasPath (t : Tree ε) (names : List String) : Prop := ∃ n, t.Reaches root names n

/-- What adding a path below a node comes to.  The ends are what the choices lead to, in their
order.  The tree has its old paths, and below the node the choices and what they begin with.  Old
nodes stand as they stood, with new children behind the old.  A new node hangs where the choices
from the segments before its own lead, with the first descriptor of its name. -/
structure Inserted (t : Tree ε) (node : Nat) (segments : List Segment) (ends : List Nat)
    (t' : Tree ε) : Prop where
  length_ends : ends.length = (segments.map List.length).prod
  ends_reached : List.Forall₂ (fun names e => ∀ n, t'.Reaches node names n ↔ n = e)
    (choices segments) ends
  hasPath_iff : ∀ path, t'.HasPath path ↔ t.HasPath path ∨ ∃ above, t.Reaches root above node ∧
    ∃ names ∈ choices segments, ∃ start, start <+: names ∧ path = above ++ start
  old : ∀ n < t.size, n < t'.size ∧ t'.parent n = t.parent n ∧ t'.descriptor n = t.descriptor n ∧
    (∀ kind, t'.handler? n kind = t.handler? n kind) ∧ t.children n <+: t'.children n
  new : ∀ n, t.size ≤ n → n < t'.size → ∃ before segment after,
    segments = before ++ segment :: after ∧ ∃ names ∈ choices before, ∃ p d,
      t'.Reaches node names p ∧ t'.parent n = some p ∧ t'.descriptor n = some d ∧
        segment.find? (·.name == d.name) = some d

/-! ## One path text -/

theorem insert_found (a : t.Arena) {node : Nat} (inside : node < t.size) (path : String) :
    (t.insert node path).1.map some =
      (choices (Segment.parse path)).map ((t.insert node path).2.follow node) := by
  have inside : ∀ n ∈ [node], n < t.size := by simpa using inside
  have found := growPath_found a (Segment.parse path) inside
  rwa [List.flatMap_singleton] at found

theorem insert_reached (a : t.Arena) {node : Nat} (inside : node < t.size) (path : String) :
    List.Forall₂ (fun names e => (t.insert node path).2.Reaches node names e)
      (choices (Segment.parse path)) (t.insert node path).1 := by
  have a' := a.grown (Grown.insert a inside path).1
  have same : List.Forall₂ (· = ·)
      ((choices (Segment.parse path)).map ((t.insert node path).2.follow node))
      ((t.insert node path).1.map some) := by
    rw [insert_found a inside path, List.forall₂_eq_eq_eq]
  rw [List.forall₂_map_left_iff, List.forall₂_map_right_iff] at same
  exact same.imp fun _ _ found => a'.follow_eq_some_iff.1 found

theorem exists_follow_insert (a : t.Arena) {node : Nat} (inside : node < t.size) {path : String}
    {names : List String} (chosen : names ∈ choices (Segment.parse path)) :
    ∃ e, (t.insert node path).2.follow node names = some e := by
  have found : (t.insert node path).2.follow node names ∈ (t.insert node path).1.map some := by
    rw [insert_found a inside path]
    exact List.mem_map_of_mem chosen
  obtain ⟨e, -, he⟩ := List.mem_map.1 found
  exact ⟨e, he.symm⟩

theorem insert_grafted (a : t.Arena) {node : Nat} (inside : node < t.size) {path : String} {n : Nat}
    (old : t.size ≤ n) (new : n < (t.insert node path).2.size) :
    ∃ before segment after, Segment.parse path = before ++ segment :: after ∧
      ∃ names ∈ choices before, ∃ p, (t.insert node path).2.Reaches node names p ∧
        (t.insert node path).2.Grafted segment p n := by
  have inside : ∀ n ∈ [node], n < t.size := by simpa using inside
  obtain ⟨before, segment, after, split, node', hnode, rest⟩ := growPath_grafted a inside old new
  obtain rfl := List.mem_singleton.1 hnode
  exact ⟨before, segment, after, split, rest⟩

/-- The paths to new nodes are those that choices begin with. -/
theorem insert_hasPath (a : t.Arena) {node : Nat} (inside : node < t.size) (path : String)
    (names : List String) :
    (t.insert node path).2.HasPath names ↔ t.HasPath names ∨ ∃ above, t.Reaches root above node ∧
      ∃ chosen ∈ choices (Segment.parse path), ∃ start, start <+: chosen ∧
        names = above ++ start := by
  have grown := (Grown.insert a inside path).1
  have a' := a.grown grown
  constructor
  · rintro ⟨n, reached⟩
    by_cases old : n < t.size
    · exact .inl ⟨n, reached.of_kept a' a grown.kept old⟩
    · -- one list of names leads to a new node, and that through `node` and its graft is one
      obtain ⟨before, segment, after, split, chosen, hchosen, p, toParent, grafted⟩ :=
        insert_grafted a inside (Nat.not_lt.1 old) (reached.lt_size a' a'.nonempty)
      obtain ⟨d, hd, last⟩ := grafted.step a'
      obtain ⟨above, toNode⟩ := a.exists_reaches inside
      have nonempty : ∀ s ∈ after, s ≠ [] := fun s hs =>
        Segment.parse_nonempty path s (by rw [split]; simp [hs])
      obtain ⟨others, hothers⟩ := Segment.exists_choice nonempty
      refine .inr ⟨above, toNode, chosen ++ d.name :: others, ?_, chosen ++ [d.name], ?_, ?_⟩
      · rw [split]
        exact Segment.append_mem_choices hchosen (Segment.mem_choices_cons hd hothers)
      · exact (List.prefix_append_right_inj _).2 ⟨others, rfl⟩
      · exact reached.names_unique a' ((toNode.kept a grown.kept).append (toParent.append last))
  · rintro (⟨n, reached⟩ | ⟨above, toNode, chosen, hchosen, start, ⟨rest, rfl⟩, rfl⟩)
    · exact ⟨n, reached.kept a grown.kept⟩
    · obtain ⟨e, found⟩ := exists_follow_insert a inside hchosen
      obtain ⟨mid, first, -⟩ := (a'.follow_eq_some_iff.1 found).split
      exact ⟨mid, (toNode.kept a grown.kept).append first⟩

theorem insert_insert (a : t.Arena) {node : Nat} (inside : node < t.size) (path : String) :
    (t.insert node path).2.insert node path = t.insert node path := by
  have grown := (Grown.insert a inside path).1
  have a' := a.grown grown
  have inside' := Nat.lt_of_lt_of_le inside grown.size_le
  have found := insert_found a inside path
  -- the grown tree has every choice, so nothing is added, and the ends are looked up in one tree
  have present : ((t.insert node path).2.insert node path).2 = (t.insert node path).2 := by
    refine growPath_present a' (Segment.parse_nonempty path) (by simpa using inside') ?_
    intro _ hnode names hnames
    obtain rfl := List.mem_singleton.1 hnode
    obtain ⟨e, he⟩ := exists_follow_insert a inside hnames
    exact Option.isSome_of_eq_some he
  have found' := insert_found a' inside' path
  rw [present, ← found] at found'
  exact Prod.ext (List.map_injective_iff.2 (fun _ _ => Option.some.inj) found') present

/-- **Inserting a path text adds what its choices lead through, once.**  Whatever tree has been
built, inserting below one of its nodes comes to what `Inserted` says, and inserting the same text
below the same node again gives the same ends and changes nothing. -/
theorem insert_refines (t : Tree ε) (built : t.Built) {node : Nat} (inside : node < t.size)
    (path : String) :
    t.Inserted node (Segment.parse path) (t.insert node path).1 (t.insert node path).2 ∧
      (t.insert node path).2.insert node path = t.insert node path := by
  have a := built.arena
  have grown := (Grown.insert a inside path).1
  have a' := a.grown grown
  have kept := grown.kept
  refine ⟨?_, insert_insert a inside path⟩
  exact
    { length_ends := by
        have same := congrArg List.length (insert_found a inside path)
        rwa [List.length_map, List.length_map, Segment.length_choices] at same
      ends_reached := (insert_reached a inside path).imp fun names e reached n =>
        ⟨fun h => h.unique a' reached, fun h => h ▸ reached⟩
      hasPath_iff := insert_hasPath a inside path
      old n hn := ⟨Nat.lt_of_lt_of_le hn kept.size_le, kept.parent n hn, kept.descriptor n hn,
        kept.handler? n, kept.children n⟩
      new n hold hnew := by
        obtain ⟨before, segment, after, split, names, hnames, p, reached, grafted⟩ :=
          insert_grafted a inside hold hnew
        obtain ⟨d, described, first⟩ := grafted.first
        exact ⟨before, segment, after, split, names, hnames, p, d, reached, grafted.parent,
          described, first⟩ }

def rangeTree : Tree Unit := (empty.insert root "range @int(max=5)").2

theorem rangeTree_built : rangeTree.Built := .insert_root .empty _

/-- A path below `range` that goes through the number, whose parameters stay, and through a new
node, and that names one alternative twice. -/
theorem insert_refines_range :
    rangeTree.Built ∧ 1 < rangeTree.size ∧
      (rangeTree.insert 1 "off,@int(min=0) now,late,now").1 = [4, 5, 4, 6, 7, 6] ∧
      (rangeTree.insert 1 "off,@int(min=0) now,late,now").2.children 1 = [2, 3] ∧
      rangeTree.Inserted 1 (Segment.parse "off,@int(min=0) now,late,now")
        (rangeTree.insert 1 "off,@int(min=0) now,late,now").1
        (rangeTree.insert 1 "off,@int(min=0) now,late,now").2 :=
  ⟨rangeTree_built, by decide +kernel, by decide +kernel, by decide +kernel,
    (insert_refines rangeTree rangeTree_built (by decide +kernel) _).1⟩

end Tree

end CommandTree
