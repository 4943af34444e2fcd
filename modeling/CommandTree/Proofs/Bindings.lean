import CommandTree.Proofs.Insertion
import CommandTree.Proofs.Labels
import CommandTree.Proofs.PathValues

/-!
# Handlers after many bindings

A host declares a command by any of its labels and binds handlers to path texts.  Each binding adds
its path to the tree and writes one slot at every end of the path, and the ends of one path may be
ends or inner nodes of another.  In terms of nodes every step depends on the tree so far; in terms
of the names on the way from the root (`handlerAt`) it does not: a binding writes its handler at
the names that its path text lets one choose, and nothing anywhere else.

A declaration leads to the command that has its first label by then.  Labels stay with their
commands, so the declarations of a command are told from its labels in the end.

Results:
* `Built.handlerAt_bindPath`: what one binding writes.
* `Built.handlerAt_bindAll`: after a run of bindings the last one that writes a slot holds.
* `Labelled.trees_declare`: the tree of a command is what its own declarations have built.
* `Registry.last_binding_wins`: the handlers of every listed command.
-/
namespace CommandTree

open Segment (choices)

variable {ε : Type}

/-- A handler to be bound where a path text ends. -/
structure PathBinding (ε : Type) where
  path : String
  kind : HandlerKind
  handler : Handler ε

/-- The binding is for the occasion, and its path text lets one choose the names. -/
def PathBinding.Sets (b : PathBinding ε) (names : List String) (kind : HandlerKind) : Prop :=
  b.kind = kind ∧ names ∈ choices (Segment.parse b.path)

instance (b : PathBinding ε) (names : List String) (kind : HandlerKind) :
    Decidable (b.Sets names kind) :=
  inferInstanceAs (Decidable (_ ∧ _))

/-- The handler that bindings leave at the names: that of the last one to set it. -/
def lastHandler (bindings : List (PathBinding ε)) (names : List String) (kind : HandlerKind) :
    Option (Handler ε) :=
  (bindings.filter fun b => b.Sets names kind).getLast?.map PathBinding.handler

theorem lastHandler_concat (bindings : List (PathBinding ε)) (b : PathBinding ε)
    (names : List String) (kind : HandlerKind) :
    lastHandler (bindings ++ [b]) names kind =
      if b.Sets names kind then some b.handler else lastHandler bindings names kind := by
  rw [lastHandler, List.filter_append, List.filter_singleton]
  split <;> simp_all [lastHandler]

namespace Tree

variable {t t' : Tree ε}

/-- The handler at the node that names lead to from the root. -/
def handlerAt (t : Tree ε) (names : List String) (kind : HandlerKind) : Option (Handler ε) :=
  (t.follow root names).bind fun n => t.handler? n kind

/-- Adds the path of a binding and binds its handler there. -/
def bindOne (t : Tree ε) (b : PathBinding ε) : Tree ε := t.bindPath b.path b.kind b.handler

def bindAll (t : Tree ε) (bindings : List (PathBinding ε)) : Tree ε := bindings.foldl bindOne t

/-! ## One binding -/

theorem nodes_foldl_bind (t : Tree ε) (leaves : List Nat) (kind : HandlerKind) (h : Handler ε) :
    (leaves.foldl (fun t leaf => t.bind leaf kind h) t).nodes = t.nodes := by
  induction leaves generalizing t with
  | nil => rfl
  | cons leaf leaves ih => exact ih (t.bind leaf kind h)

theorem nodes_bindPath (t : Tree ε) (path : String) (kind : HandlerKind) (h : Handler ε) :
    (t.bindPath path kind h).nodes = (t.insert root path).2.nodes :=
  nodes_foldl_bind _ _ kind h

theorem follow_of_nodes (same : t'.nodes = t.nodes) (node : Nat) (names : List String) :
    t'.follow node names = t.follow node names := by
  induction names generalizing node with
  | nil => rfl
  | cons name names ih =>
    have found : ∀ d, t'.findChild node d = t.findChild node d := by
      intro d
      unfold findChild children descriptor
      rw [same]
    rw [follow, follow, found]
    exact congrArg _ (funext ih)

theorem handlerAt_of_reaches (a : t.Arena) {names : List String} {n : Nat}
    (reached : t.Reaches root names n) (kind : HandlerKind) :
    t.handlerAt names kind = t.handler? n kind := by
  rw [handlerAt, a.follow_eq_some_iff.2 reached]
  rfl

theorem Arena.handler?_of_size_le (a : t.Arena) {n : Nat} (outside : t.size ≤ n)
    (kind : HandlerKind) : t.handler? n kind = none := by
  rw [handler?, Option.map_eq_none_iff, List.find?_eq_none]
  intro b hb matched
  have inside := a.bound b hb
  have here : b.node = n := by simp_all
  omega

/-- Growing leaves the handlers at all names alone. -/
theorem Grown.handlerAt (grown : Grown t t') (a : t.Arena) (names : List String)
    (kind : HandlerKind) :
    ((t'.follow root names).bind fun n => t.handler? n kind) = t.handlerAt names kind := by
  have a' := a.grown grown
  cases found : t'.follow root names with
  | none =>
    have absent : t.follow root names = none := by
      by_contra present
      obtain ⟨n, hn⟩ := Option.ne_none_iff_exists'.1 present
      have reached := (a.follow_eq_some_iff.1 hn).kept a grown.kept
      rw [a'.follow_eq_some_iff.2 reached] at found
      cases found
    rw [Tree.handlerAt, absent]
  | some n =>
    have reached := a'.follow_eq_some_iff.1 found
    by_cases old : n < t.size
    · rw [handlerAt_of_reaches a (reached.of_kept a' a grown.kept old), Option.bind_some]
    · -- a new node has no handler, and its names lead nowhere in the old tree
      have absent : t.follow root names = none := by
        by_contra present
        obtain ⟨m, hm⟩ := Option.ne_none_iff_exists'.1 present
        have reached' := a.follow_eq_some_iff.1 hm
        have same := (reached'.kept a grown.kept).unique a' reached
        exact old (same ▸ reached'.lt_size a a.nonempty)
      rw [Tree.handlerAt, absent]
      exact a.handler?_of_size_le (Nat.not_lt.1 old) kind

/-- The ends of a path are where the names lead that it lets one choose. -/
theorem Arena.mem_insert_iff (a : t.Arena) {path : String} {names : List String} {n : Nat}
    (found : (t.insert root path).2.follow root names = some n) :
    n ∈ (t.insert root path).1 ↔ names ∈ choices (Segment.parse path) := by
  have a' := a.grown (Grown.insert a a.nonempty path).1
  have ends : some n ∈ (t.insert root path).1.map some ↔ ∃ names ∈ choices (Segment.parse path),
      (t.insert root path).2.follow root names = some n := by
    rw [insert_found a a.nonempty path, List.mem_map]
  constructor
  · intro hn
    obtain ⟨names', chosen, found'⟩ := ends.1 (List.mem_map_of_mem hn)
    have same := (a'.follow_eq_some_iff.1 found).names_unique a' (a'.follow_eq_some_iff.1 found')
    exact same ▸ chosen
  · intro chosen
    have hn := ends.2 ⟨names, chosen, found⟩
    simpa using hn

/-- A binding writes its handler at the names that its path text lets one choose, for its own
occasion, and leaves everything else alone. -/
theorem Built.handlerAt_bindOne (built : t.Built) (b : PathBinding ε) (names : List String)
    (kind : HandlerKind) :
    (t.bindOne b).handlerAt names kind =
      if b.Sets names kind then some b.handler else t.handlerAt names kind := by
  have a := built.arena
  have grown := (Grown.insert a a.nonempty b.path).1
  have later : (t.bindOne b).handlerAt names kind =
      ((t.insert root b.path).2.follow root names).bind fun n =>
        if n ∈ (t.insert root b.path).1 ∧ kind = b.kind then some b.handler
        else t.handler? n kind := by
    rw [handlerAt, bindOne, follow_of_nodes (nodes_bindPath t b.path b.kind b.handler)]
    exact congrArg _ (funext fun n => a.handler?_bindPath b.path b.kind b.handler n kind)
  have sets : ∀ {n}, (t.insert root b.path).2.follow root names = some n →
      ((n ∈ (t.insert root b.path).1 ∧ kind = b.kind) ↔ b.Sets names kind) := by
    intro n found
    rw [a.mem_insert_iff found, PathBinding.Sets, and_comm, eq_comm]
  rw [later]
  split
  · rename_i here
    obtain ⟨e, found⟩ := exists_follow_insert a a.nonempty here.2
    rw [found, Option.bind_some, if_pos ((sets found).2 here)]
  · rename_i elsewhere
    rw [← grown.handlerAt a names kind]
    cases found : (t.insert root b.path).2.follow root names with
    | none => rfl
    | some n => rw [Option.bind_some, Option.bind_some, if_neg (mt (sets found).1 elsewhere)]

theorem Built.handler?_bindPath (built : t.Built) (b : PathBinding ε) {names : List String}
    {node : Nat} (reached : (t.bindPath b.path b.kind b.handler).Reaches root names node)
    (kind : HandlerKind) :
    (t.bindPath b.path b.kind b.handler).handler? node kind =
      if b.Sets names kind then some b.handler else t.handler? node kind := by
  have a := built.arena
  have grown := (Grown.insert a a.nonempty b.path).1
  have a' := (built.bindPath b.path b.kind b.handler).arena
  have written := built.handlerAt_bindOne b names kind
  have found : (t.insert root b.path).2.follow root names = some node := by
    rw [← follow_of_nodes (nodes_bindPath t b.path b.kind b.handler)]
    exact a'.follow_eq_some_iff.2 reached
  have before := grown.handlerAt a names kind
  rw [found, Option.bind_some] at before
  rw [bindOne, handlerAt_of_reaches a' reached, ← before] at written
  exact written

/-! ## Many bindings -/

theorem Built.bindAll (built : t.Built) (bindings : List (PathBinding ε)) :
    (t.bindAll bindings).Built := by
  induction bindings generalizing t with
  | nil => exact built
  | cons b bindings ih => exact ih (built.bindPath b.path b.kind b.handler)

theorem bindAll_append (t : Tree ε) (first second : List (PathBinding ε)) :
    t.bindAll (first ++ second) = (t.bindAll first).bindAll second :=
  List.foldl_append

/-- After a run of bindings the last one that sets a slot holds there, and the old handler where
none does. -/
theorem Built.handlerAt_bindAll (built : t.Built) (bindings : List (PathBinding ε))
    (names : List String) (kind : HandlerKind) :
    (t.bindAll bindings).handlerAt names kind =
      (lastHandler bindings names kind).or (t.handlerAt names kind) := by
  -- from the last binding on backwards, as it overrides all that went before
  induction bindings using List.reverseRecOn with
  | nil => rfl
  | append_singleton bindings b ih =>
    rw [bindAll_append, lastHandler_concat]
    change ((t.bindAll bindings).bindOne b).handlerAt names kind = _
    rw [(built.bindAll bindings).handlerAt_bindOne, ih]
    split <;> rfl

theorem handlerAt_empty (names : List String) (kind : HandlerKind) :
    (empty : Tree ε).handlerAt names kind = none := by
  unfold handlerAt
  cases (empty : Tree ε).follow root names <;> rfl

end Tree

/-! ## Declarations of a registry -/

/-- Handlers bound to the command that a label text leads to. -/
structure Declaration (ε : Type) where
  label : String
  bindings : List (PathBinding ε)

namespace Declaration

def change (d : Declaration ε) : Registry.Change ε := .command d.label (·.bindAll d.bindings)

/-- The first label of the text is one of the labels. -/
def isFor (d : Declaration ε) (labels : List String) : Bool :=
  (labelsOf d.label).head?.any (labels.contains ·)

end Declaration

/-- The bindings of those declarations that are for a command with the labels, in their order. -/
def bindingsFor (labels : List String) (declarations : List (Declaration ε)) :
    List (PathBinding ε) :=
  (declarations.filter (·.isFor labels)).flatMap Declaration.bindings

namespace Registry

variable {r : Registry ε}

/-- The registry after declarations. -/
def declare (r : Registry ε) (declarations : List (Declaration ε)) : Registry ε :=
  r.applyAll (declarations.map Declaration.change)

/-- The tree of the command at a position, the empty one where no command is yet. -/
def treeAt (r : Registry ε) (i : Nat) : Tree ε := (r.trees[i]?).getD .empty

theorem Labelled.isFor_iff (h : r.Labelled) (d : Declaration ε) (i : Nat) :
    d.isFor (r.aliasesAt i) = true ↔ r.known? d.label = some i := by
  unfold Declaration.isFor known?
  cases (labelsOf d.label).head? with
  | none => simp
  | some label => simp [h.table_iff]

theorem aliasesAt_claim_of_ne {index i : Nat} (ne : index ≠ i) (labels : List String) :
    (r.claim index labels).aliasesAt i = r.aliasesAt i :=
  claim_keeps (P := fun s => s.aliasesAt i = r.aliasesAt i)
    (fun s label _ _ same => by
      rw [← same, aliasesAt, aliasesAt, getElem?_commands_assign, if_neg ne]) rfl

/-- A command that has no label never gets one. -/
theorem Labelled.nameless_apply (h : r.Labelled) {i : Nat} (inside : i < r.commands.size)
    (nameless : r.aliasesAt i = []) (change : Change ε) :
    i < (r.apply change).commands.size ∧ (r.apply change).aliasesAt i = [] := by
  cases change with
  | command text build =>
    rw [Registry.apply, command_eq, aliasesAt_rebuild]
    have same : (r.place text).2.aliasesAt i = r.aliasesAt i ∧
        i < (r.place text).2.commands.size := by
      cases known : r.known? text with
      | some j =>
        obtain ⟨label, -, found⟩ := Option.bind_eq_some_iff.1 known
        have other : j ≠ i := by
          rintro rfl
          have held := (h.table_iff label j).1 found
          rw [nameless] at held
          cases held
        rw [place_of_known known, size_claim]
        exact ⟨aliasesAt_claim_of_ne other _, inside⟩
      | none =>
        rw [place_of_unknown known, size_claim]
        refine ⟨?_, ?_⟩
        · rw [aliasesAt_claim_of_ne (Nat.ne_of_gt inside), aliasesAt_extend]
        · simp only [extend, Array.size_push]
          omega
    refine ⟨?_, same.1.trans nameless⟩
    rw [rebuild, Array.size_modify]
    exact same.2
  | registerType name type => exact ⟨inside, nameless⟩
  | unregisterType name => exact ⟨inside, nameless⟩

theorem Labelled.nameless_applyAll (h : r.Labelled) {i : Nat} (inside : i < r.commands.size)
    (nameless : r.aliasesAt i = []) (changes : List (Change ε)) :
    (r.applyAll changes).aliasesAt i = [] := by
  induction changes generalizing r with
  | nil => exact nameless
  | cons change rest ih =>
    obtain ⟨inside', nameless'⟩ := h.nameless_apply inside nameless change
    exact ih (h.apply change) inside' nameless'

theorem known?_applyAll {text : String} {i : Nat} (known : r.known? text = some i)
    (changes : List (Change ε)) : (r.applyAll changes).known? text = some i := by
  obtain ⟨label, first, found⟩ := Option.bind_eq_some_iff.1 known
  rw [known?, first]
  exact lookup_applyAll_of_some found changes

/-- Building at a label text builds on the tree of the command that it leads to, and on no other. -/
theorem Labelled.treeAt_command (h : r.Labelled) (text : String) (build : Tree ε → Tree ε)
    (i : Nat) :
    (r.command text build).treeAt i =
      if i = (r.place text).1 then build (r.treeAt i) else r.treeAt i := by
  have len : r.commands.size = r.trees.length := by simp [trees]
  unfold treeAt
  cases known : r.known? text with
  | some j =>
    obtain ⟨place, -, trees⟩ := command_of_known known build
    have inside : j < r.trees.length := by
      obtain ⟨label, -, found⟩ := Option.bind_eq_some_iff.1 known
      exact len ▸ h.lt_size found
    rw [trees, place, List.getElem?_modify]
    by_cases here : i = j
    · subst here
      simp [List.getElem?_eq_getElem inside]
    · simp [here, Ne.symm here]
  | none =>
    obtain ⟨place, -, trees⟩ := command_of_unknown known build
    rw [trees, place, len]
    rcases Nat.lt_trichotomy i r.trees.length with old | new | beyond
    · rw [List.getElem?_append_left old, if_neg (Nat.ne_of_lt old)]
    · subst new
      simp
    · rw [if_neg (Nat.ne_of_gt beyond), List.getElem?_eq_none, List.getElem?_eq_none (by omega)]
      rw [List.length_append, List.length_singleton]
      omega

theorem known?_command_of_unknown {text : String} (known : r.known? text = none)
    (build : Tree ε → Tree ε) {label : String} {rest : List String}
    (labels : labelsOf text = label :: rest) :
    (r.apply (.command text build)).known? text = some r.commands.size := by
  have free : r.extend.labels.lookup label = none := by
    rwa [known?, labels] at known
  have assigned : (r.extend.assign r.commands.size label).labels.lookup label =
      some r.commands.size := by
    rw [lookup_assign, free, if_pos rfl, Option.none_or]
  rw [known?, labels, List.head?_cons, Option.bind_some, Registry.apply, command_eq,
    place_of_unknown known, labels, claim_cons, free]
  exact lookup_claim_of_some assigned _ _

theorem Labelled.aliasesAt_new_of_nil (h : r.Labelled) {text : String}
    (known : r.known? text = none) (build : Tree ε → Tree ε) (labels : labelsOf text = [])
    (later : List (Change ε)) :
    ((r.apply (.command text build)).applyAll later).aliasesAt r.commands.size = [] := by
  have nameless : (r.apply (.command text build)).aliasesAt r.commands.size = [] := by
    rw [Registry.apply, command_eq, aliasesAt_rebuild, place_of_unknown known, labels]
    change r.extend.aliasesAt r.commands.size = []
    rw [aliasesAt_extend, aliasesAt]
    simp
  have inside : r.commands.size < (r.apply (.command text build)).commands.size := by
    rw [Registry.apply, command_eq, rebuild, Array.size_modify, place_of_unknown known,
      size_claim]
    simp [extend]
  exact (h.apply _).nameless_applyAll inside nameless later

/-- A command with labels is the one that a label text has led to exactly if it has the first label
of the text. -/
theorem Labelled.known?_iff_place (h : r.Labelled) (text : String) (build : Tree ε → Tree ε)
    (later : List (Change ε)) {i : Nat}
    (labelled : ((r.apply (.command text build)).applyAll later).aliasesAt i ≠ []) :
    ((r.apply (.command text build)).applyAll later).known? text = some i ↔
      i = (r.place text).1 := by
  have leads : ∀ {j}, ((r.apply (.command text build)).applyAll later).known? text = some j →
      (r.place text).1 = j →
      (((r.apply (.command text build)).applyAll later).known? text = some i ↔
        i = (r.place text).1) := by
    intro j known place
    rw [known, place, Option.some.injEq, eq_comm]
  cases known : r.known? text with
  | some j =>
    have known' := known?_applyAll known (.command text build :: later)
    exact leads known' (command_of_known known build).1
  | none =>
    have place := (command_of_unknown known build).1
    cases labels : labelsOf text with
    | cons label rest =>
      exact leads (known?_applyAll (known?_command_of_unknown known build labels) later) place
    | nil =>
      -- the new command has no label and gets none, so it is not the one at hand
      have other : i ≠ r.commands.size := by
        rintro rfl
        exact labelled (h.aliasesAt_new_of_nil known build labels later)
      have unknown : ((r.apply (.command text build)).applyAll later).known? text = none := by
        rw [known?, labels]
        rfl
      rw [unknown, place]
      simp [other]

/-- The tree of a command with labels is what its own declarations have built. -/
theorem Labelled.treeAt_declare (h : r.Labelled) (declarations : List (Declaration ε)) {i : Nat}
    (labelled : (r.declare declarations).aliasesAt i ≠ []) :
    (r.declare declarations).treeAt i =
      (r.treeAt i).bindAll (bindingsFor ((r.declare declarations).aliasesAt i) declarations) := by
  induction declarations generalizing r with
  | nil => rfl
  | cons d rest ih =>
    have final : (r.declare (d :: rest)).Labelled := h.applyAll _
    have later : r.declare (d :: rest) = (r.apply d.change).declare rest := rfl
    have leads := h.known?_iff_place d.label (·.bindAll d.bindings)
      (rest.map Declaration.change) labelled
    have here : d.isFor ((r.declare (d :: rest)).aliasesAt i) = true ↔ i = (r.place d.label).1 :=
      (final.isFor_iff d i).trans leads
    have step : (r.apply d.change).treeAt i =
        if i = (r.place d.label).1 then (r.treeAt i).bindAll d.bindings else r.treeAt i :=
      h.treeAt_command d.label (·.bindAll d.bindings) i
    rw [later] at labelled here ⊢
    rw [ih (h.apply d.change) labelled, step, bindingsFor, bindingsFor, List.filter_cons]
    split
    · rename_i placed
      rw [if_pos (here.2 placed), List.flatMap_cons, Tree.bindAll_append]
    · rename_i elsewhere
      rw [if_neg (mt here.1 elsewhere)]

/-! ## The handlers of a command -/

/-- The tree of a listed command is what the bindings by its own labels have built. -/
theorem tree_of_listed (types : TypeTable ε) (settings : Settings)
    {declarations : List (Declaration ε)} {c : Command ε}
    (listed : c ∈ (({ types, settings } : Registry ε).declare declarations).listed) :
    c.tree = Tree.empty.bindAll (bindingsFor c.aliases declarations) := by
  obtain ⟨present, named⟩ := List.mem_filter.1 listed
  obtain ⟨i, hc, labels⟩ := exists_aliasesAt (Array.mem_toList_iff.1 present)
  have labelled :
      (({ types, settings } : Registry ε).declare declarations).aliasesAt i ≠ [] := by
    rw [labels]
    simpa using named
  have whole := (labelled_empty types settings).treeAt_declare declarations labelled
  rwa [treeAt, getElem?_trees, hc, labels] at whole

/-- **The last binding wins, on every run of bindings.**  Whatever handlers have been bound, to
whatever path texts, by whatever labels and in whatever order, take a listed command and the
bindings that were made by a label of its own.  Every node of its tree has one list of names that
leads to it from the root, and its handler for an occasion is that of the last of these bindings
which is for this occasion and lets one choose these names; it has none if there is no such binding.
One more binding changes the handler for its own occasion at the names that its path text lets one
choose, and no other. -/
theorem last_binding_wins (types : TypeTable ε) (settings : Settings)
    (declarations : List (Declaration ε)) :
    let r := ({ types, settings } : Registry ε).declare declarations
    ∀ c ∈ r.listed,
      (∀ node < c.tree.size, ∃ names,
        (∀ names', c.tree.Reaches Tree.root names' node ↔ names' = names) ∧
        ∀ kind, c.tree.handler? node kind =
          lastHandler (bindingsFor c.aliases declarations) names kind) ∧
      ∀ (b : PathBinding ε) (names : List String) (node : Nat),
        (c.tree.bindPath b.path b.kind b.handler).Reaches Tree.root names node → ∀ kind,
          (c.tree.bindPath b.path b.kind b.handler).handler? node kind =
            if b.Sets names kind then some b.handler else c.tree.handler? node kind := by
  intro r c listed
  have tree := tree_of_listed types settings listed
  have built : c.tree.Built := tree ▸ Tree.Built.empty.bindAll _
  have a := built.arena
  refine ⟨fun node inside => ?_, fun b names node reached kind => ?_⟩
  · obtain ⟨names, reached⟩ := a.exists_reaches inside
    refine ⟨names, fun names' => ⟨fun h' => h'.names_unique a reached, fun h' => h' ▸ reached⟩, ?_⟩
    intro kind
    have whole := Tree.Built.empty.handlerAt_bindAll (bindingsFor c.aliases declarations) names kind
    rw [← tree, Tree.handlerAt_of_reaches a reached, Tree.handlerAt_empty, Option.or_none] at whole
    exact whole
  · exact built.handler?_bindPath b reached kind

/-- A handler told apart from others by its arity. -/
def numbered (arity : Nat) : Handler Unit := ⟨arity, fun env _ => { env }⟩

/-- One command under three labels, with bindings of another command between its own.  Two of its
paths overlap in one end, and another ends at an inner node of both. -/
def shopping : List (Declaration Unit) :=
  [⟨"Shop|s", [⟨"buy,sell @int", .execute, numbered 1⟩, ⟨"", .default, numbered 0⟩]⟩,
    ⟨"bank", [⟨"sell @int", .execute, numbered 9⟩]⟩,
    ⟨"S|store", [⟨"sell,rent @int", .execute, numbered 2⟩, ⟨"sell", .error, numbered 3⟩]⟩,
    ⟨"STORE", [⟨"rent", .execute, numbered 4⟩]⟩]

/-- The number below `sell` has the second handler of its slot, the one below `buy` the first; a
further binding to `sell` and `buy` alone leaves both. -/
theorem last_binding_wins_shopping :
    let r := ({ types := .standard, settings := {} } : Registry Unit).declare shopping
    let b : PathBinding Unit := ⟨"buy,sell", .execute, numbered 5⟩
    ∃ c ∈ r.listed, c.aliases = ["shop", "s", "store"] ∧ c.tree.size = 7 ∧
      (∃ names, (∀ names', c.tree.Reaches Tree.root names' 4 ↔ names' = names) ∧
        ∀ kind, c.tree.handler? 4 kind =
          lastHandler (bindingsFor c.aliases shopping) names kind) ∧
      (c.tree.handler? 3 .execute).map Handler.arity = some 1 ∧
      (c.tree.handler? 4 .execute).map Handler.arity = some 2 ∧
      (c.tree.bindPath b.path b.kind b.handler).handler? 4 .execute = c.tree.handler? 4 .execute := by
  intro r b
  have first : r.listed.head?.map (fun c =>
      (c.aliases, c.tree.size, (c.tree.handler? 3 .execute).map Handler.arity,
        (c.tree.handler? 4 .execute).map Handler.arity,
        (c.tree.bindPath b.path b.kind b.handler).follow Tree.root ["sell", "@int"])) =
      some (["shop", "s", "store"], 7, some 1, some 2, some 4) := by decide +kernel
  obtain ⟨c, head, facts⟩ := Option.map_eq_some_iff.1 first
  simp only [Prod.mk.injEq] at facts
  obtain ⟨labels, size, three, four, found⟩ := facts
  have listed := List.mem_of_mem_head? head
  obtain ⟨handlers, further⟩ := last_binding_wins (ε := Unit) .standard {} shopping c listed
  refine ⟨c, listed, labels, size, handlers 4 (size ▸ by decide), three, four, ?_⟩
  have built : c.tree.Built := tree_of_listed .standard {} listed ▸ Tree.Built.empty.bindAll _
  have reached := (built.bindPath b.path b.kind b.handler).arena.follow_eq_some_iff.1 found
  rw [further b _ 4 reached .execute, if_neg (by decide +kernel)]

end Registry

end CommandTree
