import CommandTree.Proofs.Ledger
import CommandTree.Proofs.SwitchOrder

/-!
# Pairs behind the last node of a path

A pair that stands behind the last token of a path is read behind a leaf, and its switch is used.
At a node with children the same pair is read by the children, each on its own copy of the context.
If none of them matches, the copies are given up and the pair with them: the switch waits on, and
its default goes to the handler.

Results:
* `below_eq_of_walks`: what stands below the end of a match.
* `trailing_pair_used`: the pair behind a path is used at a leaf and nowhere else.
* `trailing_pair_lost`: a value that is given on the line and does not reach its handler.
-/
namespace CommandTree

variable {ε : Type}

namespace Grammar

variable {g : Grammar ε}

theorem below_eq_of_walks (a : g.tree.Arena) {node last : Nat} {line rest : Option String}
    {ctx ctx' : Context ε} {chain : List (Slot ε)}
    (walks : g.Walks node line ctx chain last rest ctx')
    (whole : (g.below node line ctx).chain = chain) :
    g.below last rest ctx' = ⟨[], (g.below node line ctx).context⟩ := by
  induction walks with
  | here => rw [← whole]
  | @down node child last line line' line'' ctx ctx₁ ctx' slot chain below passes _ ih =>
    have here := resolve_of_passes a (a.child_lt node child below) passes
    -- the child that the walk enters is the one that the match follows
    have followed : g.below node line ctx = g.resolve child line ctx := by
      rcases below_cases (Tree.isLeaf_of_mem below) line ctx with ⟨-, he⟩ | ⟨best, hbest, hne, he⟩
      · rw [he] at whole
        cases whole
      · obtain ⟨first, tail, hcons, hfirst⟩ := resolve_head a hbest.mem hne
        rw [he, hcons] at whole
        injection whole with same
        rw [he, ← hfirst, same, passes.node_eq]
    rw [followed, here] at whole
    rw [ih (List.cons.inj whole).2, followed, here]

theorem context_below_of_inner {node : Nat} (inner : g.tree.isLeaf node = false)
    {line : Option String} {ctx : Context ε} (empty : (g.below node line ctx).chain = []) :
    (g.below node line ctx).context = ctx := by
  rcases below_cases inner line ctx with ⟨-, he⟩ | ⟨best, -, hne, he⟩
  · rw [he]
  · rw [he] at empty
    exact absurd empty hne

/-- Where one child lets the path go on and no other has a match, the match goes on behind that
child. -/
theorem below_of_passes (a : g.tree.Arena) {node child : Nat} {line rest : Option String}
    {ctx ctx' : Context ε} {slot : Slot ε} (below : child ∈ g.tree.children node)
    (others : ∀ c ∈ g.tree.children node, c ≠ child → (g.resolve c line ctx).chain = [])
    (passes : g.Passes child line ctx slot rest ctx') :
    g.below node line ctx =
      ⟨slot :: (g.below child rest ctx').chain, (g.below child rest ctx').context⟩ := by
  have match_eq := resolve_of_passes a (a.child_lt node child below) passes
  rw [below_eq_of_alone below others (by simp [match_eq]), match_eq]

theorem below_eq_of_only (a : g.tree.Arena) {node child : Nat}
    (only : g.tree.children node = [child]) {line rest : Option String} {ctx ctx' : Context ε}
    {slot : Slot ε} (passes : g.Passes child line ctx slot rest ctx') :
    g.below node line ctx =
      ⟨slot :: (g.below child rest ctx').chain, (g.below child rest ctx').context⟩ := by
  refine below_of_passes a (only ▸ List.mem_cons_self) (fun c hc other => ?_) passes
  exact absurd (List.mem_singleton.1 (only ▸ hc)) other

/-- An only child that lets the path go on is on the match. -/
theorem below_of_only (a : g.tree.Arena) {node child : Nat} (only : g.tree.children node = [child])
    {line rest : Option String} {ctx ctx' : Context ε} {slot : Slot ε}
    (passes : g.Passes child line ctx slot rest ctx') :
    (g.below node line ctx).chain = slot :: (g.below child rest ctx').chain :=
  congrArg Match.chain (below_eq_of_only a only passes)

/-- At a leaf the pairs that follow are read. -/
theorem context_below_of_leaf {node : Nat} (leaf : g.tree.isLeaf node = true)
    (line : Option String) (ctx : Context ε) :
    ctx.Trails line (g.below node line ctx).context := by
  rw [below, if_pos leaf]
  exact Context.takeTrailing_eq_iff.1 rfl

theorem below_of_leaf {node : Nat} (leaf : g.tree.isLeaf node = true) (ctx : Context ε) :
    g.below node none ctx = ⟨[], ctx⟩ := by
  rw [below, if_pos leaf, takeTrailing, Context.takePairs_of_not_dashed not_dashed_none]

end Grammar

/-! ## The pair behind a path -/

/-- The slot of a switch that has taken the value behind its flag. -/
def Slot.typed (s : Slot ε) (value : String) : Slot ε :=
  s.holding ⟨some (Text.cut ' ' value).1, (Text.cut ' ' value).2⟩

theorem Slot.consume_typed {s : Slot ε} (basic : s.type.Basic) (value : String) :
    s.type.consume s.descriptor (some value) =
      .ok ⟨some (Text.cut ' ' value).1, (Text.cut ' ' value).2⟩ := by
  rw [basic.consume_eq, consumeToken_some]

namespace Grammar

/-- **The pair behind a path is used at a leaf and nowhere else.**  Let the walk along the chain of
a match end at the node `last`, and let a pair stand there that a waiting switch answers to.  If the
node is a leaf, the switch is recorded as used with the value of the pair, and this value counts for
it.  If the node has children, the switch still waits, and what an absent token becomes counts. -/
theorem trailing_pair_used (g : Grammar ε) (built : g.tree.Built)
    (basic : ∀ node slot, g.slot? node = some slot → slot.type.Basic) (env : ε) (limit : Nat)
    (line : Option String) (found : Match ε)
    (resolved : g.resolve Tree.root line { env, limit } = found) (last : Nat) (flag value : String)
    (word : ' ' ∉ flag.toList) (ctx : Context ε)
    (walks : g.Walks Tree.root line { env, limit } found.chain last
      (some ("-" ++ (flag ++ " " ++ value))) ctx)
    (s : Slot ε) (others : Context ε) (answers : ctx.Answers flag s others) :
    s ∈ found.chain ∧
      found.context.consumed? s.node =
        (if g.tree.isLeaf last then some (s.typed value) else none) ∧
      (g.tree.isLeaf last = false → s ∈ found.context.switches) ∧
      ∀ t, found.context.Counts s t ↔
        if g.tree.isLeaf last then t = s.typed value
        else ∃ taken, s.type.consume s.descriptor none = .ok taken ∧ t = s.holding taken := by
  have a := built.arena
  have derives := resolve_derives (g := g) a line { env, limit }
  rw [resolved] at derives
  have nodup := derives.nodup a
  rw [resolve_root a] at resolved
  have end_eq := below_eq_of_walks a walks (congrArg Match.chain resolved)
  rw [resolved] at end_eq
  obtain ⟨pieces, walked⟩ := walks.ledger
  have waiting : s ∈ ctx.switches := by
    obtain ⟨waiting, -, -⟩ := answers
    rw [waiting]
    exact List.mem_append_right _ List.mem_cons_self
  have passed : s ∈ waitsOf found.chain := walked.mem_waitsOf_iff.2 (.inl waiting)
  obtain ⟨mem, switch⟩ := List.mem_filter.1 passed
  refine ⟨mem, ?_⟩
  cases leaf : g.tree.isLeaf last with
  | true =>
    -- the pair is read behind the walk, and the trailing ones behind it
    have consumed := Slot.consume_typed (basic _ _ (derives.standing passed)) value
    have takes := Context.Takes.pair word answers consumed
    have trailing := context_below_of_leaf leaf (some ("-" ++ (flag ++ " " ++ value))) ctx
    rw [end_eq, ← Context.takeTrailing_eq_iff, Context.takeTrailing_of_takes takes,
      Context.takeTrailing_eq_iff] at trailing
    obtain ⟨pieces', dropped, rest', trailed, -⟩ := trailing.ledger g
    have whole := (walked.trans (answers.ledger g word consumed)).trans trailed
    rw [List.append_nil, List.append_nil] at whole
    have used : found.context.consumed? s.node = some (s.typed value) :=
      whole.consumed?_of_pair nodup
        (List.mem_append_left _ (List.mem_append_right _ List.mem_cons_self))
    exact ⟨used, by simp, fun t => Context.counts_iff_of_used used⟩
  | false =>
    have same : found.context = ctx := by
      rw [← context_below_of_inner leaf (congrArg Match.chain end_eq), end_eq]
    have unused := walked.consumed?_of_waiting nodup waiting
    rw [same]
    exact ⟨unused, fun _ => waiting, fun t => Context.counts_iff_of_unused unused switch⟩

end Grammar

/-! ## A value that does not reach its handler -/

def pagedTree : Tree (List Value) :=
  ((Tree.empty.insert Tree.root "list @string(switch=page|p, default=1)").2.insert Tree.root
    "list @string(switch=page|p, default=1) all").2.bind 2 .execute
      ⟨1, fun _ args => { env := args.values }⟩

def pagedGrammar : Grammar (List Value) := ⟨pagedTree, .standard, {}⟩

theorem pagedTree_shape :
    2 < pagedTree.size ∧
      (pagedTree.descriptor 1).map (fun d => (d.name, d.params.entries)) = some ("list", []) ∧
      (pagedTree.descriptor 2).map (fun d => (d.name, d.params.entries)) =
        some ("@string", [("switch", "page|p"), ("default", "1")]) ∧
      pagedTree.children Tree.root = [1] ∧ pagedTree.children 1 = [2] ∧
      pagedTree.isLeaf 2 = false ∧
      nodesOf (pagedGrammar.resolve Tree.root (some "list -p 4") { env := [] }).chain =
        [1, 2] := by
  decide +kernel

theorem pagedTree_built : pagedTree.Built :=
  .bind (.insert_root (.insert_root .empty _) _) pagedTree_shape.1 _ _

/-- The line `list -p 4` gives the page, and the handler of the page is run with the default. -/
theorem trailing_pair_lost :
    nodesOf (pagedGrammar.matchOf "list -p 4" { env := [] }).chain = [1, 2] ∧
      nodesOf (pagedGrammar.matchOf "list -p 4" { env := [] }).context.consumed = [] ∧
      (pagedGrammar.dispatch "list -p 4" { env := [] } []).outcome = .ok .execute ∧
      (pagedGrammar.dispatch "list -p 4" { env := [] } []).context.env.map Value.text? =
        [some "1"] := by
  decide +kernel

def pageSlot : Slot (List Value) :=
  { node := 2, descriptor := ⟨"@string", ⟨[("switch", "page|p"), ("default", "1")]⟩⟩,
    type := .text }

def listSlot : Slot (List Value) :=
  { node := 1, descriptor := ⟨"list", ⟨[]⟩⟩, type := .literal, token := some "list", parsed := true,
    answer := some (.ok (.text "list")) }

/-- The context where the walk of `list -p 4` ends. -/
def pagedContext : Context (List Value) :=
  { env := [], switches := [pageSlot], matched := [listSlot] }

theorem pagedGrammar_walks :
    pagedGrammar.Walks Tree.root (some "list -p 4") { env := [] } [listSlot, pageSlot] 2
        (some ("-" ++ ("p" ++ " " ++ "4"))) pagedContext ∧
      (pagedGrammar.resolve Tree.root (some "list -p 4") { env := [] }).chain =
        [listSlot, pageSlot] := by
  have a := pagedTree_built.arena
  obtain ⟨-, list, page, one, two, -, nodes⟩ := pagedTree_shape
  have literals : pagedGrammar.types.lookup "list" = .literal := TypeTable.lookup_standard _
  have texts : pagedGrammar.types.lookup "@string" = .text := TypeTable.lookup_standard _
  have listed := Grammar.slot?_eq (g := pagedGrammar) list
  have paged := Grammar.slot?_eq (g := pagedGrammar) page
  rw [literals] at listed
  rw [texts] at paged
  have plain : ¬ Dashed (some "list -p 4") := mt dashed_some_iff.1 (by decide)
  have taken : consumeToken ⟨"list", ⟨[]⟩⟩ (some "list -p 4") = .ok ⟨some "list", some "-p 4"⟩ := by
    decide
  have first : pagedGrammar.Passes 1 (some "list -p 4") { env := [] } listSlot (some "-p 4")
      { env := [], matched := [listSlot] } :=
    .takes listed (by decide) (.none plain) taken rfl
  have second : pagedGrammar.Passes 2 (some "-p 4") { env := [], matched := [listSlot] } pageSlot
      (some "-p 4") pagedContext :=
    .waits paged (by decide)
  have below : 1 ∈ pagedTree.children Tree.root := by simp [one]
  have below' : 2 ∈ pagedTree.children 1 := by simp [two]
  have chain := Grammar.below_of_only a one first
  rw [Grammar.below_of_only a two second, ← Grammar.resolve_root a] at chain
  rw [chain, nodesOf_cons, nodesOf_cons] at nodes
  have stop := List.map_eq_nil_iff.1 (List.cons.inj (List.cons.inj nodes).2).2
  rw [stop] at chain
  exact ⟨.down below first (.down below' second .here), chain⟩

/-- Where the walk of `list -p 4` ends there are children, so its pair is not used. -/
theorem trailing_pair_used_paged :
    pagedTree.Built ∧
      (∀ node slot, pagedGrammar.slot? node = some slot → slot.type.Basic) ∧
      ∃ found, pagedGrammar.resolve Tree.root (some "list -p 4") { env := [] } = found ∧
        pagedGrammar.Walks Tree.root (some "list -p 4") { env := [] } found.chain 2
          (some ("-" ++ ("p" ++ " " ++ "4"))) pagedContext ∧
        pagedContext.Answers "p" pageSlot { pagedContext with switches := [] } ∧
        pagedTree.isLeaf 2 = false ∧ found.context.consumed? 2 = none ∧
        found.context.Counts pageSlot (pageSlot.holding ⟨some "1", none⟩) := by
  have basic : ∀ node slot, pagedGrammar.slot? node = some slot → slot.type.Basic :=
    Grammar.basic_of_standard rfl
  obtain ⟨-, -, -, -, -, inner, -⟩ := pagedTree_shape
  have default : pageSlot.type.consume pageSlot.descriptor none = .ok ⟨some "1", none⟩ := by
    decide
  obtain ⟨walks, chain⟩ := pagedGrammar_walks
  rw [← chain] at walks
  have waiting : pagedContext.switches = [] ++ pageSlot :: [] := rfl
  have flagged : "p" ∈ pageSlot.descriptor.flags := by decide
  have answers : pagedContext.Answers "p" pageSlot { pagedContext with switches := [] } :=
    .first waiting (by simp) flagged
  obtain ⟨-, used, -, counts⟩ := Grammar.trailing_pair_used pagedGrammar pagedTree_built basic []
    defaultLimit (some "list -p 4") _ rfl 2 "p" "4" (by decide) pagedContext walks pageSlot
    _ answers
  refine ⟨pagedTree_built, basic, _, rfl, walks, answers, inner, ?_, ?_⟩
  · exact used.trans (if_neg (by simp [pagedGrammar, inner]))
  · rw [counts, if_neg (by simp [pagedGrammar, inner])]
    exact ⟨_, default, rfl⟩

end CommandTree
