import CommandTree.Proofs.TrailingPairs
import CommandTree.Proofs.WordByWord

/-!
# Where a run of pairs stops

Behind a leaf the pairs that follow are read one after the other, up to the first that cannot be.
A flag that the line ends behind, or that no waiting switch answers to, leaves the context as the
pairs before it have left it.  A switch is taken off the waiting ones before its type sees the
value.  If the type refuses the value, the reading ends there, and the switch is not put back: it
waits no longer and has not been used (`Declines`).

Results:
* `Context.Sticks.eq_iff`: a pair that stands in the way changes nothing exactly if no switch
  declines it.
* `stopped_pairs`: the context behind a match whose run of pairs stops.
* `declined_switch_lost`: a switch that is in neither list behind its match.
-/
namespace CommandTree

variable {ε : Type} {g : Grammar ε}

namespace Context

/-- A pair at the start of the line is for a waiting switch whose type refuses the value; the
context without the switch. -/
inductive Declines (ctx : Context ε) : Option String → Slot ε → Context ε → Prop
  | pair {flag value : String} {s : Slot ε} {others : Context ε} {e : ParseError}
      (word : ' ' ∉ flag.toList) (answer : ctx.Answers flag s others)
      (refused : s.type.consume s.descriptor (some value) = .error e) :
      Declines ctx (some ("-" ++ (flag ++ " " ++ value))) s others

variable {ctx ctx' left others : Context ε} {line line' rest : Option String} {s : Slot ε}

theorem Declines.sticks (h : ctx.Declines line s others) : ctx.Sticks line others := by
  obtain ⟨word, answer, refused⟩ := h
  exact .refused word answer refused

theorem Sticks.unique (h : ctx.Sticks line left) (h' : ctx.Sticks line others) : left = others := by
  have same := (takePairs_of_sticks h).symm.trans (takePairs_of_sticks h')
  exact PairRun.stuck.inj same

/-- A pair that stands in the way changes nothing exactly if no switch declines it. -/
theorem Sticks.eq_iff (h : ctx.Sticks line left) :
    left = ctx ↔ ∀ s others, ¬ ctx.Declines line s others := by
  constructor
  · rintro rfl s others declines
    have fewer : others.switches.length < left.switches.length := by
      obtain ⟨-, answer, -⟩ := declines
      exact answer.length_lt
    rw [← h.unique declines.sticks] at fewer
    exact absurd fewer (Nat.lt_irrefl _)
  · intro none
    cases h with
    | unfinished _ => rfl
    | unanswered _ _ => rfl
    | refused word answer refused => exact absurd (.pair word answer refused) (none _ _)

theorem Past.ledger (g : Grammar ε) (h : ctx.Past line ctx' rest) :
    ∃ pieces, Ledger g line ctx [] pieces [] rest ctx' := by
  induction h with
  | refl => exact ⟨[], .refl g _ _⟩
  | pair takes _ ih =>
    obtain ⟨p, first⟩ := takes.ledger g
    obtain ⟨pieces, later⟩ := ih
    exact ⟨_, first.trans later⟩

/-- A switch that declines is taken off the waiting ones and is not recorded as used. -/
theorem Declines.answers (h : ctx.Declines line s others) :
    ∃ before after, ctx.switches = before ++ s :: after ∧
      others = { ctx with switches := before ++ after } := by
  obtain ⟨-, ⟨waiting, -, -⟩, -⟩ := h
  exact ⟨_, _, waiting, rfl⟩

end Context

namespace Grammar

/-- The pairs behind the last node of a match are read by the rules of trailing pairs. -/
theorem context_of_walks_to_leaf (a : g.tree.Arena) {line rest : Option String}
    {fresh ctx : Context ε} {last : Nat}
    (walks : g.Walks Tree.root line fresh (g.resolve Tree.root line fresh).chain last rest ctx)
    (leaf : g.tree.isLeaf last = true) :
    (g.resolve Tree.root line fresh).context = takeTrailing ctx rest := by
  rw [resolve_root a] at walks ⊢
  have whole := below_eq_of_walks a walks rfl
  rw [below, if_pos leaf] at whole
  exact (congrArg Match.context whole).symm

/-- **A pair that stops a run of pairs leaves the context as it was, unless its switch refuses the
value.**  Let the walk along the chain of a match end at a leaf, let some pairs be read there, and
let the next one stand in the way, be it without a value, for no waiting switch, or with a value
that its switch refuses.  The context behind the match is what that pair leaves.  This is the
context behind the pairs before it exactly if no switch declines the pair.  A switch that declines
it was waiting there; behind the match it waits no longer and has not been used, and nothing else
has changed. -/
theorem stopped_pairs (g : Grammar ε) (built : g.tree.Built) (env : ε) (limit : Nat)
    (line : Option String) (found : Match ε)
    (resolved : g.resolve Tree.root line { env, limit } = found) (last : Nat)
    (rest rest' : Option String) (ctx ctx' left : Context ε)
    (walks : g.Walks Tree.root line { env, limit } found.chain last rest ctx)
    (leaf : g.tree.isLeaf last = true) (pairs : ctx.Past rest ctx' rest')
    (sticks : ctx'.Sticks rest' left) :
    found.context = left ∧
      (found.context = ctx' ↔ ∀ s others, ¬ ctx'.Declines rest' s others) ∧
      ∀ s others, ctx'.Declines rest' s others →
        ∃ before after, ctx'.switches = before ++ s :: after ∧
          found.context = { ctx' with switches := before ++ after } ∧
          s.node ∉ nodesOf found.context.switches ∧ found.context.consumed? s.node = none := by
  have a := built.arena
  have derives := resolve_derives a line { env, limit }
  rw [resolved] at derives
  have nodup := derives.nodup a
  subst resolved
  have context : (g.resolve Tree.root line { env, limit }).context = left := by
    rw [context_of_walks_to_leaf a walks leaf, pairs.takeTrailing_eq]
    exact Context.takeTrailing_eq_iff.2 (.stuck sticks)
  refine ⟨context, context ▸ sticks.eq_iff, fun s others declines => ?_⟩
  obtain ⟨before, after, waiting, others_eq⟩ := declines.answers
  have left_eq := sticks.unique declines.sticks
  -- the switches of the context behind the pairs are those of different nodes
  obtain ⟨pieces, walked⟩ := walks.ledger
  obtain ⟨pieces', read⟩ := pairs.ledger g
  have whole := walked.trans read
  rw [List.append_nil, List.append_nil] at whole
  have distinct := whole.distinct nodup
  rw [waiting, nodesOf_append, nodesOf_append, nodesOf_cons] at distinct
  have once := List.nodup_middle.1 (List.nodup_append.1 distinct).1
  have unused := whole.consumed?_of_waiting nodup (s := s) (by rw [waiting]; simp)
  refine ⟨before, after, waiting, context.trans (left_eq.trans others_eq), ?_, ?_⟩
  · rw [context, left_eq, others_eq, nodesOf_append]
    exact (List.nodup_cons.1 once).1
  · rw [context, left_eq, others_eq]
    exact unused

end Grammar

/-! ## A switch that is lost -/

/-- A text that does not begin with a space and is not empty. -/
def strictText : ArgumentType Unit where
  consume d line :=
    match line with
    | none => .error (.invalid "strict needs input")
    | some text =>
      if text = "" ∨ Text.beginsWith text " " then .error .noResult else consumeToken d line
  result token _ _ := .ok (.text token)

def bookTree : Tree Unit :=
  (Tree.empty.insert Tree.root "list @strict(switch=page|p, default=1)").2

def bookGrammar : Grammar Unit := ⟨bookTree, TypeTable.standard.register "strict" strictText, {}⟩

theorem bookTree_built : bookTree.Built := .insert_root .empty _

/-- The match of a line as it is shown: the chain, and what waits and what has been used behind
it. -/
def bookMatch (line : String) : List Nat × List Nat × List Nat :=
  let found := bookGrammar.resolve Tree.root (some line) (bookGrammar.context ())
  (nodesOf found.chain, nodesOf found.context.switches, nodesOf found.context.consumed)

/-- Three pairs behind the leaf that cannot be taken.  A flag without a value and a flag of no
switch leave the switch waiting.  Behind the two spaces of `list -p  4` it has been taken off, and
it has not been used. -/
theorem declined_switch_lost :
    bookTree.isLeaf 2 = true ∧ bookMatch "list -p" = ([1, 2], [2], []) ∧
      bookMatch "list -x 4" = ([1, 2], [2], []) ∧ bookMatch "list -p  4" = ([1, 2], [], []) := by
  decide +kernel

theorem bookTree_shape :
    (bookTree.descriptor 1).map (fun d => (d.name, d.params.entries)) = some ("list", []) ∧
      (bookTree.descriptor 2).map (fun d => (d.name, d.params.entries)) =
        some ("@strict", [("switch", "page|p"), ("default", "1")]) ∧
      bookTree.children Tree.root = [1] ∧ bookTree.children 1 = [2] ∧
      bookTree.isLeaf 2 = true := by
  decide +kernel

def strictSlot : Slot Unit :=
  { node := 2, descriptor := ⟨"@strict", ⟨[("switch", "page|p"), ("default", "1")]⟩⟩,
    type := strictText }

def bookSlot : Slot Unit :=
  { node := 1, descriptor := ⟨"list", ⟨[]⟩⟩, type := .literal, token := some "list", parsed := true,
    answer := some (.ok (.text "list")) }

/-- The context where the walk of `list -p  4` ends. -/
def bookContext : Context Unit := { env := (), switches := [strictSlot], matched := [bookSlot] }

theorem bookGrammar_walks :
    bookGrammar.Walks Tree.root (some "list -p  4") { env := () }
      (bookGrammar.resolve Tree.root (some "list -p  4") { env := () }).chain 2
      (some ("-" ++ ("p" ++ " " ++ " 4"))) bookContext := by
  have a := bookTree_built.arena
  obtain ⟨list, page, one, two, leaf⟩ := bookTree_shape
  have literals : bookGrammar.types.lookup "list" = .literal := by
    rw [bookGrammar, TypeTable.lookup_register, TypeTable.lookup_standard]
    rfl
  have stricts : bookGrammar.types.lookup "@strict" = strictText := by
    rw [bookGrammar, TypeTable.lookup_register]
    rfl
  have listed := Grammar.slot?_eq (g := bookGrammar) list
  have paged := Grammar.slot?_eq (g := bookGrammar) page
  rw [literals] at listed
  rw [stricts] at paged
  have plain : ¬ Dashed (some "list -p  4") := mt dashed_some_iff.1 (by decide)
  have taken : consumeToken ⟨"list", ⟨[]⟩⟩ (some "list -p  4") =
      .ok ⟨some "list", some "-p  4"⟩ := by decide
  have first : bookGrammar.Passes 1 (some "list -p  4") { env := () } bookSlot (some "-p  4")
      { env := (), matched := [bookSlot] } :=
    .takes listed (by decide) (.none plain) taken rfl
  have second : bookGrammar.Passes 2 (some "-p  4") { env := (), matched := [bookSlot] } strictSlot
      (some "-p  4") bookContext :=
    .waits paged (by decide)
  have below : 1 ∈ bookTree.children Tree.root := by simp [one]
  have below' : 2 ∈ bookTree.children 1 := by simp [two]
  have chain : (bookGrammar.resolve Tree.root (some "list -p  4") { env := () }).chain =
      [bookSlot, strictSlot] := by
    have bottom : bookGrammar.tree.isLeaf 2 = true := leaf
    rw [Grammar.resolve_root a, Grammar.below_of_only a one first,
      Grammar.below_of_only a two second, Grammar.below, if_pos bottom]
  rw [chain]
  exact .down below first (.down below' second .here)

/-- The switch of `list -p  4` waits where the pair is met, and is in neither list behind the
match. -/
theorem stopped_pairs_book :
    bookTree.Built ∧
      ∃ found, bookGrammar.resolve Tree.root (some "list -p  4") { env := () } = found ∧
        bookGrammar.Walks Tree.root (some "list -p  4") { env := () } found.chain 2
          (some ("-" ++ ("p" ++ " " ++ " 4"))) bookContext ∧
        bookTree.isLeaf 2 = true ∧
        bookContext.Past (some ("-" ++ ("p" ++ " " ++ " 4"))) bookContext
          (some ("-" ++ ("p" ++ " " ++ " 4"))) ∧
        bookContext.Sticks (some ("-" ++ ("p" ++ " " ++ " 4")))
          { bookContext with switches := [] } ∧
        bookContext.Declines (some ("-" ++ ("p" ++ " " ++ " 4"))) strictSlot
          { bookContext with switches := [] } ∧
        found.context = { bookContext with switches := [] } ∧ found.context ≠ bookContext ∧
        2 ∉ nodesOf found.context.switches ∧ found.context.consumed? 2 = none := by
  obtain ⟨-, -, -, -, leaf⟩ := bookTree_shape
  have waiting : bookContext.switches = [] ++ strictSlot :: [] := rfl
  have flagged : "p" ∈ strictSlot.descriptor.flags := by decide
  have answers : bookContext.Answers "p" strictSlot { bookContext with switches := [] } :=
    .first waiting (by simp) flagged
  have refused : strictSlot.type.consume strictSlot.descriptor (some " 4") = .error .noResult := by
    decide
  have declines : bookContext.Declines (some ("-" ++ ("p" ++ " " ++ " 4"))) strictSlot
      { bookContext with switches := [] } :=
    .pair (by decide) answers refused
  obtain ⟨context, same, dropped⟩ := Grammar.stopped_pairs bookGrammar bookTree_built ()
    defaultLimit (some "list -p  4") _ rfl 2 _ _ bookContext bookContext _ bookGrammar_walks leaf
    .refl declines.sticks
  obtain ⟨-, -, -, -, waits, used⟩ := dropped _ _ declines
  exact ⟨bookTree_built, _, rfl, bookGrammar_walks, leaf, .refl, declines.sticks, declines, context,
    fun unchanged => same.1 unchanged _ _ declines, waits, used⟩

end CommandTree
