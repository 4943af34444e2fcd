import CommandTree.Proofs.Completion
import Mathlib.Data.List.MinMax
import Mathlib.Order.Nat

/-!
# How deep a match and a completion call

A match and a completion each consist of two routines that call each other: one for a node, one
for the pairs that stand in front of a token.  An argument type may leave anything behind a token,
also a line that is longer than the one it was given or that begins with a dash again, so the line
is no measure.  What bounds the calls is the tree: the routine for pairs hands a node back to the
routine for nodes with a line that no longer begins with a dash, and every other call goes to a
child, whose index is larger.  That makes three calls for each level (`Tree.levels`), and one for
the pairs behind the last token.  Inside the routine for pairs there is a loop, each round of which
uses up one waiting switch (`Round`).

Here the routines are told how many calls are left (`resolveIn`, `completeIn`), and give nothing
where these do not suffice or where the loop goes on without a switch being left.

Results:
* `Round.runs_eq`: a loop that uses up a switch in each round ends, with as many rounds as switches.
* `Context.takeRound_again`, `Context.approachRound_again`: what one round of the loops uses up.
* `enough_of_levels`: three calls for each level and one more, for whatever calls in this way.
* `resolveIn_eq`, `completeIn_eq`: with these the routines give the match and the completion.
* `calls_end`: the bounds, for every node, line and context, and for all argument types.
-/
namespace CommandTree

/-! ## Levels of a tree -/

namespace Tree

variable {ε : Type} {t : Tree ε}

/-- The number of nodes on the longest way down from a node, as far as `bound` goes. -/
def levelsWithin (t : Tree ε) : Nat → Nat → Nat
  | 0, _ => 0
  | bound + 1, node => ((t.children node).map (t.levelsWithin bound)).foldr max 0 + 1

def levels (t : Tree ε) (node : Nat) : Nat := t.levelsWithin t.size node

namespace Arena

theorem levelsWithin_eq (a : t.Arena) {bound bound' node : Nat} (inside : node < t.size)
    (h : t.size ≤ node + bound) (h' : t.size ≤ node + bound') :
    t.levelsWithin bound node = t.levelsWithin bound' node := by
  induction bound generalizing bound' node with
  | zero => omega
  | succ bound ih =>
    cases bound' with
    | zero => omega
    | succ bound' =>
      rw [levelsWithin, levelsWithin, List.map_congr_left fun c hc => ?_]
      have lt := a.lt_child node c hc
      exact ih (a.child_lt node c hc) (by omega) (by omega)

theorem levels_eq (a : t.Arena) {node : Nat} (inside : node < t.size) :
    t.levels node = ((t.children node).map t.levels).foldr max 0 + 1 := by
  rw [levels, a.levelsWithin_eq inside (Nat.le_add_left _ _)
    (by omega : t.size ≤ node + (t.size + 1))]
  rfl

theorem levels_pos (a : t.Arena) {node : Nat} (inside : node < t.size) : 0 < t.levels node := by
  rw [a.levels_eq inside]
  exact Nat.succ_pos _

theorem levels_child_lt (a : t.Arena) {node child : Nat} (h : child ∈ t.children node) :
    t.levels child < t.levels node := by
  have inside := Nat.lt_trans (a.lt_child node child h) (a.child_lt node child h)
  rw [a.levels_eq inside]
  exact Nat.lt_succ_of_le (List.le_max_of_le (List.mem_map_of_mem h) (Nat.le_refl _))

end Arena

end Tree

/-! ## Loops over pairs -/

variable {ε β : Type}

/-- One round of a loop over the pairs of a line: the last one, or one that leaves a line and a
context to the next. -/
inductive Round (ε β : Type)
  | done (result : β)
  | again (rest : Option String) (ctx : Context ε)

/-- Rounds up to the last one, which may have so many before it. -/
def Round.runs (round : Context ε → Option String → Round ε β) :
    Nat → Context ε → Option String → Option β
  | 0, ctx, line =>
    match round ctx line with
    | .done result => some result
    | .again _ _ => none
  | before + 1, ctx, line =>
    match round ctx line with
    | .done result => some result
    | .again rest ctx => runs round before ctx rest

/-- A loop in which each round but the last uses up a switch has no more rounds before the last than
there are switches. -/
theorem Round.runs_eq {round : Context ε → Option String → Round ε β}
    {loop : Context ε → Option String → β}
    (step : ∀ ctx line, loop ctx line =
      match round ctx line with
      | .done result => result
      | .again rest ctx => loop ctx rest)
    (uses : ∀ ctx line rest ctx', round ctx line = .again rest ctx' →
      ctx'.switches.length < ctx.switches.length)
    {before : Nat} (ctx : Context ε) (line : Option String)
    (enough : ctx.switches.length ≤ before) :
    runs round before ctx line = some (loop ctx line) := by
  induction before generalizing ctx line with
  | zero =>
    rw [runs, step]
    cases h : round ctx line with
    | done result => rfl
    | again rest ctx' =>
      have fewer := uses _ _ _ _ h
      omega
  | succ before ih =>
    rw [runs, step]
    cases h : round ctx line with
    | done result => rfl
    | again rest ctx' =>
      have fewer := uses _ _ _ _ h
      exact ih ctx' rest (by omega)

namespace Context

def takeRound (ctx : Context ε) (line : Option String) : Round ε (PairRun ε) :=
  match ctx.readPair line with
  | .absent => .done (.through line ctx)
  | .unfinished _ | .unanswered => .done (.stuck ctx)
  | .refused ctx => .done (.stuck ctx)
  | .read switch rest ctx => .again rest (ctx.consume switch)

def approachRound (ctx : Context ε) (line : Option String) : Round ε (Approach ε) :=
  match ctx.readPair line with
  | .absent => .done (.go line ctx)
  | .unfinished flag => .done (.at (.flag flag ctx))
  | .unanswered => .done (.lost ctx)
  | .refused ctx => .done (.lost ctx)
  | .read switch none ctx => .done (.at (.value switch ctx))
  | .read switch (some rest) ctx => .again (some rest) (ctx.consume switch)

theorem takes_of_readPair {ctx ctx' : Context ε} {line rest : Option String} {switch : Slot ε}
    (h : ctx.readPair line = .read switch rest ctx') :
    ctx.Takes line (ctx'.consume switch) rest := by
  rcases pair_cases ctx line with plain | ⟨_, _, takes⟩ | ⟨_, sticks⟩
  · rw [readPair_of_not_dashed ctx plain] at h
    cases h
  · obtain ⟨word, answer, consumed⟩ := takes
    rw [readPair_answered word answer, consumed] at h
    cases h
    exact .pair word answer consumed
  · cases sticks with
    | unfinished word =>
      rw [readPair_unfinished ctx word] at h
      cases h
    | unanswered word unknown =>
      rw [readPair_unanswered word unknown] at h
      cases h
    | refused word answer refused =>
      rw [readPair_answered word answer, refused] at h
      cases h

theorem takeRound_again {ctx ctx' : Context ε} {line rest : Option String}
    (h : ctx.takeRound line = .again rest ctx') : ctx.Takes line ctx' rest := by
  unfold takeRound at h
  split at h
  · cases h
  · cases h
  · cases h
  · cases h
  · rename_i pair
    cases h
    exact takes_of_readPair pair

theorem approachRound_again {ctx ctx' : Context ε} {line rest : Option String}
    (h : ctx.approachRound line = .again rest ctx') : ctx.Takes line ctx' rest := by
  unfold approachRound at h
  split at h
  · cases h
  · cases h
  · cases h
  · cases h
  · cases h
  · rename_i pair
    cases h
    exact takes_of_readPair pair

theorem Takes.length_eq {ctx ctx' : Context ε} {line rest : Option String}
    (h : ctx.Takes line ctx' rest) : ctx'.switches.length + 1 = ctx.switches.length := by
  obtain ⟨-, ⟨waiting, -, -⟩, -⟩ := h
  simp [consume, waiting, Nat.add_assoc]

/-- The loop of a match ends within the switches that wait. -/
theorem runs_takeRound (ctx : Context ε) (line : Option String) :
    Round.runs takeRound ctx.switches.length ctx line = some (ctx.takePairs line) := by
  refine Round.runs_eq (fun ctx line => ?_) (fun ctx line rest ctx' h => ?_) ctx line
    (Nat.le_refl _)
  · rw [takePairs_eq, takeRound]
    cases ctx.readPair line <;> rfl
  · exact (takeRound_again h).length_lt

/-- The loop of a completion ends within the switches that wait. -/
theorem runs_approachRound (ctx : Context ε) (line : Option String) :
    Round.runs approachRound ctx.switches.length ctx line = some (ctx.approach line) := by
  refine Round.runs_eq (fun ctx line => ?_) (fun ctx line rest ctx' h => ?_) ctx line
    (Nat.le_refl _)
  · rw [approach_eq, approachRound]
    cases ctx.readPair line with
    | read switch rest ctx' => cases rest <;> rfl
    | absent => rfl
    | unfinished flag => rfl
    | unanswered => rfl
    | refused ctx' => rfl
  · exact (approachRound_again h).length_lt

theorem not_dashed_of_takePairs {ctx ctx' : Context ε} {line rest : Option String}
    (h : ctx.takePairs line = .through rest ctx') : ¬ Dashed rest :=
  (takePairs_eq_through_iff.1 h).not_dashed

theorem not_dashed_of_approach {ctx ctx' : Context ε} {line rest : Option String}
    (h : ctx.approach line = .go rest ctx') : ¬ Dashed rest := by
  cases rest with
  | none => exact not_dashed_none
  | some text => exact (approach_eq_go_iff.1 h).not_dashed

end Context

/-- What is offered where the way to the end of a line ends. -/
def Approach.completion (reached : Approach ε) : Completion ε where
  texts :=
    match reached with
    | .at cursor => cursor.offers
    | .lost _ | .go _ _ => []
  context := reached.context

namespace Grammar

/-! ## The routines of a match -/

def dashed (line : Option String) : Bool := (line.bind Text.afterDash).isSome

/-- What a match does behind a node that lets the path go on: without children it reads the pairs
that follow, if any, otherwise it follows the child with the longest chain. -/
def goOn (g : Grammar ε) (node : Nat)
    (resolve : Nat → Option String → Context ε → Option (Match ε))
    (trailing : Option String → Context ε → Option (Match ε)) (found : Match ε)
    (rest : Option String) : Option (Match ε) :=
  if g.tree.isLeaf node then
    if dashed rest then
      (trailing rest found.context).map fun behind =>
        ⟨found.chain ++ behind.chain, behind.context⟩
    else some found
  else
    ((g.tree.children node).mapM fun child => resolve child rest found.context).map fun each =>
      let best := each.foldl Match.longer ⟨[], found.context⟩
      ⟨found.chain ++ best.chain, best.context⟩

mutual

/-- The routine of a match for a node, with this many calls left, its own among them. -/
def resolveIn (g : Grammar ε) : Nat → Nat → Option String → Context ε → Option (Match ε)
  | 0, _, _, _ => none
  | depth + 1, node, line, ctx =>
    match g.slot? node with
    | none => g.goOn node (g.resolveIn depth) (g.switchesIn depth none) ⟨[], ctx⟩ line
    | some slot =>
      if slot.isSwitch then
        g.goOn node (g.resolveIn depth) (g.switchesIn depth none) ⟨[slot], ctx.pushSwitch slot⟩ line
      else if dashed line then g.switchesIn depth (some node) line ctx
      else
        match enterSlot slot line ctx with
        | .stop found => some found
        | .go found rest =>
          g.goOn node (g.resolveIn depth) (g.switchesIn depth none) found rest

/-- The routine of a match for the pairs in front of the token of a node, or behind the last
token. -/
def switchesIn (g : Grammar ε) : Nat → Option Nat → Option String → Context ε → Option (Match ε)
  | 0, _, _, _ => none
  | depth + 1, before, line, ctx =>
    match Round.runs Context.takeRound ctx.switches.length ctx line with
    | none => none
    | some (.stuck ctx) => some ⟨[], ctx⟩
    | some (.through rest ctx) =>
      match before with
      | some node => g.resolveIn depth node rest ctx
      | none => some ⟨[], ctx⟩

end

/-! ## The routines of a completion -/

/-- What a completion does behind a node that lets the path go on: without children it looks at the
pairs that follow, if any, otherwise at all children. -/
def spread (g : Grammar ε) (node : Nat)
    (complete : Nat → Option String → Context ε → Option (Completion ε))
    (trailing : Option String → Context ε → Option (Completion ε)) (line : Option String)
    (ctx : Context ε) : Option (Completion ε) :=
  if g.tree.isLeaf node && dashed line then trailing line ctx
  else
    ((g.tree.children node).mapM fun child => complete child line ctx).map fun each =>
      ⟨each.flatMap Completion.texts, ctx⟩

mutual

/-- The routine of a completion for a node, with this many calls left, its own among them. -/
def completeIn (g : Grammar ε) : Nat → Nat → Option String → Context ε → Option (Completion ε)
  | 0, _, _, _ => none
  | depth + 1, node, line, ctx =>
    match g.slot? node with
    | none => g.spread node (g.completeIn depth) (g.completeSwitchesIn depth none) line ctx
    | some slot =>
      if slot.isSwitch then
        g.spread node (g.completeIn depth) (g.completeSwitchesIn depth none) line
          (ctx.pushSwitch slot)
      else if dashed line then g.completeSwitchesIn depth (some node) line ctx
      else
        match approachSlot slot line ctx with
        | .go rest ctx =>
          g.spread node (g.completeIn depth) (g.completeSwitchesIn depth none) rest ctx
        | reached => some reached.completion

/-- The routine of a completion for the pairs in front of the token of a node, or behind the last
token. -/
def completeSwitchesIn (g : Grammar ε) :
    Nat → Option Nat → Option String → Context ε → Option (Completion ε)
  | 0, _, _, _ => none
  | depth + 1, before, line, ctx =>
    match Round.runs Context.approachRound ctx.switches.length ctx line with
    | none => none
    | some (.go rest ctx) =>
      match before with
      | some node => g.completeIn depth node rest ctx
      | none => some ⟨[], ctx⟩
    | some reached => some reached.completion

end

/-! ## Depth enough -/

variable {g : Grammar ε}

theorem dashed_eq_true_iff {line : Option String} : dashed line = true ↔ Dashed line := by
  rw [dashed, Option.isSome_iff_exists]
  constructor
  · rintro ⟨text, h⟩
    obtain ⟨line, rfl, dash⟩ := Option.bind_eq_some_iff.1 h
    exact ⟨text, congrArg some (Text.afterDash_eq_some_iff.1 dash)⟩
  · rintro ⟨text, rfl⟩
    exact ⟨text, Context.afterDash_dash text⟩

theorem mapM_eq_some_map {α γ : Type} {f : α → Option γ} {h : α → γ} {xs : List α}
    (each : ∀ x ∈ xs, f x = some (h x)) : xs.mapM f = some (xs.map h) := by
  induction xs with
  | nil => rfl
  | cons x xs ih =>
    obtain ⟨first, rest⟩ := List.forall_mem_cons.1 each
    rw [List.mapM_cons, first, ih rest]
    rfl

/-- The node takes no pairs in front of a token: the line does not begin with a dash, or the node is
the root or a switch. -/
def Direct (g : Grammar ε) (node : Nat) (line : Option String) : Prop :=
  Dashed line → ∀ slot, g.slot? node = some slot → slot.isSwitch = true

variable {node : Nat} {line : Option String}

theorem not_direct_iff : ¬ g.Direct node line ↔
    Dashed line ∧ ∃ slot, g.slot? node = some slot ∧ slot.isSwitch = false := by
  simp [Direct]

theorem Direct.not_dashed (direct : g.Direct node line) {slot : Slot ε}
    (here : g.slot? node = some slot) (plain : slot.isSwitch = false) : ¬ Dashed line := by
  intro h
  simp [direct h slot here] at plain

/-- Three calls for each level, and one for the pairs behind the last token, are enough for what
needs one call more than at its children where no pairs stand in front of a token, and two more than
behind these pairs where they do.  Where no pairs are taken in front of the first token, two less
are enough. -/
theorem enough_of_levels (a : g.tree.Arena) {P : Nat → Nat → Option String → Context ε → Prop}
    (straight : ∀ {node depth}, node < g.tree.size → 0 < depth →
      (∀ child ∈ g.tree.children node, ∀ line ctx, P depth child line ctx) →
      ∀ {line}, g.Direct node line → ∀ ctx, P (depth + 1) node line ctx)
    (around : ∀ {node depth}, node < g.tree.size →
      (∀ rest ctx, ¬ Dashed rest → P depth node rest ctx) →
      ∀ {line}, ¬ g.Direct node line → ∀ ctx, P (depth + 2) node line ctx)
    (inside : node < g.tree.size) {depth : Nat}
    (enough : 3 * g.tree.levels node + 1 ≤ depth ∨
      g.Direct node line ∧ 3 * g.tree.levels node ≤ depth + 1) (ctx : Context ε) :
    P depth node line ctx := by
  revert line ctx depth
  refine a.descend (P := fun node => ∀ {line depth}, (3 * g.tree.levels node + 1 ≤ depth ∨
    g.Direct node line ∧ 3 * g.tree.levels node ≤ depth + 1) → ∀ ctx, P depth node line ctx) ?_
    node inside
  intro node inside ih
  have pos := a.levels_pos inside
  -- a child has a level less, which pays for the call at the node and the two left out
  have below : ∀ {line depth}, g.Direct node line → 3 * g.tree.levels node ≤ depth + 1 → ∀ ctx,
      P depth node line ctx := by
    intro line depth direct enough ctx
    obtain ⟨depth, rfl⟩ : ∃ rest, depth = rest + 1 := ⟨depth - 1, by omega⟩
    refine straight inside (by omega) (fun child hc line ctx => ih child hc (.inl ?_) ctx) direct
      ctx
    have lt := a.levels_child_lt hc
    omega
  intro line depth enough ctx
  by_cases direct : g.Direct node line
  · exact below direct (by omega) ctx
  · -- the node is handed back without a dash, so it is not handed to the pairs again
    have enough : 3 * g.tree.levels node + 1 ≤ depth := enough.resolve_right fun h => direct h.1
    obtain ⟨depth, rfl⟩ : ∃ rest, depth = rest + 2 := ⟨depth - 2, by omega⟩
    refine around inside (fun rest ctx undashed => ?_) direct ctx
    exact below (fun dash => absurd dash undashed) (by omega) ctx

/-! ## A match -/

theorem switchesIn_none (depth : Nat) (line : Option String) (ctx : Context ε) :
    g.switchesIn (depth + 1) none line ctx = some ⟨[], takeTrailing ctx line⟩ := by
  rw [switchesIn, Context.runs_takeRound, takeTrailing]
  cases ctx.takePairs line <;> rfl

/-- Behind a node that lets the path go on, the children need the depth that they have. -/
theorem goOn_eq {node depth : Nat}
    (children : ∀ child ∈ g.tree.children node, ∀ line ctx,
      g.resolveIn depth child line ctx = some (g.resolve child line ctx)) (enough : 0 < depth)
    (found : Match ε) (rest : Option String) :
    g.goOn node (g.resolveIn depth) (g.switchesIn depth none) found rest =
      some ⟨found.chain ++ (g.below node rest found.context).chain,
        (g.below node rest found.context).context⟩ := by
  obtain ⟨depth, rfl⟩ := Nat.exists_eq_add_of_lt enough
  rw [Nat.zero_add] at *
  unfold goOn below
  split
  · split
    · rw [switchesIn_none]
      rfl
    · rename_i plain
      have undashed : ¬ Dashed rest := fun h => plain (dashed_eq_true_iff.2 h)
      simp [takeTrailing, Context.takePairs_of_not_dashed undashed]
  · rw [mapM_eq_some_map fun child hc => children child hc rest found.context, Option.map_some,
      List.foldl_map]

/-- What the routine for a node gives, with the depth that the calls at its children need. -/
theorem resolveIn_direct (a : g.tree.Arena) (inside : node < g.tree.size) {depth : Nat}
    (children : ∀ child ∈ g.tree.children node, ∀ line ctx,
      g.resolveIn depth child line ctx = some (g.resolve child line ctx)) (enough : 0 < depth)
    (direct : g.Direct node line) (ctx : Context ε) :
    g.resolveIn (depth + 1) node line ctx = some (g.resolve node line ctx) := by
  rw [resolveIn, resolve_eq a inside]
  cases here : g.slot? node with
  | none =>
    simp only [enter, here]
    exact goOn_eq children enough _ _
  | some slot =>
    cases switch : slot.isSwitch with
    | true =>
      simp only [enter, here, switch, if_true]
      exact goOn_eq children enough _ _
    | false =>
      have undashed := direct.not_dashed here switch
      have plain : dashed line = false := by
        rwa [← Bool.not_eq_true, dashed_eq_true_iff]
      rw [enter_of_slot? here switch, Context.takePairs_of_not_dashed undashed]
      simp only [switch, plain, Bool.false_eq_true, if_false]
      cases enterSlot slot line ctx with
      | stop found => rfl
      | go found rest => exact goOn_eq children enough found rest

theorem resolve_of_pairs (a : g.tree.Arena) (inside : node < g.tree.size) {slot : Slot ε}
    (here : g.slot? node = some slot) (plain : slot.isSwitch = false) (ctx : Context ε) :
    g.resolve node line ctx =
      match ctx.takePairs line with
      | .stuck ctx => ⟨[], ctx⟩
      | .through rest ctx => g.resolve node rest ctx := by
  rw [resolve_eq a inside, enter_of_slot? here plain]
  cases pairs : ctx.takePairs line with
  | stuck ctx' => rfl
  | through rest ctx' =>
    have undashed := Context.not_dashed_of_takePairs pairs
    simp only [resolve_eq a inside, enter_of_slot? here plain,
      Context.takePairs_of_not_dashed undashed]

/-- With pairs in front of the token of a node, what the routine for it gives with two calls more
than it needs behind them. -/
theorem resolveIn_around (a : g.tree.Arena) (inside : node < g.tree.size) {depth : Nat}
    (behind : ∀ rest ctx, ¬ Dashed rest →
      g.resolveIn depth node rest ctx = some (g.resolve node rest ctx))
    (pairs : ¬ g.Direct node line) (ctx : Context ε) :
    g.resolveIn (depth + 2) node line ctx = some (g.resolve node line ctx) := by
  obtain ⟨dash, slot, here, plain⟩ := not_direct_iff.1 pairs
  rw [resolveIn, here]
  simp only [plain, dashed_eq_true_iff.2 dash, Bool.false_eq_true, if_false, if_true]
  rw [switchesIn, Context.runs_takeRound, resolve_of_pairs a inside here plain]
  cases taken : ctx.takePairs line with
  | stuck ctx' => rfl
  | through rest ctx' => exact behind rest ctx' (Context.not_dashed_of_takePairs taken)

/-- With depth enough the routine for a node gives the match. -/
theorem resolveIn_eq (a : g.tree.Arena) (inside : node < g.tree.size) {depth : Nat}
    (enough : 3 * g.tree.levels node + 1 ≤ depth ∨
      g.Direct node line ∧ 3 * g.tree.levels node ≤ depth + 1) (ctx : Context ε) :
    g.resolveIn depth node line ctx = some (g.resolve node line ctx) :=
  enough_of_levels a
    (P := fun depth node line ctx =>
      g.resolveIn depth node line ctx = some (g.resolve node line ctx))
    (fun inside pos children _ direct ctx => resolveIn_direct a inside children pos direct ctx)
    (fun inside behind _ pairs ctx => resolveIn_around a inside behind pairs ctx) inside enough ctx

/-! ## A completion -/

def completionBelow (g : Grammar ε) (node : Nat) (line : Option String) (ctx : Context ε) :
    Completion ε :=
  if g.tree.isLeaf node then (ctx.approach line).completion
  else ⟨(g.tree.children node).flatMap fun child => (g.complete child line ctx).texts, ctx⟩

theorem complete_eq (a : g.tree.Arena) (inside : node < g.tree.size) (line : Option String)
    (ctx : Context ε) :
    g.complete node line ctx =
      match g.approach node line ctx with
      | .go rest ctx => g.completionBelow node rest ctx
      | reached => reached.completion := by
  rw [complete, cursors_eq a inside, contextBehind]
  cases g.approach node line ctx with
  | lost ctx' => rfl
  | «at» cursor => simp [Approach.completion, Approach.context]
  | go rest ctx' =>
    simp only [cursorsBelow, completionBelow]
    split
    · rw [trailingCursors]
      cases ctx'.approach rest <;> simp [Approach.completion]
    · rw [List.flatMap_assoc]
      rfl

theorem completeSwitchesIn_none (depth : Nat) (line : Option String) (ctx : Context ε) :
    g.completeSwitchesIn (depth + 1) none line ctx = some (ctx.approach line).completion := by
  rw [completeSwitchesIn, Context.runs_approachRound]
  cases ctx.approach line <;> rfl

theorem spread_eq {depth : Nat}
    (children : ∀ child ∈ g.tree.children node, ∀ line ctx,
      g.completeIn depth child line ctx = some (g.complete child line ctx)) (enough : 0 < depth)
    (line : Option String) (ctx : Context ε) :
    g.spread node (g.completeIn depth) (g.completeSwitchesIn depth none) line ctx =
      some (g.completionBelow node line ctx) := by
  obtain ⟨depth, rfl⟩ := Nat.exists_eq_add_of_lt enough
  rw [Nat.zero_add] at *
  have all := mapM_eq_some_map fun child hc => children child hc line ctx
  unfold spread completionBelow
  cases leaf : g.tree.isLeaf node with
  | false =>
    simp only [Bool.false_and, Bool.false_eq_true, if_false, all, Option.map_some]
    rw [List.flatMap_map]
  | true =>
    cases dash : dashed line with
    | true => exact completeSwitchesIn_none (g := g) depth line ctx
    | false =>
      have undashed : ¬ Dashed line := by simp [← dashed_eq_true_iff, dash]
      simp only [Bool.and_false, Bool.false_eq_true, if_false, if_true,
        Context.approach_of_not_dashed undashed, List.isEmpty_iff.1 leaf]
      rfl

/-- What the routine for a node gives, with the depth that the calls at its children need. -/
theorem completeIn_direct (a : g.tree.Arena) (inside : node < g.tree.size) {depth : Nat}
    (children : ∀ child ∈ g.tree.children node, ∀ line ctx,
      g.completeIn depth child line ctx = some (g.complete child line ctx)) (enough : 0 < depth)
    (direct : g.Direct node line) (ctx : Context ε) :
    g.completeIn (depth + 1) node line ctx = some (g.complete node line ctx) := by
  rw [completeIn, complete_eq a inside]
  cases here : g.slot? node with
  | none =>
    simp only [approach, here]
    exact spread_eq children enough _ _
  | some slot =>
    cases switch : slot.isSwitch with
    | true =>
      rw [approach_of_switch here switch]
      simp only [switch, if_true]
      exact spread_eq children enough _ _
    | false =>
      have undashed := direct.not_dashed here switch
      have plain : dashed line = false := by
        rwa [← Bool.not_eq_true, dashed_eq_true_iff]
      rw [approach_of_plain here switch, Context.approach_of_not_dashed undashed]
      simp only [switch, plain, Bool.false_eq_true, if_false]
      cases approachSlot slot line ctx with
      | lost ctx' => rfl
      | «at» cursor => rfl
      | go rest ctx' => exact spread_eq children enough rest ctx'

theorem complete_of_pairs (a : g.tree.Arena) (inside : node < g.tree.size) {slot : Slot ε}
    (here : g.slot? node = some slot) (plain : slot.isSwitch = false) (ctx : Context ε) :
    g.complete node line ctx =
      match ctx.approach line with
      | .go rest ctx => g.complete node rest ctx
      | reached => reached.completion := by
  rw [complete_eq a inside, approach_of_plain here plain]
  cases pairs : ctx.approach line with
  | lost ctx' => rfl
  | «at» cursor => rfl
  | go rest ctx' =>
    have undashed := Context.not_dashed_of_approach pairs
    simp only [complete_eq a inside, approach_of_plain here plain,
      Context.approach_of_not_dashed undashed]

theorem completeIn_around (a : g.tree.Arena) (inside : node < g.tree.size) {depth : Nat}
    (behind : ∀ rest ctx, ¬ Dashed rest →
      g.completeIn depth node rest ctx = some (g.complete node rest ctx))
    (pairs : ¬ g.Direct node line) (ctx : Context ε) :
    g.completeIn (depth + 2) node line ctx = some (g.complete node line ctx) := by
  obtain ⟨dash, slot, here, plain⟩ := not_direct_iff.1 pairs
  rw [completeIn, here]
  simp only [plain, dashed_eq_true_iff.2 dash, Bool.false_eq_true, if_false, if_true]
  rw [completeSwitchesIn, Context.runs_approachRound, complete_of_pairs a inside here plain]
  cases taken : ctx.approach line with
  | lost ctx' => rfl
  | «at» cursor => rfl
  | go rest ctx' => exact behind rest ctx' (Context.not_dashed_of_approach taken)

/-- With the same depth the routine for a node gives the completion. -/
theorem completeIn_eq (a : g.tree.Arena) (inside : node < g.tree.size) {depth : Nat}
    (enough : 3 * g.tree.levels node + 1 ≤ depth ∨
      g.Direct node line ∧ 3 * g.tree.levels node ≤ depth + 1) (ctx : Context ε) :
    g.completeIn depth node line ctx = some (g.complete node line ctx) :=
  enough_of_levels a
    (P := fun depth node line ctx =>
      g.completeIn depth node line ctx = some (g.complete node line ctx))
    (fun inside pos children _ direct ctx => completeIn_direct a inside children pos direct ctx)
    (fun inside behind _ pairs ctx => completeIn_around a inside behind pairs ctx) inside enough ctx

/-- **A match and a completion end, whatever the argument types do.**  Three calls for each level of
the tree from the node at which they start, and one more, are enough for both, on every line and in
every context, also where a token leaves more behind than it was given.  Without a dash in front two
less are enough, so a node is handed back once at most: the line that the routine for pairs hands
back has no dash in front.  All other calls go to children, which have larger indices and fewer
levels.  Each round of the loops but the last takes a pair and so removes one switch from those that
wait; where no switch answers, the round is the last. -/
theorem calls_end (g : Grammar ε) (built : g.tree.Built) {node : Nat}
    (inside : node < g.tree.size) (line : Option String) (ctx : Context ε) :
    (∀ depth, 3 * g.tree.levels node + 1 ≤ depth →
      g.resolveIn depth node line ctx = some (g.resolve node line ctx) ∧
        g.completeIn depth node line ctx = some (g.complete node line ctx)) ∧
    (¬ Dashed line → ∀ depth, 3 * g.tree.levels node ≤ depth + 1 →
      g.resolveIn depth node line ctx = some (g.resolve node line ctx) ∧
        g.completeIn depth node line ctx = some (g.complete node line ctx)) ∧
    (∀ (ctx ctx' : Context ε) (line rest : Option String),
      Round.runs Context.takeRound ctx.switches.length ctx line = some (.through rest ctx') ∨
        Round.runs Context.approachRound ctx.switches.length ctx line = some (.go rest ctx') →
      ¬ Dashed rest) ∧
    (∀ child ∈ g.tree.children node,
      node < child ∧ child < g.tree.size ∧ g.tree.levels child < g.tree.levels node) ∧
    (∀ (ctx ctx' : Context ε) (line rest : Option String),
      ctx.takeRound line = .again rest ctx' ∨ ctx.approachRound line = .again rest ctx' →
      ctx.Takes line ctx' rest ∧ ctx'.switches.length + 1 = ctx.switches.length) ∧
    ∀ (ctx : Context ε) (flag value : String), ' ' ∉ flag.toList →
      (∀ s ∈ ctx.switches, flag ∉ s.descriptor.flags) →
      ctx.takeRound (some ("-" ++ (flag ++ " " ++ value))) = .done (.stuck ctx) ∧
        ctx.approachRound (some ("-" ++ (flag ++ " " ++ value))) = .done (.lost ctx) := by
  have a := built.arena
  refine ⟨fun depth enough => ⟨?_, ?_⟩, fun undashed depth enough => ⟨?_, ?_⟩, ?_, ?_, ?_, ?_⟩
  · exact resolveIn_eq a inside (.inl enough) ctx
  · exact completeIn_eq a inside (.inl enough) ctx
  · exact resolveIn_eq a inside (.inr ⟨fun dash => absurd dash undashed, enough⟩) ctx
  · exact completeIn_eq a inside (.inr ⟨fun dash => absurd dash undashed, enough⟩) ctx
  · intro ctx ctx' line rest behind
    rw [Context.runs_takeRound, Context.runs_approachRound, Option.some.injEq,
      Option.some.injEq] at behind
    exact behind.elim Context.not_dashed_of_takePairs Context.not_dashed_of_approach
  · exact fun child hc => ⟨a.lt_child node child hc, a.child_lt node child hc, a.levels_child_lt hc⟩
  · intro ctx ctx' line rest again
    have takes := again.elim Context.takeRound_again Context.approachRound_again
    exact ⟨takes, takes.length_eq⟩
  · intro ctx flag value word unknown
    have unanswered := Context.readPair_unanswered word unknown value
    rw [Context.takeRound, Context.approachRound, unanswered]
    exact ⟨rfl, rfl⟩

end Grammar

/-- A type that leaves more of a line behind than it was given. -/
def swell : ArgumentType Unit where
  consume _ line := .ok ⟨line, line.map (· ++ " more")⟩
  result token _ _ := .ok (.text token)

def swellTree : Tree Unit :=
  (Tree.empty.insert Tree.root "@swell(switch=k) @swell(switch=k) @swell").2

def swellGrammar : Grammar Unit := ⟨swellTree, TypeTable.standard.register "swell" swell, {}⟩

theorem swellTree_built : swellTree.Built := .insert_root .empty _

/-- The line `-k -k x` grows at every token, and is matched and completed within thirteen calls. -/
theorem calls_end_swell :
    swellTree.levels Tree.root = 4 ∧
      (swellGrammar.resolveIn 13 Tree.root (some "-k -k x") { env := () }).map
        (fun found => (nodesOf found.chain, found.context.consumed.map fun s => s.token)) =
          some ([1, 2, 3], [some "-k x", some "x more"]) ∧
      swellGrammar.completeIn 13 Tree.root (some "-k -k x") { env := () } =
        some (swellGrammar.complete Tree.root (some "-k -k x") { env := () }) := by
  have levels : swellTree.levels Tree.root = 4 := by decide +kernel
  have inside : Tree.root < swellTree.size := by decide +kernel
  obtain ⟨enough, -⟩ := Grammar.calls_end swellGrammar swellTree_built inside (some "-k -k x")
    { env := () }
  obtain ⟨found, completed⟩ := enough 13 (Nat.le_of_eq (congrArg (3 * · + 1) levels))
  refine ⟨levels, ?_, completed⟩
  rw [found, Option.map_some]
  decide +kernel

/-- One call less is not enough: two switches wait, one pair stands in front of the token and one
behind it, and four calls are made for the one level below node 3. -/
example :
    let g : Grammar Unit :=
      ⟨(Tree.empty.insert Tree.root "@string(switch=a) @string(switch=b) @string").2, .standard, {}⟩
    let ctx : Context Unit := { env := (), switches := [1, 2].filterMap g.slot? }
    g.tree.levels 3 = 1 ∧ (g.resolveIn 3 3 (some "-a 1 word -b 2") ctx).isNone ∧
      (g.resolveIn 4 3 (some "-a 1 word -b 2") ctx).isSome := by
  decide +kernel

end CommandTree
