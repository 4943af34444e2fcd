import CommandTree.Proofs.WordByWord

/-!
# Two lines side by side

Two lines that lead along the same path are matched alike (`Match.Alike`): the chains are the same,
and the contexts are in a relation that every step of a path keeps (`Mirrors`).  The two matches go
down the tree abreast (`Abreast`), each with its own pairs pending, through the words that the lines
have in common; what follows these words may differ.

Results:
* `below_alike`: the matches below a node are alike where those of its children are even.
* `resolve_even`: what a token leads to is even where what comes behind it is alike.
* `Abreast.ended`: at the end of both lines the matches are alike, whatever the tree has below.
* `Abreast.follows`: words in common carry two matches from node to node.
-/
namespace CommandTree

variable {ε : Type} {g : Grammar ε} {given : Nat → Prop} {T U : Context ε → Context ε → Prop}

/-- The two matches have the same chain, and their contexts are in a relation. -/
structure Match.Alike (T : Context ε → Context ε → Prop) (m m' : Match ε) : Prop where
  chain : m.chain = m'.chain
  context : T m.context m'.context

/-- Neither match has a chain, or they are alike. -/
def Match.Even (T : Context ε → Context ε → Prop) (m m' : Match ε) : Prop :=
  (m.chain = [] ∧ m'.chain = []) ∨ m.Alike T m'

/-- A relation between the contexts of two lines that the steps of a path keep, as far as pairs are
only for the switches that may be given. -/
structure Grammar.Mirrors (g : Grammar ε) (given : Nat → Prop)
    (T : Context ε → Context ε → Prop) : Prop where
  waits : ∀ {ctx ctx' : Context ε} (s : Slot ε), T ctx ctx' →
    T (ctx.pushSwitch s) (ctx'.pushSwitch s)
  matched : ∀ {ctx ctx' : Context ε} (s : Slot ε), T ctx ctx' →
    T (ctx.pushMatched s) (ctx'.pushMatched s)
  pairs : ∀ {ctx ctx' others : Context ε} {flag : String} {s : Slot ε} (taken : Consumed),
    T ctx ctx' → given s.node → ctx.Answers flag s others →
      ∃ others', ctx'.Answers flag s others' ∧
        T (others.consume (s.holding taken)) (others'.consume (s.holding taken))
  value : ∀ {ctx ctx' : Context ε} {node : Nat} {s : Slot ε} (taken : Consumed), T ctx ctx' →
    g.slot? node = some s → (s.holding taken).value ctx.around = (s.holding taken).value ctx'.around

theorem mirrors_eq (g : Grammar ε) (given : Nat → Prop) : g.Mirrors given Eq where
  waits s h := by rw [h]
  matched s h := by rw [h]
  pairs taken h _ answer := ⟨_, h ▸ answer, rfl⟩
  value taken h _ := by rw [h]

/-! ## One node -/

theorem foldl_longer_alike {f f' : Nat → Match ε} {nodes : List Nat}
    (each : ∀ n ∈ nodes, (f n).Even T (f' n)) {m m' : Match ε} (h : m.Alike T m') :
    (nodes.foldl (fun best n => best.longer (f n)) m).Alike T
      (nodes.foldl (fun best n => best.longer (f' n)) m') := by
  induction nodes generalizing m m' with
  | nil => exact h
  | cons n nodes ih =>
    rw [List.forall_mem_cons] at each
    rw [List.foldl_cons, List.foldl_cons]
    apply ih each.2
    rcases each.1 with ⟨nil, nil'⟩ | alike
    · rw [Match.longer, Match.longer, nil, nil']
      exact h
    · rw [Match.longer, Match.longer, h.chain, alike.chain]
      split
      · exact alike
      · exact h

theorem below_alike {node : Nat} (inner : g.tree.isLeaf node = false) {line line' : Option String}
    {start start' : Context ε} (starts : T start start')
    (each : ∀ c ∈ g.tree.children node,
      (g.resolve c line start).Even T (g.resolve c line' start')) :
    (g.below node line start).Alike T (g.below node line' start') := by
  rw [Grammar.below, Grammar.below, inner]
  exact foldl_longer_alike each ⟨rfl, starts⟩

/-- What a switch leads to is alike where what comes behind it is. -/
theorem resolve_alike_of_waits (a : g.tree.Arena) {child : Nat} (inside : child < g.tree.size)
    {s : Slot ε} (here : g.slot? child = some s) (switch : s.isSwitch = true)
    {line line' : Option String} {start start' : Context ε}
    (below : (g.below child line (start.pushSwitch s)).Alike T
      (g.below child line' (start'.pushSwitch s))) :
    (g.resolve child line start).Alike T (g.resolve child line' start') := by
  rw [Grammar.resolve_of_passes a inside (.waits here switch),
    Grammar.resolve_of_passes a inside (.waits here switch)]
  exact ⟨congrArg (s :: ·) below.chain, below.context⟩

theorem resolve_even (a : g.tree.Arena) (mirrors : g.Mirrors given T)
    (weaker : ∀ {ctx ctx'}, T ctx ctx' → U ctx ctx') {child : Nat}
    (inside : child < g.tree.size) {s : Slot ε} (here : g.slot? child = some s)
    (plain : s.isSwitch = false) {line line' next next' : Option String}
    {start start' ctx ctx' : Context ε} (contexts : T ctx ctx')
    (pairs : start.takePairs line = .through next ctx)
    (pairs' : start'.takePairs line' = .through next' ctx') {token rest rest' : Option String}
    (consumed : s.type.consume s.descriptor next = .ok ⟨token, rest⟩)
    (consumed' : s.type.consume s.descriptor next' = .ok ⟨token, rest'⟩)
    (below : ∀ slot, slot = (s.holding ⟨token, none⟩).valued ctx.around →
      (g.below child rest (ctx.pushMatched slot)).Alike U
        (g.below child rest' (ctx'.pushMatched slot))) :
    (g.resolve child line start).Even U (g.resolve child line' start') := by
  have value := mirrors.value ⟨token, none⟩ contexts here
  have held : ∀ rest, s.holding ⟨token, rest⟩ = s.holding ⟨token, none⟩ := fun _ => rfl
  have slot : (s.holding ⟨token, none⟩).valued ctx'.around =
      (s.holding ⟨token, none⟩).valued ctx.around := by
    rw [Slot.valued, Slot.valued, value]
  have below := below _ rfl
  rw [Grammar.resolve_eq a inside, Grammar.resolve_eq a inside, Grammar.enter_of_slot? here plain,
    Grammar.enter_of_slot? here plain, pairs, pairs']
  simp only [Grammar.enterSlot_ok consumed, Grammar.enterSlot_ok consumed', held, slot, ← value]
  cases (s.holding ⟨token, none⟩).value ctx.around with
  | ok v => exact .inr ⟨congrArg (_ :: ·) below.chain, below.context⟩
  | error e =>
    cases e with
    | invalid message => exact .inr ⟨rfl, weaker (mirrors.matched _ contexts)⟩
    | requiredArgument => exact .inl ⟨rfl, rfl⟩
    | noResult => exact .inl ⟨rfl, rfl⟩

/-! ## Two matches -/

/-- Two matches stand at one node, each at its own line with the pairs that it has pending. -/
structure Abreast (g : Grammar ε) (T : Context ε → Context ε → Prop) (line line' : Option String)
    (start start' : Context ε) (words words' : List String) (ctx ctx' : Context ε) : Prop where
  pending : Pending g line start words ctx
  pending' : Pending g line' start' words' ctx'
  starts : T start start'
  contexts : T ctx ctx'

namespace Abreast

variable {line line' : Option String} {start start' ctx ctx' : Context ε}
  {words words' : List String}

theorem waits (h : Abreast g T line line' start start' words words' ctx ctx')
    (mirrors : g.Mirrors given T) {node : Nat} {s : Slot ε} (here : g.slot? node = some s)
    (switch : s.isSwitch = true) :
    Abreast g T line line' (start.pushSwitch s) (start'.pushSwitch s) words words'
      (ctx.pushSwitch s) (ctx'.pushSwitch s) where
  pending := h.pending.pushSwitch here switch
  pending' := h.pending'.pushSwitch here switch
  starts := mirrors.waits s h.starts
  contexts := mirrors.waits s h.contexts

theorem matched (h : Abreast g T line line' start start' words words' ctx ctx')
    (mirrors : g.Mirrors given T) {node : Nat} {s : Slot ε} (here : g.slot? node = some s)
    (plain : s.isSwitch = false) (taken : Consumed) (rest rest' : List String) :
    Abreast g T (wordLine rest) (wordLine rest')
      (ctx.pushMatched ((s.holding taken).valued ctx.around))
      (ctx'.pushMatched ((s.holding taken).valued ctx.around)) rest rest'
      (ctx.pushMatched ((s.holding taken).valued ctx.around))
      (ctx'.pushMatched ((s.holding taken).valued ctx.around)) := by
  have same : (s.holding taken).valued ctx'.around = (s.holding taken).valued ctx.around := by
    rw [Slot.valued, Slot.valued, mirrors.value taken h.contexts here]
  have keeps := Grammar.sound_keeps g
  have sound := keeps.matched taken (h.pending.past.sound h.pending.sound) here plain
  have sound' := keeps.matched taken (h.pending'.past.sound h.pending'.sound) here plain
  rw [same] at sound'
  exact ⟨.refl sound _, .refl sound' _, mirrors.matched _ h.contexts, mirrors.matched _ h.contexts⟩

theorem ended (a : g.tree.Arena) (wordwise : g.Wordwise) (mirrors : g.Mirrors given T) {node : Nat}
    (inside : node < g.tree.size) (h : Abreast g T line line' start start' [] [] ctx ctx') :
    (g.below node line start).Alike T (g.below node line' start') := by
  -- up from the leaves, as the lines hold nothing that could end the way down
  revert line line' start start' ctx ctx'
  refine a.descend (P := fun n => ∀ {line line' start start' ctx ctx'},
    Abreast g T line line' start start' [] [] ctx ctx' →
      (g.below n line start).Alike T (g.below n line' start')) ?_ node inside
  intro n _ ih line line' start start' ctx ctx' h
  cases leaf : g.tree.isLeaf n with
  | true =>
    rw [Grammar.below, Grammar.below, leaf]
    simp only [if_true, h.pending.past.takeTrailing_eq, h.pending'.past.takeTrailing_eq]
    rw [wordLine, Grammar.takeTrailing, Grammar.takeTrailing,
      Context.takePairs_of_not_dashed not_dashed_none,
      Context.takePairs_of_not_dashed not_dashed_none]
    exact ⟨rfl, h.contexts⟩
  | false =>
    refine below_alike leaf h.starts ?_
    intro c hc
    have inside := a.child_lt n c hc
    obtain ⟨s, here⟩ := Grammar.slot?_child a hc
    cases switch : s.isSwitch with
    | true =>
      have below := ih c hc (h.waits mirrors here switch)
      exact .inr (resolve_alike_of_waits a inside here switch below)
    | false =>
      have pairs := h.pending.takePairs_eq_of_nil
      have pairs' := h.pending'.takePairs_eq_of_nil
      cases consumed : s.type.consume s.descriptor none with
      | error e =>
        refine .inl ?_
        rw [Grammar.resolve_eq a inside, Grammar.resolve_eq a inside,
          Grammar.enter_of_slot? here switch, Grammar.enter_of_slot? here switch, pairs, pairs']
        simp only [Grammar.enterSlot, Slot.parse_error consumed, and_self]
      | ok taken =>
        obtain ⟨token, rest⟩ := taken
        obtain rfl : rest = none := wordwise.rest_eq_none here consumed
        refine resolve_even a mirrors id inside here switch h.contexts pairs pairs' consumed
          consumed ?_
        rintro slot rfl
        exact ih c hc (h.matched mirrors here switch ⟨token, none⟩ [] [])

/-- Where only literals stand beside a child, which neither line spells, the matches are alike if
those of the child are. -/
theorem below_of_alone (a : g.tree.Arena) (wordwise : g.Wordwise)
    (weaker : ∀ {ctx ctx'}, T ctx ctx' → U ctx ctx')
    (h : Abreast g T line line' start start' words words' ctx ctx')
    {token : Option String} (ahead : Ahead token words) (ahead' : Ahead token words')
    {node child : Nat}
    (below : child ∈ g.tree.children node) (alone : g.Alone token node child)
    (even : (g.resolve child line start).Even U (g.resolve child line' start')) :
    (g.below node line start).Alike U (g.below node line' start') := by
  refine below_alike (Tree.isLeaf_of_mem below) (weaker h.starts) ?_
  intro c hc
  by_cases hne : c = child
  · exact hne ▸ even
  · obtain ⟨slot, here⟩ := Grammar.slot?_child a hc
    have aside := alone c hc hne slot here
    have inside := a.child_lt node c hc
    exact .inl ⟨h.pending.resolve_aside a wordwise ahead here inside aside,
      h.pending'.resolve_aside a wordwise ahead' here inside aside⟩

/-- Words in common carry two matches from node to node: the matches are alike if they are alike
behind these words. -/
theorem follows (a : g.tree.Arena) (wordwise : g.Wordwise) (mirrors : g.Mirrors given T)
    (weaker : ∀ {ctx ctx'}, T ctx ctx' → U ctx ctx') {next : Option String} {node last : Nat}
    {final : Context ε} (path : g.Follows given next node words ctx last final)
    {rest rest' : List String} (ahead : Ahead next rest) (ahead' : Ahead next rest')
    (h : Abreast g T line line' start start' (words ++ rest) (words ++ rest') ctx ctx')
    (behind : ∀ line line' start start' final',
      Abreast g T line line' start start' rest rest' final final' →
        (g.below last line start).Alike U (g.below last line' start')) :
    (g.below node line start).Alike U (g.below node line' start') := by
  induction path generalizing line line' start start' ctx' with
  | done => exact behind _ _ _ _ _ h
  | waits below here switch alone path ih =>
    refine h.below_of_alone a wordwise weaker (path.ahead ahead) (path.ahead ahead') below alone
      (.inr ?_)
    exact resolve_alike_of_waits a (a.child_lt _ _ below) here switch
      (ih (h.waits mirrors here switch) behind)
  | @token node last s token words ctx final below here plain alone solid undashed path ih =>
    refine h.below_of_alone a wordwise weaker ((path.ahead ahead).token solid undashed)
      ((path.ahead ahead').token solid undashed) below alone ?_
    have consumed : ∀ line, s.type.consume s.descriptor (some (CommandTree.behind token line)) =
        .ok ⟨some token, line⟩ := by
      intro line
      rw [wordwise _ s here]
      exact consumeToken_behind s.descriptor solid line
    refine resolve_even a mirrors weaker (a.child_lt _ _ below) here plain h.contexts
      (h.pending.takePairs_eq_of_token undashed) (h.pending'.takePairs_eq_of_token undashed)
      (consumed _) (consumed _) ?_
    rintro slot rfl
    exact ih (h.matched mirrors here plain ⟨some token, none⟩ (words ++ rest) (words ++ rest'))
      behind
  | pair word solid answer may path ih =>
    obtain ⟨others', answer', contexts⟩ := mirrors.pairs ⟨some _, none⟩ h.contexts may answer
    exact ih ⟨h.pending.pair wordwise word solid answer,
      h.pending'.pair wordwise word solid answer', h.starts, contexts⟩ behind

end Abreast

end CommandTree
