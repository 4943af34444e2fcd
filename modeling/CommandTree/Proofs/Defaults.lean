import CommandTree.Proofs.Abreast
import CommandTree.Proofs.CompletionLimit

/-!
# Leaving an argument out

An argument that is left out has the value that its default has when it is typed.  For a node that
is no switch this is so already while the line is matched: the node takes the default where the line
has ended, and the two matches are the same.  A switch that is not given stands in the chain without
a token and takes its default only when the values are gathered; one that is given has been moved
from the waiting switches to the used ones (`Moved`).  So the values in between must not depend on
these switches (`Impartial`), as those of the engine's types and of the portal's types do not.
Whether the default is accepted does not matter.

A dispatch trims its line.  Blanks in front are gone in both lines, but blanks at the end belong to
the last word as soon as something is typed behind them.

Results:
* `matchOf_eq_of_leftOut`: a default typed behind the line leaves the match as it is.
* `Moved.spell_eq`: a default given by a flag leaves the values as they are.
* `Grammar.left_out_is_default`: leaving an argument out is typing its default.
* `left_out_differs`: a type that looks at the waiting switches, and a line with a blank at its end.
-/
namespace CommandTree

variable {ε : Type} {g : Grammar ε}

/-- Two lines make the same call, with the same arguments, and come to the same. -/
structure Grammar.Same (g : Grammar ε) (env : ε) (limit : Nat) (base : List Value)
    (line line' : String) : Prop where
  call : (g.plan (Text.trim line) { env, limit } base).1.call =
    (g.plan (Text.trim line') { env, limit } base).1.call
  outcome : (g.dispatch line { env, limit } base).outcome =
    (g.dispatch line' { env, limit } base).outcome
  env : (g.dispatch line { env, limit } base).context.env =
    (g.dispatch line' { env, limit } base).context.env

/-- Blanks in front of both lines make no difference. -/
theorem Grammar.Same.lead {env : ε} {limit : Nat} {base : List Value} {line line' lead : String}
    (h : g.Same env limit base line line')
    (blank : ∀ c ∈ lead.toList, Text.isBlank c = true) :
    g.Same env limit base (lead ++ line) (lead ++ line') := by
  have dispatched : ∀ text, g.dispatch (lead ++ text) { env, limit } base =
      g.dispatch text { env, limit } base := by
    intro text
    rw [Grammar.dispatch, Grammar.dispatch, Text.trim_append blank]
  refine ⟨?_, ?_, ?_⟩
  · rw [Text.trim_append blank, Text.trim_append blank, h.call]
  · rw [dispatched, dispatched, h.outcome]
  · rw [dispatched, dispatched, h.env]

/-- What is done about a line follows from what the walk of its chain finds. -/
theorem same_of_spell (a : g.tree.Arena) {env : ε} {limit : Nat} {line line' : String}
    (spelled : (g.matchOf line { env, limit }).context.spell (g.matchOf line { env, limit }).chain =
      (g.matchOf line' { env, limit }).context.spell (g.matchOf line' { env, limit }).chain)
    (base : List Value) : g.Same env limit base line line' := by
  have plans : (g.plan (Text.trim line) { env, limit } base).1.call =
        (g.plan (Text.trim line') { env, limit } base).1.call ∧
      (g.plan (Text.trim line) { env, limit } base).1.outcome =
        (g.plan (Text.trim line') { env, limit } base).1.outcome := by
    simp only [Grammar.matchOf] at spelled
    simp only [Grammar.plan, spelled]
    -- the text of the line stands only in the warning
    split
    · exact ⟨rfl, rfl⟩
    · exact ⟨rfl, rfl⟩
    · simp only [Plan.call, Plan.outcome, and_self]
  obtain ⟨outcome, env_eq⟩ := Grammar.dispatch_eq a env limit line base rfl
  obtain ⟨outcome', env_eq'⟩ := Grammar.dispatch_eq a env limit line' base rfl
  refine ⟨plans.1, ?_, ?_⟩
  · rw [outcome, outcome', plans.1, plans.2]
  · rw [env_eq, env_eq', plans.1]

/-! ## The next node of the path -/

/-- The words lead to a node below which a node that is no switch comes next.  It has a default, a
word that could be typed there and that nothing beside the node takes. -/
structure Grammar.LeftOut (g : Grammar ε) (fresh : Context ε) (words : List String)
    (slot : Slot ε) (default : String) : Prop where
  worded : Worded words
  follows : ∃ last ctx, g.Follows (fun _ => True) (some default) Tree.root words fresh last ctx ∧
    slot.node ∈ g.tree.children last ∧ g.Alone (some default) last slot.node
  here : g.slot? slot.node = some slot
  plain : slot.isSwitch = false
  parameter : slot.descriptor.parameter "default" = some default
  word : Text.IsWord default
  undashed : ¬ Dashed (some default)

theorem consumeToken_default {d : Descriptor} {token : String}
    (parameter : d.parameter "default" = some token) :
    consumeToken d none = .ok ⟨some token, none⟩ := by
  simp only [consumeToken, consumeAbsent, parameter]

/-- A default typed behind the line leaves the match as it is. -/
theorem matchOf_eq_of_leftOut (a : g.tree.Arena) (wordwise : g.Wordwise) {env : ε} {limit : Nat}
    {words : List String} {slot : Slot ε} {default : String}
    (h : g.LeftOut { env, limit } words slot default) :
    (g.matchOf (spaced words) { env, limit }).Alike Eq
      (g.matchOf (spaced words ++ " " ++ default) { env, limit }) := by
  obtain ⟨last, ctx, path, below, alone⟩ := h.follows
  have mirrors := mirrors_eq g fun _ => True
  have inside := a.child_lt last slot.node below
  have solid := Text.not_mem_space h.word.solid
  have ahead : Ahead (some default) [default] := (Ahead.nil none).token solid h.undashed
  have fresh := Grammar.sound_fresh g env limit
  have start : Abreast g Eq (wordLine words) (wordLine (words ++ [default])) { env, limit }
      { env, limit } (words ++ []) (words ++ [default]) { env, limit } { env, limit } := by
    rw [List.append_nil]
    exact ⟨.refl fresh _, .refl fresh _, rfl, rfl⟩
  rw [Grammar.matchOf, Grammar.matchOf, h.worded.line_eq, h.worded.line_concat_eq h.word,
    Grammar.resolve_root a, Grammar.resolve_root a]
  refine start.follows a wordwise mirrors id path (.nil _) ahead ?_
  intro line line' start start' final' h'
  refine h'.below_of_alone a wordwise id (.nil _) ahead below alone ?_
  -- one match takes the default where its line has ended, the other takes the word
  have standard := wordwise _ slot h.here
  have absent : slot.type.consume slot.descriptor none = .ok ⟨some default, none⟩ := by
    rw [standard]
    exact consumeToken_default h.parameter
  have typed : slot.type.consume slot.descriptor (some default) = .ok ⟨some default, none⟩ := by
    rw [standard]
    exact consumeToken_behind slot.descriptor solid none
  refine resolve_even a mirrors id inside h.here h.plain h'.contexts
    h'.pending.takePairs_eq_of_nil (h'.pending'.takePairs_eq_of_token h.undashed) absent typed ?_
  rintro _ rfl
  exact (h'.matched mirrors h.here h.plain ⟨some default, none⟩ [] []).ended a wordwise mirrors
    inside

/-! ## A switch of the path -/

/-- The value of a token does not depend on the switches, neither on those that wait nor on those
that have been used. -/
def ArgumentType.Impartial (type : ArgumentType ε) : Prop :=
  ∀ token d (around around' : Surroundings ε), around.env = around'.env →
    around.limit = around'.limit → around.matched = around'.matched →
      type.result token d around = type.result token d around'

def Grammar.Impartial (g : Grammar ε) : Prop :=
  ∀ node slot, g.slot? node = some slot → slot.type.Impartial

theorem ArgumentType.Basic.impartial {type : ArgumentType ε} (h : type.Basic) : type.Impartial :=
  fun token d around around' _ _ _ => h.result_eq token d around around'

theorem Portal.Provided.impartial {type : ArgumentType Session} (h : Provided type) :
    type.Impartial := by
  rcases h with basic | rfl | rfl
  · exact basic.impartial
  · exact fun _ _ _ _ _ _ _ => rfl
  · intro token d around around' env_eq _ _
    simp only [playerType, env_eq]

theorem Slot.value_eq_of_impartial {s : Slot ε} (h : s.type.Impartial)
    {around around' : Surroundings ε} (env : around.env = around'.env)
    (limit : around.limit = around'.limit) (matched : around.matched = around'.matched) :
    s.value around = s.value around' := by
  rw [Slot.value, Slot.value]
  cases s.answer with
  | some _ => rfl
  | none =>
    cases s.token with
    | some token => exact h token s.descriptor around around' env limit matched
    | none => rfl

/-- The second context is the first with one switch moved: it does not wait any more, but has
taken a token. -/
structure Moved (s : Slot ε) (token : String) (ctx ctx' : Context ε) : Prop where
  env : ctx.env = ctx'.env
  limit : ctx.limit = ctx'.limit
  matched : ctx.matched = ctx'.matched
  waiting : ∃ before after, ctx.switches = before ++ s :: after ∧ ctx'.switches = before ++ after
  unused : ctx.consumed? s.node = none
  used : ctx'.consumed? s.node = some (s.holding ⟨some token, none⟩)
  others : ∀ node, node ≠ s.node → ctx'.consumed? node = ctx.consumed? node

theorem moved_of_answers {ctx others : Context ε} {flag : String} {s : Slot ε}
    (answer : ctx.Answers flag s others) (unused : ctx.consumed? s.node = none) (token : String) :
    Moved s token ctx (others.consume (s.holding ⟨some token, none⟩)) := by
  obtain @⟨before, after, s, waiting, -, -⟩ := answer
  refine ⟨rfl, rfl, rfl, ⟨before, after, waiting, rfl⟩, unused, ?_, ?_⟩
  · rw [consumed?_consume, Slot.holding_node, if_pos rfl]
  · intro node hne
    rw [consumed?_consume, Slot.holding_node, if_neg (Ne.symm hne)]
    rfl

namespace Moved

variable {s t : Slot ε} {token flag : String} {ctx ctx' others : Context ε}

theorem consume (h : Moved s token ctx ctx') (other : t.node ≠ s.node) :
    Moved s token (ctx.consume t) (ctx'.consume t) where
  env := h.env
  limit := h.limit
  matched := h.matched
  waiting := h.waiting
  unused := by rw [consumed?_consume, if_neg other, h.unused]
  used := by rw [consumed?_consume, if_neg other, h.used]
  others node hne := by rw [consumed?_consume, consumed?_consume, h.others node hne]

theorem pushMatched (h : Moved s token ctx ctx') (t : Slot ε) :
    Moved s token (ctx.pushMatched t) (ctx'.pushMatched t) where
  env := h.env
  limit := h.limit
  matched := congrArg (· ++ [t]) h.matched
  waiting := h.waiting
  unused := h.unused
  used := h.used
  others := h.others

/-- What the types may look at, if they are impartial, is not changed by moving a switch. -/
theorem value_eq (h : Moved s token ctx ctx') (impartial : t.type.Impartial) :
    t.value ctx.around = t.value ctx'.around :=
  Slot.value_eq_of_impartial impartial h.env h.limit (congrArg (List.map Slot.toPlace) h.matched)

theorem pushSwitch (h : Moved s token ctx ctx') (t : Slot ε) :
    Moved s token (ctx.pushSwitch t) (ctx'.pushSwitch t) := by
  obtain ⟨before, after, split, split'⟩ := h.waiting
  refine ⟨h.env, h.limit, h.matched, ⟨before, after ++ [t], ?_, ?_⟩, h.unused, h.used, h.others⟩
  · simp [Context.pushSwitch, split]
  · simp [Context.pushSwitch, split']

theorem split_cases {α : Type} {x y : α} {before after front back : List α}
    (h : before ++ x :: after = front ++ y :: back) (hne : x ≠ y) :
    (∃ middle, before = front ++ y :: middle ∧ back = middle ++ x :: after) ∨
      ∃ middle, front = before ++ x :: middle ∧ after = middle ++ y :: back := by
  rcases List.append_eq_append_iff.1 h with ⟨rest, hf, hx⟩ | ⟨rest, hb, hy⟩
  · cases rest with
    | nil => exact absurd (List.cons.inj hx).1 hne
    | cons r rest =>
      obtain ⟨rfl, he⟩ := List.cons.inj hx
      exact .inr ⟨rest, hf, he⟩
  · cases rest with
    | nil => exact absurd (List.cons.inj hy).1.symm hne
    | cons r rest =>
      obtain ⟨rfl, he⟩ := List.cons.inj hy
      exact .inl ⟨rest, hb, he⟩

/-- A pair for another switch goes to that switch whether the one is moved or not. -/
theorem answers (h : Moved s token ctx ctx') (other : t.node ≠ s.node)
    (answer : ctx.Answers flag t others) :
    ∃ others', ctx'.Answers flag t others' ∧ Moved s token others others' := by
  obtain @⟨front, back, t, waiting, silent, known⟩ := answer
  obtain ⟨before, after, split, split'⟩ := h.waiting
  have hne : s ≠ t := fun he => other (he ▸ rfl)
  rcases split_cases (split.symm.trans waiting) hne with
    ⟨middle, rfl, rfl⟩ | ⟨middle, rfl, rfl⟩
  · have waiting' : ctx'.switches = front ++ t :: (middle ++ after) := by simp [split']
    refine ⟨_, .first waiting' silent known, ?_⟩
    exact ⟨h.env, h.limit, h.matched, ⟨front ++ middle, after, by simp, by simp⟩, h.unused, h.used,
      h.others⟩
  · have waiting' : ctx'.switches = (before ++ middle) ++ t :: back := by simp [split']
    have silent' : ∀ b ∈ before ++ middle, flag ∉ b.descriptor.flags := by
      intro b hb
      apply silent
      rcases List.mem_append.1 hb with hb | hb
      · exact List.mem_append_left _ hb
      · exact List.mem_append_right _ (List.mem_cons_of_mem _ hb)
    refine ⟨_, .first waiting' silent' known, ?_⟩
    exact ⟨h.env, h.limit, h.matched, ⟨before, middle ++ back, by simp, by simp⟩, h.unused, h.used,
      h.others⟩

end Moved

/-- The steps of a path keep a switch moved, if no pair is for that switch. -/
theorem mirrors_moved (impartial : g.Impartial) (s : Slot ε) (token : String) :
    g.Mirrors (· ≠ s.node) fun ctx ctx' => ctx = ctx' ∨ Moved s token ctx ctx' where
  waits t h := by
    rcases h with rfl | h
    · exact .inl rfl
    · exact .inr (h.pushSwitch t)
  matched t h := by
    rcases h with rfl | h
    · exact .inl rfl
    · exact .inr (h.pushMatched t)
  pairs taken h other answer := by
    rcases h with rfl | h
    · exact ⟨_, answer, .inl rfl⟩
    · obtain ⟨others', answer', moved⟩ := h.answers other answer
      exact ⟨others', answer', .inr (moved.consume other)⟩
  value taken h here := by
    rcases h with rfl | h
    · rfl
    · have type := impartial _ _ here
      exact h.value_eq type

/-! ## The values that are gathered -/

namespace Moved

variable {s : Slot ε} {token : String} {ctx ctx' : Context ε}

/-- The slot that counts is the same whether the switch has taken its default from its flag or
takes it for want of one. -/
theorem settle_eq (h : Moved s token ctx ctx') (wordwise : g.Wordwise)
    (here : g.slot? s.node = some s) (switch : s.isSwitch = true)
    (default : s.descriptor.parameter "default" = some token) {slot : Slot ε}
    (placed : g.Placed slot) : ctx.settle slot = ctx'.settle slot := by
  by_cases node : slot.node = s.node
  · have same : slot = s := by
      cases placed with
      | switch here' _ =>
        rw [node, here] at here'
        exact (Option.some.inj here').symm
      | plain here' plain _ _ =>
        rw [node, here] at here'
        cases here'
        simp [switch] at plain
    have absent : s.type.consume s.descriptor none = .ok ⟨some token, none⟩ := by
      rw [wordwise _ s here]
      exact consumeToken_default default
    have unparsed := Grammar.slot?_parsed here
    simp only [Context.settle, same, h.unused, h.used, Option.getD_none, Option.getD_some,
      unparsed, Slot.parse_ok absent]
    rfl
  · simp only [Context.settle, h.others slot.node node]

theorem spell_eq (h : Moved s token ctx ctx') (wordwise : g.Wordwise)
    (here : g.slot? s.node = some s) (switch : s.isSwitch = true)
    (default : s.descriptor.parameter "default" = some token)
    (used : ∀ t ∈ ctx.consumed, t.type.Impartial) {chain : List (Slot ε)}
    (placed : ∀ t ∈ chain, g.Placed t) (impartial : ∀ t ∈ chain, t.type.Impartial) :
    ctx.spell chain = ctx'.spell chain := by
  induction chain with
  | nil => rfl
  | cons slot chain ih =>
    rw [List.forall_mem_cons] at placed impartial
    have settled := h.settle_eq wordwise here switch default placed.1
    rw [Context.spell, Context.spell, ← settled, ih placed.2 impartial.2]
    cases counts : ctx.settle slot with
    | none => rfl
    | some t =>
      have type := Context.settle_type used impartial.1 counts
      simp only [h.value_eq type]

end Moved

/-- A switch waits in a gap of the line and has been given nowhere on it.  It has a default, a word
that could be given there behind one of its flags. -/
structure Grammar.NotGiven (g : Grammar ε) (fresh : Context ε) (front after : List String)
    (s : Slot ε) (flag default : String) : Prop where
  worded : Worded (front ++ after)
  follows : ∃ middle last ctx others final,
    g.Follows (· ≠ s.node) (tokenAhead after) Tree.root front fresh middle ctx ∧
      ctx.Answers flag s others ∧ g.Follows (· ≠ s.node) none middle after ctx last final
  solid : ' ' ∉ flag.toList
  parameter : s.descriptor.parameter "default" = some default
  word : Text.IsWord default

/-- A default given by a flag moves the switch and leaves the chain as it is. -/
theorem matchOf_alike_of_notGiven (a : g.tree.Arena) (wordwise : g.Wordwise)
    (impartial : g.Impartial) {env : ε} {limit : Nat} {front after : List String} {s : Slot ε}
    {flag default : String}
    (h : g.NotGiven { env, limit } front after s flag default) :
    (g.matchOf (spaced (front ++ after)) { env, limit }).Alike
      (fun ctx ctx' => ctx = ctx' ∨ Moved s default ctx ctx')
      (g.matchOf (spaced (front ++ ("-" ++ flag) :: default :: after)) { env, limit }) := by
  obtain ⟨middle, last, ctx, others, final, path, answer, path'⟩ := h.follows
  have mirrors := mirrors_moved impartial s default
  have fresh := Grammar.sound_fresh g env limit
  have solid := Text.not_mem_space h.word.solid
  have ahead : Ahead (tokenAhead after) after := by simpa using path'.ahead (.nil none)
  have dash : Text.Opens "-" := ⟨'-', rfl, by decide⟩
  have worded := h.worded.insert (dash.append flag) h.word.closes
  have moved := moved_of_answers answer (path.unused (by simp) rfl) default
  have start : Abreast g Eq (wordLine (front ++ after))
      (wordLine (front ++ ("-" ++ flag) :: default :: after)) { env, limit } { env, limit }
      (front ++ after) (front ++ ("-" ++ flag) :: default :: after) { env, limit }
      { env, limit } := ⟨.refl fresh _, .refl fresh _, rfl, rfl⟩
  rw [Grammar.matchOf, Grammar.matchOf, h.worded.line_eq, worded.line_eq, Grammar.resolve_root a,
    Grammar.resolve_root a]
  -- up to the gap the lines are the same
  refine start.follows a wordwise (mirrors_eq g (· ≠ s.node)) .inl path ahead
    (ahead.pair h.solid solid) ?_
  rintro line line' start start' _ ⟨pending, pending', starts, rfl⟩
  -- behind it one match has moved the switch
  have h' : Abreast g (fun ctx ctx' => ctx = ctx' ∨ Moved s default ctx ctx') line line' start
      start' (after ++ []) (after ++ []) ctx (others.consume (s.holding ⟨some default, none⟩)) := by
    rw [List.append_nil]
    exact ⟨pending, pending'.pair wordwise h.solid solid answer, .inl starts, .inr moved⟩
  refine h'.follows a wordwise mirrors id path' (.nil _) (.nil _) ?_
  intro line line' start start' final' h'
  exact h'.ended a wordwise mirrors (path'.inside a (path.inside a a.nonempty))

theorem spell_eq_of_notGiven (a : g.tree.Arena) (wordwise : g.Wordwise)
    (impartial : g.Impartial) {env : ε} {limit : Nat} {front after : List String} {s : Slot ε}
    {flag default : String}
    (h : g.NotGiven { env, limit } front after s flag default) :
    (g.matchOf (spaced (front ++ after)) { env, limit }).context.spell
        (g.matchOf (spaced (front ++ after)) { env, limit }).chain =
      (g.matchOf (spaced (front ++ ("-" ++ flag) :: default :: after)) { env, limit }).context.spell
        (g.matchOf (spaced (front ++ ("-" ++ flag) :: default :: after)) { env, limit }).chain := by
  obtain ⟨_, _, ctx, _, _, path, answer, -⟩ := h.follows
  have fresh := Grammar.sound_fresh g env limit
  obtain ⟨-, here, switch⟩ := (path.sound wordwise fresh).answers answer
  obtain ⟨chain, contexts⟩ := matchOf_alike_of_notGiven a wordwise impartial h
  rw [← chain]
  rcases contexts with same | moved
  · rw [same]
  · have derives := Grammar.matchOf_derives (g := g) a (spaced (front ++ after)) { env, limit }
    have keeps := Grammar.types_keep impartial
    have used := (keeps.derives ⟨fresh, by simp⟩ derives).2
    exact moved.spell_eq wordwise here switch h.parameter used derives.placed
      (derives.types impartial)

namespace Grammar

/-- **Leaving an argument out is typing its default.**  Take a line whose words lead along a path,
beside which there are only literals that the line does not spell; blanks may stand in front of the
words, but the last one does not end with a blank.  If the next node of the path has a default, the
line makes the same call, with the same arguments and the same outcome, when the default is typed
behind it.  Let the values, moreover, not depend on which switches wait and which have been used.  If
a switch of the path is not given on the line and has a default, the line does so when the default
is given behind a flag of the switch, in any gap where the switch waits and is the first to answer
to that flag.  Further defaults may follow, and the default need not be accepted. -/
theorem left_out_is_default (g : Grammar ε) (built : g.tree.Built) (wordwise : g.Wordwise)
    (env : ε) (limit : Nat) (base : List Value) {lead : String}
    (blank : ∀ c ∈ lead.toList, Text.isBlank c = true) :
    (∀ words slot default, g.LeftOut { env, limit } words slot default →
        g.Same env limit base (lead ++ spaced words)
          (lead ++ (spaced words ++ " " ++ default))) ∧
      (g.Impartial → ∀ front after s flag default,
        g.NotGiven { env, limit } front after s flag default →
          g.Same env limit base (lead ++ spaced (front ++ after))
            (lead ++ spaced (front ++ ("-" ++ flag) :: default :: after))) := by
  have a := built.arena
  constructor
  · intro words slot default h
    obtain ⟨chain, context⟩ := matchOf_eq_of_leftOut a wordwise h
    exact (same_of_spell a (by rw [chain, context]) base).lead blank
  · intro impartial front after s flag default h
    exact (same_of_spell a (spell_eq_of_notGiven a wordwise impartial h) base).lead blank

end Grammar

theorem Context.Answers.only {ctx : Context ε} {flag : String} {s : Slot ε}
    (waiting : ctx.switches = [s]) (known : flag ∈ s.descriptor.flags) :
    ctx.Answers flag s { ctx with switches := [] } :=
  @Context.Answers.first ε ctx flag [] [] s waiting (by simp) known

theorem Grammar.alone_of_only (g : Grammar ε) {node child : Nat} (token : Option String)
    (only : g.tree.children node = [child]) :
    child ∈ g.tree.children node ∧ g.Alone token node child := by
  refine ⟨by simp [only], ?_⟩
  intro c hc hne
  exact absurd (List.mem_singleton.1 (only ▸ hc)) hne

/-! ## The command that hands out a block -/

namespace Portal

theorem slot?_command (settings : Settings) {slot : Slot Session} (h : slot ∈ commandSlots) :
    (commandGrammar settings).slot? slot.node = some slot := by
  have inside : ∀ s ∈ commandSlots, 0 < s.node ∧ s.node < commandTree.size := by
    rw [commandTree_shape.1]
    decide
  have apart : (commandSlots.map fun s => s.node).Nodup := by decide
  obtain ⟨positive, lt⟩ := inside slot h
  obtain ⟨d, described⟩ := commandTree_built.arena.described slot.node positive lt
  have here : ((commandGrammar settings).slot? slot.node).isSome = true := by
    rw [Grammar.slot?, Option.isSome_map]
    exact Option.isSome_of_mem described
  obtain ⟨s, here⟩ := Option.isSome_iff_exists.1 here
  have node := Grammar.slot?_node here
  rw [here, List.inj_on_of_nodup_map apart (mem_commandSlots settings here) h node]

/-- Beside the command that hands out a block there are only literals of other names. -/
theorem alone_give : (commandGrammar {}).Alone (some "give") Tree.root 3 := by
  intro c hc hne slot here
  obtain ⟨-, top, -⟩ := commandTree_shape
  have listed : c ∈ [1, 2, 3] := top ▸ hc
  have cases : c = 1 ∨ c = 2 ∨ c = 3 := by simpa using listed
  rcases cases with rfl | rfl | rfl
  · have first : literalSlot 1 "reload" ∈ commandSlots := by simp [commandSlots]
    cases here.symm.trans (slot?_command {} first)
    exact ⟨rfl, by decide, by decide, by decide, by decide,
      by decide⟩
  · have second : literalSlot 2 "list" ∈ commandSlots := by simp [commandSlots]
    cases here.symm.trans (slot?_command {} second)
    exact ⟨rfl, by decide, by decide, by decide, by decide,
      by decide⟩
  · exact absurd rfl hne

/-- The word `give` leads to the switch, which waits then. -/
theorem follows_give (given : Nat → Prop) (next : Option String) (env : Session) (limit : Nat) :
    ∃ ctx, (commandGrammar {}).Follows given next Tree.root ["give"] { env, limit } 4 ctx ∧
      ctx.switches = [kindSlot] := by
  have listed : literalSlot 3 "give|g" ∈ commandSlots := by simp [commandSlots]
  have name := slot?_command {} listed
  have kind := slot?_command {} (show kindSlot ∈ commandSlots by simp [commandSlots])
  obtain ⟨-, top, inner, -⟩ := commandTree_shape
  have below : 3 ∈ commandTree.children 0 := by simp [top]
  obtain ⟨below', alone⟩ := (commandGrammar {}).alone_of_only next inner
  refine ⟨_, .token below name rfl alone_give (by decide) ?_
    (.waits below' kind (by decide) alone .done), rfl⟩
  exact mt dashed_some_iff.1 (by decide)

/-- On `give -t end` the player is left out. -/
theorem leftOut_give (env : Session) (limit : Nat) :
    (commandGrammar {}).LeftOut { env, limit } ["give", "-t", "end"] playerSlot "%self" where
  worded := ⟨by simp [Text.Opens]; decide, by simp [Text.Closes]; decide⟩
  follows := by
    have words : ["give"] ++ ["-" ++ "t", "end"] = ["give", "-t", "end"] := by decide
    obtain ⟨ctx, path, waiting⟩ := follows_give (fun _ => True)
      ((tokenAhead ["-" ++ "t", "end"]).or (some "%self")) env limit
    have pair : (commandGrammar {}).Follows (fun _ => True) (some "%self") 4
        ["-" ++ "t", "end"] ctx 4 _ :=
      .pair (by decide) (by decide) (.only waiting (by decide)) trivial .done
    have whole := path.append pair
    rw [words] at whole
    obtain ⟨-, -, -, lowest, -⟩ := commandTree_shape
    exact ⟨4, _, whole, (commandGrammar {}).alone_of_only _ lowest⟩
  here := slot?_command {} (by simp [commandSlots])
  plain := by decide
  parameter := by decide
  word := ⟨by decide, Text.solid_of_all (by decide)⟩
  undashed := mt dashed_some_iff.1 (by decide)

/-- On `give bob` the kind of the block is not given. -/
theorem notGiven_give (env : Session) (limit : Nat) :
    (commandGrammar {}).NotGiven { env, limit } ["give"] ["bob"] kindSlot "type" "NETHER" where
  worded := ⟨by simp [Text.Opens]; decide, by simp [Text.Closes]; decide⟩
  follows := by
    obtain ⟨ctx, path, waiting⟩ := follows_give (· ≠ 4) (some "bob") env limit
    have player := slot?_command {} (show playerSlot ∈ commandSlots by simp [commandSlots])
    obtain ⟨-, -, -, lowest, -⟩ := commandTree_shape
    obtain ⟨below, alone⟩ := (commandGrammar {}).alone_of_only (some "bob") lowest
    refine ⟨4, 5, ctx, _, _, path, .only waiting (by decide),
      .token below player rfl alone (by decide) ?_ .done⟩
    exact mt dashed_some_iff.1 (by decide)
  solid := by decide
  parameter := by decide
  word := ⟨by decide, Text.solid_of_all (by decide)⟩

end Portal

/-- Two lines of the portal commands and what they leave out: the player of `give -t end` is the one
who is typing, and the block of `give bob` is a nether portal.  A blank stands in front. -/
theorem left_out_is_default_give :
    let env : Portal.Session := { name := "ann", online := ["ann", "bob"] }
    let given (line : String) :=
      ((Portal.commandGrammar {}).dispatch line { env } []).context.env.given
    Portal.commandTree.Built ∧ (Portal.commandGrammar {}).Wordwise ∧
      given " give -t end" = [⟨"ann", "end"⟩] ∧ given " give bob" = [⟨"bob", "nether"⟩] ∧
      (Portal.commandGrammar {}).Same env defaultLimit [] " give -t end" " give -t end %self" ∧
      (Portal.commandGrammar {}).Same env defaultLimit [] " give bob" " give -type NETHER bob" := by
  intro env given
  have provided := Portal.commandTypes_provided {}
  have wordwise : (Portal.commandGrammar {}).Wordwise :=
    fun node slot here => (provided node slot here).consume_eq
  obtain ⟨typed, flagged⟩ := Grammar.left_out_is_default (Portal.commandGrammar {})
    Portal.commandTree_built wordwise env defaultLimit [] Text.blank_space
  have player := typed _ _ _ (Portal.leftOut_give env defaultLimit)
  have kind := flagged (fun node slot here => (provided node slot here).impartial) _ _ _ _ _
    (Portal.notGiven_give env defaultLimit)
  have line : " " ++ spaced ["give", "-t", "end"] = " give -t end" := by decide
  have typed_line : " " ++ (spaced ["give", "-t", "end"] ++ " " ++ "%self") =
      " give -t end %self" := by decide
  have bare : " " ++ spaced (["give"] ++ ["bob"]) = " give bob" := by decide
  have flagged_line : " " ++ spaced (["give"] ++ ("-" ++ "type") :: "NETHER" :: ["bob"]) =
      " give -type NETHER bob" := by decide
  rw [line, typed_line] at player
  rw [bare, flagged_line] at kind
  exact ⟨Portal.commandTree_built, wordwise, by decide +kernel, by decide +kernel, player, kind⟩

/-! ## Lines that differ -/

/-- A literal, and below it a switch, a text and a text that may be left out. -/
def orderTree : Tree (List Value) :=
  (Tree.empty.insert Tree.root
    "order @string(switch=to|t, default=bag) @string @string(default=5)").2.bind 4 .execute
    ⟨3, fun _ args => { env := args.values }⟩

theorem orderTree_shape :
    4 < orderTree.size ∧
      (orderTree.descriptor 1).map (fun d => (d.name, d.params.entries)) = some ("order", []) ∧
      (orderTree.descriptor 2).map (fun d => (d.name, d.params.entries)) =
        some ("@string", [("switch", "to|t"), ("default", "bag")]) ∧
      (orderTree.descriptor 3).map (fun d => (d.name, d.params.entries)) = some ("@string", []) ∧
      (orderTree.descriptor 4).map (fun d => (d.name, d.params.entries)) =
        some ("@string", [("default", "5")]) ∧
      orderTree.children Tree.root = [1] ∧ orderTree.children 1 = [2] ∧
      orderTree.children 2 = [3] ∧ orderTree.children 3 = [4] := by
  decide +kernel

theorem orderTree_built : orderTree.Built :=
  .bind (.insert_root .empty _) orderTree_shape.1 _ _

/-- The tree with a type of texts. -/
def orderGrammar (texts : ArgumentType (List Value)) : Grammar (List Value) :=
  ⟨orderTree, TypeTable.standard.register "string" texts, {}⟩

/-- A type whose values tell how many switches wait. -/
def waitingType : ArgumentType (List Value) where
  result _ _ around := .ok (.text (toString around.switches.length))

theorem orderGrammar_wordwise {texts : ArgumentType (List Value)}
    (standard : texts.consume = consumeToken) : (orderGrammar texts).Wordwise := by
  intro node slot here
  obtain ⟨d, -, rfl⟩ := Option.map_eq_some_iff.1 here
  simp only [orderGrammar, TypeTable.lookup_register]
  split
  · exact standard
  · exact (TypeTable.standard_basic d.name).consume_eq

def orderSlot (texts : ArgumentType (List Value)) (node : Nat)
    (entries : List (String × String)) : Slot (List Value) :=
  { node, descriptor := ⟨"@string", ⟨entries⟩⟩, type := texts }

def bagSlot (texts : ArgumentType (List Value)) : Slot (List Value) :=
  orderSlot texts 2 [("switch", "to|t"), ("default", "bag")]

theorem slot?_order (texts : ArgumentType (List Value)) {node : Nat}
    {entries : List (String × String)}
    (h : (orderTree.descriptor node).map (fun d => (d.name, d.params.entries)) =
      some ("@string", entries)) :
    (orderGrammar texts).slot? node = some (orderSlot texts node entries) := by
  rw [Grammar.slot?_eq h, orderGrammar, TypeTable.lookup_register, if_pos (by decide), orderSlot]

/-- The word `order` leads to the switch, which waits then. -/
theorem follows_order (texts : ArgumentType (List Value)) (given : Nat → Prop)
    (next : Option String) :
    ∃ ctx, (orderGrammar texts).Follows given next Tree.root ["order"] { env := [] } 2 ctx ∧
      ctx.switches = [bagSlot texts] := by
  obtain ⟨-, name, bag, -, -, top, inner, -⟩ := orderTree_shape
  let order : Slot (List Value) :=
    { node := 1, descriptor := ⟨"order", ⟨[]⟩⟩, type := (orderGrammar texts).types.lookup "order" }
  have here : (orderGrammar texts).slot? 1 = some order := Grammar.slot?_eq name
  have here' : (orderGrammar texts).slot? 2 = some (bagSlot texts) := slot?_order texts bag
  obtain ⟨below, alone⟩ := (orderGrammar texts).alone_of_only (some "order") top
  obtain ⟨below', alone'⟩ := (orderGrammar texts).alone_of_only next inner
  have undashed : ¬ Dashed (some "order") := mt dashed_some_iff.1 (by decide)
  exact ⟨_, .token (s := order) below here rfl alone (by decide) undashed
    (.waits (s := bagSlot texts) below' here' rfl alone' .done), rfl⟩

theorem known_bag (texts : ArgumentType (List Value)) :
    "t" ∈ (bagSlot texts).descriptor.flags := by
  have known : "t" ∈ Descriptor.flags ⟨"@string", ⟨[("switch", "to|t"), ("default", "bag")]⟩⟩ := by
    decide
  exact known

/-- A word behind it leads to the text, and the switch still waits. -/
theorem follows_word (texts : ArgumentType (List Value)) (given : Nat → Prop)
    (next : Option String) {word : String} (solid : ' ' ∉ word.toList)
    (undashed : ¬ Dashed (some word)) (ctx : Context (List Value)) :
    ∃ ctx', (orderGrammar texts).Follows given next 2 [word] ctx 3 ctx' ∧
      ctx'.switches = ctx.switches := by
  obtain ⟨-, -, -, text, -, -, -, below, -⟩ := orderTree_shape
  have here : (orderGrammar texts).slot? 3 = some (orderSlot texts 3 []) := slot?_order texts text
  obtain ⟨below, alone⟩ := (orderGrammar texts).alone_of_only (some word) below
  exact ⟨_, .token (s := orderSlot texts 3 []) below here rfl alone solid undashed .done, rfl⟩

/-- Without its conditions the law fails.  Where the values tell how many switches wait, `order oak`
and `order -t bag oak` differ; and a tab at the end of `order oak` is trimmed, but belongs to the
word as soon as a default is typed behind it. -/
theorem left_out_differs :
    let counting := orderGrammar waitingType
    let plain := orderGrammar .text
    let fresh : Context (List Value) := { env := [] }
    orderTree.Built ∧ counting.Wordwise ∧ plain.Wordwise ∧
      (counting.NotGiven fresh ["order"] ["oak"] (bagSlot waitingType) "t" "bag" ∧
        ¬ counting.Same [] defaultLimit [] "order oak" "order -t bag oak") ∧
      (∀ given next, ∃ ctx others,
        plain.Follows given next Tree.root ["order", "oak\t"] fresh 3 ctx ∧
          ctx.Answers "t" (bagSlot .text) others) ∧
      plain.slot? 4 = some (orderSlot .text 4 [("default", "5")]) ∧
      orderTree.children 3 = [4] ∧ Text.trim (spaced ["order", "oak\t"]) = "order oak" ∧
      ¬ plain.Same [] defaultLimit [] "order oak\t" "order oak\t 5" ∧
      ¬ plain.Same [] defaultLimit [] "order oak\t" "order oak\t -t bag" := by
  intro counting plain fresh
  obtain ⟨-, -, -, -, count, -, -, -, last⟩ := orderTree_shape
  have differ : ∀ {g : Grammar (List Value)} {line line' : String},
      (g.dispatch line fresh []).context.env.map Value.text? ≠
        (g.dispatch line' fresh []).context.env.map Value.text? →
      ¬ g.Same [] defaultLimit [] line line' := fun differ same =>
    differ (congrArg (List.map Value.text?) same.env)
  refine ⟨orderTree_built, orderGrammar_wordwise rfl, orderGrammar_wordwise rfl, ⟨?_, ?_⟩, ?_,
    slot?_order .text count, last, by decide, ?_, ?_⟩
  · have undashed : ¬ Dashed (some "oak") := mt dashed_some_iff.1 (by decide)
    obtain ⟨ctx, path, waiting⟩ := follows_order waitingType (· ≠ 2) (some "oak")
    obtain ⟨ctx', path', -⟩ := follows_word waitingType (· ≠ 2) none (by decide) undashed ctx
    exact
      { worded := ⟨by simp [Text.Opens]; decide, by simp [Text.Closes]; decide⟩
        follows := ⟨2, 3, ctx, _, ctx', path, .only waiting (known_bag waitingType), path'⟩
        solid := by decide
        parameter := by decide
        word := ⟨by decide, Text.solid_of_all (by decide)⟩ }
  · exact differ (by decide +kernel)
  · intro given next
    have undashed : ¬ Dashed (some "oak\t") := mt dashed_some_iff.1 (by decide)
    obtain ⟨ctx, path, waiting⟩ := follows_order .text given ((tokenAhead ["oak\t"]).or next)
    obtain ⟨ctx', path', waits⟩ := follows_word .text given next (by decide) undashed ctx
    exact ⟨ctx', _, path.append path', .only (waits.trans waiting) (known_bag .text)⟩
  · exact differ (by decide +kernel)
  · exact differ (by decide +kernel)

end CommandTree
