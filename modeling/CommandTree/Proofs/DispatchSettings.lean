import CommandTree.Proofs.CompletionLimit
import CommandTree.Proofs.Dispatch

/-!
# Settings and dispatches

The settings of the engine reach a dispatch in two ways.  The number of completions wanted stands
in the context that every branch of the tree copies, and an argument type that is asked for a value
sees it.  Whether errors are reported is read in one place: where a value was refused and no handler
for errors stands on its path.

A match under another limit is the same match, with that limit in its context (`resolve_limited`),
and the walk of its chain finds the same (`spell_limited`), as long as the types find their values
without the limit (`Steady`).  So two dispatches of one line under different settings part at a
refusal that is not heard (`Unheard`) and nowhere else, and there only in how its message is told.

Results:
* `resolveWithin_limited`: a match under another limit.
* `unheard_iff`: an unheard refusal is what the walk of the chain ends at.
* `plan_under`: what is planned under all settings.
* `dispatch_under`: what a dispatch does under all settings.
* `Portal.settings_apart`: two settings, one line of any registry over the types of the engine and
  of the portal network.
-/
namespace CommandTree

variable {ε : Type}

/-! ## A match under another limit -/

def PairRun.limited (limit : Nat) : PairRun ε → PairRun ε
  | .through rest ctx => .through rest (ctx.limited limit)
  | .stuck ctx => .stuck (ctx.limited limit)

def Match.limited (found : Match ε) (limit : Nat) : Match ε :=
  { found with context := found.context.limited limit }

def Entry.limited (limit : Nat) : Entry ε → Entry ε
  | .stop found => .stop (found.limited limit)
  | .go found rest => .go (found.limited limit) rest

theorem Match.longer_limited (a b : Match ε) (limit : Nat) :
    (a.limited limit).longer (b.limited limit) = (a.longer b).limited limit := by
  unfold longer
  exact (apply_ite (Match.limited · limit) _ _ _).symm

theorem Context.takePairs_limited (ctx : Context ε) (limit : Nat) (line : Option String) :
    (ctx.limited limit).takePairs line = (ctx.takePairs line).limited limit := by
  -- every pair uses up a switch
  induction hn : ctx.switches.length using Nat.strongRecOn generalizing ctx line with
  | ind n ih =>
    rw [takePairs_eq, takePairs_eq, readPair_limited]
    cases pair : ctx.readPair line with
    | absent => rfl
    | unfinished flag => rfl
    | unanswered => rfl
    | refused ctx' => rfl
    | read switch rest ctx' =>
      exact ih ctx'.switches.length (hn ▸ length_switches_readPair pair) (ctx'.consume switch) rest
        rfl

namespace Grammar

variable {g : Grammar ε}

theorem takeTrailing_limited (ctx : Context ε) (limit : Nat) (line : Option String) :
    takeTrailing (ctx.limited limit) line = (takeTrailing ctx line).limited limit := by
  rw [takeTrailing, takeTrailing, Context.takePairs_limited]
  cases ctx.takePairs line <;> rfl

theorem enterSlot_limited {s : Slot ε} (steady : s.type.Steady) (ctx : Context ε) (limit : Nat)
    (line : Option String) :
    enterSlot s line (ctx.limited limit) = (enterSlot s line ctx).limited limit := by
  cases consumed : s.type.consume s.descriptor line with
  | error e =>
    simp only [enterSlot, Slot.parse_error consumed]
    rfl
  | ok taken =>
    have value : (s.holding taken).value (ctx.limited limit).around =
        (s.holding taken).value ctx.around :=
      Slot.value_limited (s := s.holding taken) steady ctx.around limit
    have valued : (s.holding taken).valued (ctx.limited limit).around =
        (s.holding taken).valued ctx.around :=
      Slot.valued_limited (s := s.holding taken) steady ctx.around limit
    rw [enterSlot_ok consumed, enterSlot_ok consumed, value, valued]
    cases (s.holding taken).value ctx.around with
    | ok v => rfl
    | error e => cases e <;> rfl

theorem enter_limited (steady : ∀ node slot, g.slot? node = some slot → slot.type.Steady)
    (node : Nat) (line : Option String) (ctx : Context ε) (limit : Nat) :
    g.enter node line (ctx.limited limit) = (g.enter node line ctx).limited limit := by
  cases here : g.slot? node with
  | none =>
    simp only [enter, here]
    rfl
  | some s =>
    cases switch : s.isSwitch with
    | true =>
      simp only [enter, here, switch]
      rfl
    | false =>
      rw [enter_of_slot? here switch, enter_of_slot? here switch, Context.takePairs_limited]
      cases ctx.takePairs line with
      | stuck ctx' => rfl
      | through rest ctx' => exact enterSlot_limited (steady node s here) ctx' limit rest

/-- A match under another limit is the same match, and the limit stands in its context. -/
theorem resolveWithin_limited (steady : ∀ node slot, g.slot? node = some slot → slot.type.Steady)
    (levels node : Nat) (line : Option String) (ctx : Context ε) (limit : Nat) :
    g.resolveWithin levels node line (ctx.limited limit) =
      (g.resolveWithin levels node line ctx).limited limit := by
  induction levels generalizing node line ctx with
  | zero => rfl
  | succ levels ih =>
    rw [resolveWithin, resolveWithin, enter_limited steady]
    cases g.enter node line ctx with
    | stop found => rfl
    | go found rest =>
      simp only [Entry.limited]
      split
      · exact congrArg (Match.mk _) (takeTrailing_limited found.context limit rest)
      · have best : (g.tree.children node).foldl
            (fun best child => best.longer
              (g.resolveWithin levels child rest (found.limited limit).context))
            (Match.limited ⟨[], found.context⟩ limit) =
            Match.limited ((g.tree.children node).foldl
              (fun best child => best.longer (g.resolveWithin levels child rest found.context))
              ⟨[], found.context⟩) limit := by
          refine List.foldl_hom (Match.limited · limit) fun best child => ?_
          rw [← Match.longer_limited, ← ih]
          rfl
        exact congrArg (fun best : Match ε => (⟨found.chain ++ best.chain, best.context⟩ : Match ε))
          best

/-! ## Other settings -/

def under (g : Grammar ε) (settings : Settings) : Grammar ε := { g with settings }

theorem resolveWithin_under (settings : Settings) (levels node : Nat) (line : Option String)
    (ctx : Context ε) :
    (g.under settings).resolveWithin levels node line ctx =
      g.resolveWithin levels node line ctx := by
  induction levels generalizing node line ctx with
  | zero => rfl
  | succ levels ih =>
    have enter : (g.under settings).enter node line ctx = g.enter node line ctx := rfl
    rw [resolveWithin, resolveWithin, enter]
    simp only [ih]
    rfl

/-- The match of a line under all settings. -/
theorem matchOf_under (steady : ∀ node slot, g.slot? node = some slot → slot.type.Steady)
    (settings : Settings) (limit : Nat) (line : String) (ctx : Context ε) :
    (g.under settings).matchOf line (ctx.limited limit) =
      (g.matchOf line ctx).limited limit := by
  rw [matchOf, matchOf, resolve, resolve, resolveWithin_under]
  exact resolveWithin_limited steady _ _ _ ctx limit

end Grammar

theorem Context.spell_limited {ctx : Context ε} (used : ∀ s ∈ ctx.consumed, s.type.Steady)
    {chain : List (Slot ε)} (steady : ∀ s ∈ chain, s.type.Steady) (limit : Nat) :
    (ctx.limited limit).spell chain = ctx.spell chain := by
  induction chain with
  | nil => rfl
  | cons slot chain ih =>
    obtain ⟨first, rest⟩ := List.forall_mem_cons.1 steady
    have settled : (ctx.limited limit).settle slot = ctx.settle slot := rfl
    rw [spell, spell, settled, ih rest]
    cases here : ctx.settle slot with
    | none => rfl
    | some s =>
      have value : s.value (ctx.limited limit).around = s.value ctx.around :=
        Slot.value_limited (settle_type used first here) ctx.around limit
      simp only [value]

namespace Grammar

variable {g : Grammar ε}

/-! ## Refusals that nobody hears -/

/-- What the walk of a line's chain finds. -/
def spelledOf (g : Grammar ε) (line : String) (ctx : Context ε) : Spelled :=
  (g.matchOf line ctx).context.spell (g.matchOf line ctx).chain

/-- On the effective path of a line a value is refused, and neither its node nor one above it has a
handler for errors. -/
inductive Unheard (g : Grammar ε) (line : String) (ctx : Context ε) (message : String) : Prop
  | intro {slots : List (Slot ε)} {s : Slot ε}
      (effective : (g.matchOf line ctx).context.Effective (g.matchOf line ctx).chain slots)
      (fault : Fault (g.matchOf line ctx).context.around slots s (.invalid message))
      (nobody : g.tree.Nearest .error s.node none)

theorem Unheard.unique {line message message' : String} {ctx : Context ε}
    (h : g.Unheard line ctx message) (h' : g.Unheard line ctx message') : message = message' := by
  obtain ⟨effective, fault, -⟩ := h
  obtain ⟨effective', fault', -⟩ := h'
  obtain ⟨-, same⟩ := fault.unique (effective'.unique effective ▸ fault')
  exact ParseError.invalid.inj same

/-- A refusal that is not heard is where the walk of the chain ends. -/
theorem unheard_iff (a : g.tree.Arena) {env : ε} {limit : Nat} {line message : String} :
    g.Unheard line { env, limit } message ↔
      (∃ d, (g.spelledOf line { env, limit }).fault = some (d, .invalid message)) ∧
        g.nearest (Tree.root :: (g.spelledOf line { env, limit }).path) .error = none := by
  obtain ⟨slots, effective, finds⟩ := effective_matchOf a env limit line
  change Finds _ slots (g.spelledOf line { env, limit }) at finds
  generalize g.spelledOf line { env, limit } = spelled at finds ⊢
  cases finds with
  | sane sane =>
    refine ⟨fun ⟨effective', fault, _⟩ => ?_, fun ⟨⟨_, h⟩, _⟩ => by cases h⟩
    exact absurd (effective.unique effective' ▸ sane) fault.not_sane
  | @fault before after s e _ split sane bad =>
    have fault : Fault (g.matchOf line { env, limit }).context.around slots s e :=
      ⟨before, after, split, sane, bad⟩
    have nearest := nearest_of_split a .error split (isChain_of_effective a effective)
    constructor
    · rintro ⟨effective', fault', nobody⟩
      obtain ⟨rfl, rfl⟩ := fault.unique (effective.unique effective' ▸ fault')
      exact ⟨⟨_, rfl⟩, nearest.unique nobody⟩
    · rintro ⟨⟨d, h⟩, none⟩
      cases h
      exact ⟨effective, fault, none ▸ nearest⟩

/-! ## Plans under all settings -/

/-- What is to be done about the walk of a chain. -/
def planAfter (g : Grammar ε) (line : String) (base : List Value) (spelled : Spelled) : Plan ε :=
  match spelled.fault with
  | none => g.planEnd (Tree.root :: spelled.path) base spelled.values
  | some (_, .invalid message) => g.planRefused (Tree.root :: spelled.path) base message
  | some (d, e) =>
    .warn ("Argument '" ++ d.text ++ "' of '" ++ line ++ "': " ++ e.message)

theorem plan_eq (g : Grammar ε) (line : String) (ctx : Context ε) (base : List Value) :
    g.plan (Text.trim line) ctx base =
      (g.planAfter (Text.trim line) base (g.spelledOf line ctx), (g.matchOf line ctx).context) :=
  rfl

/-- Settings are read for a refusal without a handler, and for nothing else. -/
theorem planAfter_under (line : String) (base : List Value) (spelled : Spelled) :
    (∃ d message, spelled.fault = some (d, .invalid message) ∧
      g.nearest (Tree.root :: spelled.path) .error = none ∧
      ∀ settings, (g.under settings).planAfter line base spelled =
        if settings.reportUnhandledErrors then .report message
        else .warn ("Dropping argument error with no handler: " ++ message)) ∨
    (∀ d message, spelled.fault = some (d, .invalid message) →
      g.nearest (Tree.root :: spelled.path) .error ≠ none) ∧
      ∀ settings, (g.under settings).planAfter line base spelled =
        g.planAfter line base spelled := by
  have same : ∀ settings, (g.under settings).nearest (Tree.root :: spelled.path) .error =
      g.nearest (Tree.root :: spelled.path) .error := fun _ => rfl
  rcases spelled with ⟨path, values, _ | ⟨d, e⟩⟩
  · exact .inr ⟨by simp, fun settings => rfl⟩
  · cases e with
    | requiredArgument => exact .inr ⟨by simp, fun settings => rfl⟩
    | noResult => exact .inr ⟨by simp, fun settings => rfl⟩
    | invalid message =>
      simp only [planAfter, planRefused, same]
      cases here : g.nearest (Tree.root :: path) .error with
      | some found => exact .inr ⟨by simp, fun settings => rfl⟩
      | none => exact .inl ⟨d, message, rfl, rfl, fun settings => rfl⟩

variable (a : g.tree.Arena) (steady : ∀ node slot, g.slot? node = some slot → slot.type.Steady)

include a steady

theorem spelledOf_under (settings : Settings) (env : ε) (limit limit' : Nat) (line : String) :
    (g.under settings).spelledOf line { env, limit := limit' } =
      g.spelledOf line { env, limit } := by
  have derives := matchOf_derives a line { env, limit }
  have used := (types_keep steady).derives ⟨sound_fresh g env limit, by simp⟩ derives
  have found : (g.under settings).matchOf line { env, limit := limit' } =
      (g.matchOf line { env, limit }).limited limit' :=
    matchOf_under steady settings limit' line { env, limit }
  rw [spelledOf, found]
  exact Context.spell_limited used.2 (derives.types steady) limit'

theorem unheard_under (settings : Settings) (env : ε) (limit limit' : Nat)
    (line message : String) :
    (g.under settings).Unheard line { env, limit := limit' } message ↔
      g.Unheard line { env, limit } message := by
  have there : (g.under settings).tree.Arena := a
  rw [unheard_iff a, unheard_iff there, spelledOf_under a steady settings env limit limit' line]
  rfl

/-- What is planned about a line under all settings: one thing, unless a refusal is not heard, where
its message is reported or put into a warning. -/
theorem plan_under (env : ε) (limit : Nat) (line : String) (base : List Value) :
    ∃ plan : Settings → Plan ε,
      (∀ settings limit', (g.under settings).plan (Text.trim line) { env, limit := limit' } base =
        (plan settings, (g.matchOf line { env, limit }).context.limited limit')) ∧
      ((∃ message, g.Unheard line { env, limit } message ∧
        ∀ settings, plan settings =
          if settings.reportUnhandledErrors then .report message
          else .warn ("Dropping argument error with no handler: " ++ message)) ∨
      (∀ message, ¬ g.Unheard line { env, limit } message) ∧
        ∀ settings, plan settings = plan {}) := by
  refine ⟨fun settings =>
    (g.under settings).planAfter (Text.trim line) base (g.spelledOf line { env, limit }), ?_, ?_⟩
  · intro settings limit'
    rw [plan_eq, spelledOf_under a steady settings env limit limit' line]
    exact congrArg (Prod.mk _) (congrArg Match.context
      (matchOf_under steady settings limit' line { env, limit }))
  · simp only [unheard_iff a]
    rcases g.planAfter_under (Text.trim line) base (g.spelledOf line { env, limit }) with
      ⟨d, message, fault, none, told⟩ | ⟨heard, same⟩
    · exact .inl ⟨message, ⟨⟨d, fault⟩, none⟩, told⟩
    · refine .inr ⟨fun message unheard => ?_, fun settings => (same settings).trans (same {}).symm⟩
      obtain ⟨⟨d, fault⟩, none⟩ := unheard
      exact heard d message fault none

end Grammar

/-! ## Two settings, one line -/

theorem Plan.outcome_of_call {plan : Plan ε} {call : Call ε} (h : plan.call = some call) :
    plan.outcome = call.kind.outcome := by
  cases plan with
  | run node kind handler args =>
    cases h
    rfl
  | report _ => cases h
  | warn _ => cases h
  | idle => cases h

/-- What is told of a dispatch: its outcome, what it logs, and the host's environment. -/
def Dispatched.told (done : Dispatched ε) : Except CommandError Outcome × List LogEntry × ε :=
  (done.outcome, done.log, done.context.env)

/-- What is told of a refusal that is not heard: its message, in the outcome or in a warning. -/
def unheardTold (settings : Settings) (env : ε) (message : String) :
    Except CommandError Outcome × List LogEntry × ε :=
  if settings.reportUnhandledErrors then (.ok (.unhandled message), [], env)
  else (.ok .noOp, [⟨.warn, "Dropping argument error with no handler: " ++ message⟩], env)

namespace Grammar

variable {g : Grammar ε}

/-- The call that dispatching a line makes, if any; its arguments begin with `base`. -/
def callWith (g : Grammar ε) (line : String) (ctx : Context ε) (base : List Value) :
    Option (Call ε) :=
  (g.plan (Text.trim line) ctx base).1.call

theorem perform_told {ctx ctx' : Context ε} (same : ctx.env = ctx'.env) (plan : Plan ε) :
    (perform ctx plan).told = (perform ctx' plan).told := by
  cases plan <;> simp only [perform, Dispatched.told, same]

/-- What a dispatch does under all settings: one call and one thing told of it, unless a refusal is
not heard. -/
theorem dispatch_under (a : g.tree.Arena)
    (steady : ∀ node slot, g.slot? node = some slot → slot.type.Steady) (env : ε) (line : String)
    (base : List Value) :
    ((∀ message, ¬ g.Unheard line { env } message) ∧
      ∃ call told, ∀ settings, (g.under settings).callWith line
          ((g.under settings).context env) base = call ∧
        ((g.under settings).dispatch line ((g.under settings).context env) base).told = told) ∨
    ∃ message, g.Unheard line { env } message ∧
      ∀ settings, (g.under settings).callWith line ((g.under settings).context env) base = none ∧
        ((g.under settings).dispatch line ((g.under settings).context env) base).told =
          unheardTold settings env message := by
  obtain ⟨plan, planned, plans⟩ := plan_under a steady env defaultLimit line base
  have unchanged : (g.matchOf line { env }).context.env = env :=
    (env_keeps g env).derives rfl (matchOf_derives a line { env })
  have calls : ∀ settings, (g.under settings).callWith line ((g.under settings).context env) base =
      (plan settings).call := fun settings =>
    congrArg (fun planned => planned.1.call) (planned settings settings.completionLimit)
  have told : ∀ settings,
      ((g.under settings).dispatch line ((g.under settings).context env) base).told =
        (perform { env } (plan settings)).told := by
    intro settings
    have ready : (g.under settings).context env =
        { env, limit := settings.completionLimit } := rfl
    simp only [dispatch, ready, planned]
    exact perform_told unchanged _
  simp only [calls, told]
  rcases plans with ⟨message, unheard, dropped⟩ | ⟨heard, same⟩
  · refine .inr ⟨message, unheard, fun settings => ?_⟩
    rw [dropped, unheardTold]
    split <;> exact ⟨rfl, rfl⟩
  · refine .inl ⟨heard, (plan {}).call, (perform { env } (plan {})).told, fun settings => ?_⟩
    rw [same]
    exact ⟨rfl, rfl⟩

end Grammar

namespace Registry

def under (r : Registry ε) (settings : Settings) : Registry ε := { r with settings }

def callWith (r : Registry ε) (env : ε) (line : String) (base : List Value) : Option (Call ε) :=
  (r.get? (splitLabel line).1).bind fun c =>
    (r.grammar c).callWith ((splitLabel line).2.getD "") ((r.grammar c).context env) base

/-- On a line a value is refused, and no handler for errors stands on its path. -/
def Unheard (r : Registry ε) (env : ε) (line message : String) : Prop :=
  ∃ c, r.get? (splitLabel line).1 = some c ∧
    (r.grammar c).Unheard ((splitLabel line).2.getD "") ((r.grammar c).context env) message

theorem mem_of_get? {r : Registry ε} {label : String} {c : Command ε}
    (h : r.get? label = some c) : c ∈ r.commands := by
  obtain ⟨i, -, here⟩ := Option.bind_eq_some_iff.1 h
  exact Array.mem_of_getElem? here

section Found

variable {r : Registry ε} {line : String} {c : Command ε}
  (found : r.get? (splitLabel line).1 = some c)

include found

theorem callWith_of_get? (env : ε) (base : List Value) (settings : Settings) :
    (r.under settings).callWith env line base =
      ((r.grammar c).under settings).callWith ((splitLabel line).2.getD "")
        (((r.grammar c).under settings).context env) base := by
  have there : (r.under settings).get? (splitLabel line).1 = some c := found
  rw [callWith, there]
  rfl

theorem dispatch_of_get? (env : ε) (base : List Value) (settings : Settings) :
    (r.under settings).dispatch env line base =
      some (((r.grammar c).under settings).dispatch ((splitLabel line).2.getD "")
        (((r.grammar c).under settings).context env) base) := by
  have there : (r.under settings).get? (splitLabel line).1 = some c := found
  show ((r.under settings).get? (splitLabel line).1).map _ = _
  rw [there]
  rfl

theorem unheard_of_get? {env : ε} {message : String} {settings : Settings} :
    (r.under settings).Unheard env line message ↔
      ((r.grammar c).under settings).Unheard ((splitLabel line).2.getD "")
        (((r.grammar c).under settings).context env) message := by
  have there : (r.under settings).get? (splitLabel line).1 = some c := found
  rw [Unheard, there]
  exact ⟨fun ⟨_, same, unheard⟩ => Option.some.inj same ▸ unheard, fun h => ⟨c, rfl, h⟩⟩

/-- A dispatch does what its call does, and comes to the outcome of its kind or to its error. -/
theorem outcome_of_dispatch (a : (r.grammar c).tree.Arena) (env : ε) (base : List Value)
    (settings : Settings) {done : Dispatched ε}
    (dispatched : (r.under settings).dispatch env line base = some done) :
    ∃ outcome, (∀ call, (r.under settings).callWith env line base = some call →
        outcome = call.kind.outcome) ∧
      done.outcome =
        (reactionTo env ((r.under settings).callWith env line base)).outcome.map
          (fun _ => outcome) ∧
      done.context.env = (reactionTo env ((r.under settings).callWith env line base)).env := by
  have there : ((r.grammar c).under settings).tree.Arena := a
  rw [dispatch_of_get? found] at dispatched
  rw [callWith_of_get? found]
  cases dispatched
  exact ⟨_, fun _ => Plan.outcome_of_call,
    Grammar.dispatch_eq there env settings.completionLimit _ base rfl⟩

end Found

end Registry

namespace Portal

open Grammar

/-- **Settings do not interfere with dispatches.**  Let the types of a registry be those for texts,
integers, doubles, literals, kinds of portals and players.  Dispatching a line under two settings
makes the same call of a handler, with the same arguments, or none under both; that call is all that
is done to the host, and the outcome is that of its kind, or its error.  The line has the same
refusals that no handler for errors hears.  Where there is none, the same is told of both
dispatches.  Where there is one, no handler is called and the host stays as it was, and the message
is reported where the settings say so; elsewhere it is in a warning, and the dispatch comes to
nothing. -/
theorem settings_apart (r : Registry Session) (types : ∀ name, Provided (r.types.lookup name))
    (built : ∀ c ∈ r.commands, c.tree.Built) (env : Session) (line : String) (base : List Value)
    (x y : Settings) :
    (r.under x).callWith env line base = (r.under y).callWith env line base ∧
    (∀ done, (r.under x).dispatch env line base = some done →
      ∃ outcome, (∀ call, (r.under x).callWith env line base = some call →
          outcome = call.kind.outcome) ∧
        done.outcome =
          (reactionTo env ((r.under x).callWith env line base)).outcome.map (fun _ => outcome) ∧
        done.context.env = (reactionTo env ((r.under x).callWith env line base)).env) ∧
    (∀ message, (r.under x).Unheard env line message ↔ (r.under y).Unheard env line message) ∧
    ((∀ message, ¬ (r.under x).Unheard env line message) →
      ((r.under x).dispatch env line base).map Dispatched.told =
        ((r.under y).dispatch env line base).map Dispatched.told) ∧
    ∀ message, (r.under x).Unheard env line message →
      (r.under x).callWith env line base = none ∧
      ((r.under x).dispatch env line base).map Dispatched.told =
        some (unheardTold x env message) := by
  have found : ∀ settings, (r.under settings).get? (splitLabel line).1 =
      r.get? (splitLabel line).1 := fun _ => rfl
  cases command : r.get? (splitLabel line).1 with
  -- nobody answers to the label, under no settings
  | none => simp [Registry.callWith, Registry.dispatch, Registry.Unheard, found, command]
  | some c =>
    have a : (r.grammar c).tree.Arena := (built c (Registry.mem_of_get? command)).arena
    have steady : ∀ node slot, (r.grammar c).slot? node = some slot → slot.type.Steady := by
      intro node slot here
      obtain ⟨d, -, rfl⟩ := Option.map_eq_some_iff.1 here
      exact (provided_limits (types d.name)).1
    have same : ∀ settings message, (r.under settings).Unheard env line message ↔
        (r.grammar c).Unheard ((splitLabel line).2.getD "") { env } message := by
      intro settings message
      rw [Registry.unheard_of_get? command]
      exact unheard_under a steady settings env defaultLimit settings.completionLimit _ message
    have decided : ∀ done, (r.under x).dispatch env line base = some done → _ := fun done =>
      Registry.outcome_of_dispatch command a env base x
    -- from here on there is one command, and only its grammar differs
    simp only [same, Registry.callWith_of_get? command, Registry.dispatch_of_get? command,
      Option.map_some, Option.some.injEq] at decided ⊢
    rcases dispatch_under a steady env ((splitLabel line).2.getD "") base with
      ⟨heard, call, told, all⟩ | ⟨message, unheard, all⟩
    · exact ⟨(all x).1.trans (all y).1.symm, decided, fun _ => trivial,
        fun _ => (all x).2.trans (all y).2.symm, fun message h => absurd h (heard message)⟩
    · refine ⟨(all x).1.trans (all y).1.symm, decided, fun _ => trivial,
        fun heard => absurd unheard (heard message), fun message' h => ?_⟩
      exact h.unique unheard ▸ all x

/-- A gate that takes a bounded number, with nobody to hear of others. -/
def gateTree : Tree Session := Tree.empty.bindPath "open @int(max=5)" .execute list

def gateRegistry : Registry Session :=
  { commands := #[⟨["gate"], gateTree⟩], labels := [("gate", 0)], types := commandTypes }

theorem gateRegistry_built : ∀ c ∈ gateRegistry.commands, c.tree.Built := by
  intro c hc
  rw [Array.mem_singleton.1 hc]
  exact .bindPath .empty _ _ _

def ann : Session := { name := "ann", online := ["ann"] }

def loud : Settings := { completionLimit := 1, reportUnhandledErrors := true }

/-- The number 3 opens the gate under both settings.  The number 9 breaks the bound, which one host
reads in the outcome and the other in its log. -/
theorem settings_apart_gate :
    let told (settings : Settings) (line : String) :=
      ((gateRegistry.under settings).dispatch ann line []).map Dispatched.told
    let message := "9 is greater than 5"
    told loud "gate open 3" = told {} "gate open 3" ∧
      (gateRegistry.under loud).Unheard ann "gate open 9" message ∧
      told loud "gate open 9" = some (.ok (.unhandled message), [], ann) ∧
      told {} "gate open 9" = some
        (.ok .noOp, [⟨.warn, "Dropping argument error with no handler: " ++ message⟩], ann) := by
  intro told message
  have reported : told loud "gate open 9" = some (.ok (.unhandled message), [], ann) := by
    decide +kernel
  have warned : told {} "gate open 9" =
      some (.ok .noOp, [⟨.warn, "Dropping argument error with no handler: " ++ message⟩], ann) := by
    decide +kernel
  obtain ⟨-, -, -, heard, opened⟩ := settings_apart gateRegistry provided_lookup
    gateRegistry_built ann "gate open 3" [] loud {}
  obtain ⟨-, -, -, same, dropped⟩ := settings_apart gateRegistry provided_lookup
    gateRegistry_built ann "gate open 9" [] loud {}
  refine ⟨heard fun other unheard => ?_, ?_, reported, warned⟩
  · have silent : told loud "gate open 3" ≠ some (.ok (.unhandled other), [], ann) := by
      have done : told loud "gate open 3" = some (.ok .execute, [], list.run ann ⟨[]⟩ |>.env) := by
        decide +kernel
      simp [done]
    exact silent (opened other unheard).2
  · obtain ⟨other, unheard⟩ :
        ∃ other, (gateRegistry.under loud).Unheard ann "gate open 9" other := by
      by_contra nobody
      have equal := same fun other unheard => nobody ⟨other, unheard⟩
      have apart : told loud "gate open 9" ≠ told {} "gate open 9" := by
        simp [reported, warned]
      exact apart equal
    obtain rfl : message = other := by
      have twice := reported.symm.trans (dropped other unheard).2
      simpa [unheardTold, loud] using twice
    exact unheard

end Portal

end CommandTree
