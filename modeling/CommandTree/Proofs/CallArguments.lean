import CommandTree.Proofs.Dispatch
import CommandTree.Proofs.Ledger

/-!
# The arguments of a call

A handler that is executed gets the values of the path, in the order of the path.  Each value comes
from one of three places (`Sourced`): a node that is no switch has taken a token in its place, a
switch has taken the value behind its flag, or a switch that no pair was for has taken what an
absent token becomes.  The order of the pieces on the line does not matter.

What stands behind the last piece that the path takes is not looked at.  Behind a node with
children this may be a pair for a switch of the path (`Overlooked`).

Results:
* `Slot.took_of_consumed`: what the standard way takes where a token stands, and where none does.
* `Ledger.sourced`: where the value of a slot that counts comes from.
* `dispatch_arguments`: the arguments of whatever handler is called.
* `take_other_sources`: a pair behind a token that no node takes, and a default that is not used.
-/
namespace CommandTree

variable {ε : Type}

/-! ## What a node takes -/

/-- What a slot has taken off a line.  In the standard way it is the text up to the first space, and
where the line has ended the default, or nothing if that is allowed. -/
structure Slot.Took (s : Slot ε) (line : Option String) (taken : Consumed) : Prop where
  consumed : s.type.consume s.descriptor line = .ok taken
  present : s.type.consume = consumeToken → ∀ text, line = some text →
    taken.token = some (Text.cut ' ' text).1
  ended : s.type.consume = consumeToken → line = none →
    taken.token = s.descriptor.parameter "default" ∧
      (taken.token = none → (s.descriptor.parameter "required").getD "true" ≠ "true")

theorem Slot.took_of_consumed {s : Slot ε} {line : Option String} {taken : Consumed}
    (consumed : s.type.consume s.descriptor line = .ok taken) : s.Took line taken where
  consumed := consumed
  present standard text he := by
    rw [standard, he, consumeToken_some] at consumed
    cases consumed
    rfl
  ended standard he := by
    rw [standard, he] at consumed
    exact (consumeAbsent_eq_ok_iff.1 consumed).2

/-- The value of what a slot has taken: the type's result for the token, null without one. -/
def Slot.verdict (s : Slot ε) (around : Surroundings ε) (taken : Consumed) :
    Except ParseError Value :=
  match taken.token with
  | some token => s.type.result token s.descriptor around
  | none => .ok .null

theorem Slot.value_holding (s : Slot ε) (around : Surroundings ε) (taken : Consumed) :
    (s.holding taken).value around = s.verdict around taken := rfl

theorem Slot.value_valued_holding (s : Slot ε) (around around' : Surroundings ε)
    (taken : Consumed) :
    ((s.holding taken).valued around).value around' = s.verdict around taken :=
  Slot.value_valued _ _ _

/-! ## Where values come from -/

/-- Where the value for a slot of the tree comes from, when a path has taken these pieces. -/
inductive Sourced (pieces : List (Piece ε)) (around : Surroundings ε) (slot : Slot ε) :
    Except ParseError Value → Prop
  /-- The token of the node in its place. -/
  | word {line : Option String} {taken : Consumed} {around' : Surroundings ε}
      (plain : slot.isSwitch = false) (piece : .token slot line taken around' ∈ pieces)
      (took : slot.Took line taken)
      (seen : around'.env = around.env ∧ around'.limit = around.limit) :
      Sourced pieces around slot (slot.verdict around' taken)
  /-- The token behind the flag of the switch. -/
  | given {flag value : String} {taken : Consumed} (switch : slot.isSwitch = true)
      (piece : .pair slot flag value taken ∈ pieces) (took : slot.Took (some value) taken) :
      Sourced pieces around slot (slot.verdict around taken)
  /-- What an absent token becomes, for a switch that no pair was for. -/
  | absent {taken : Consumed} (switch : slot.isSwitch = true)
      (unasked : slot.node ∉ nodesOf (pieces.filterMap Piece.asked?))
      (took : slot.Took none taken) : Sourced pieces around slot (slot.verdict around taken)

/-- A pair for an unused switch comes next where a path stops at a node with children. -/
structure Grammar.Overlooked (g : Grammar ε) (chain : List (Slot ε)) (rest : Option String)
    (ctx : Context ε) (node : Nat) : Prop where
  inner : ∃ last, (Tree.root :: nodesOf chain).getLast? = some last ∧ g.tree.isLeaf last = false
  unused : ctx.consumed? node = none
  next : ∃ ctx', ctx.Trails rest ctx' ∧ (ctx'.consumed? node).isSome = true

theorem Ledger.sourced {g : Grammar ε} {line rest : Option String} {env : ε} {limit : Nat}
    {ctx' : Context ε} {chain : List (Slot ε)} {pieces : List (Piece ε)} {dropped : List (Slot ε)}
    (h : Ledger g line { env, limit } chain pieces dropped rest ctx')
    (nodup : (nodesOf chain).Nodup)
    (standing : ∀ s ∈ waitsOf chain, g.slot? s.node = some s) {slot s : Slot ε} (mem : slot ∈ chain)
    (counts : ctx'.Counts slot s) :
    ∃ s₀, g.slot? s.node = some s₀ ∧ s.isSuppressed = s₀.isSuppressed ∧
      Sourced pieces ctx'.around s₀ (s.value ctx'.around) := by
  cases counts with
  | used used =>
    obtain ⟨⟨p, hp, used⟩, node⟩ := (h.consumed?_eq_some_iff nodup).1 used
    obtain ⟨s₀, flag, value, taken, rfl, rfl⟩ := Piece.used?_eq_some_iff.1 used
    have asked : s₀ ∈ pieces.filterMap Piece.asked? := List.mem_filterMap.2 ⟨_, hp, rfl⟩
    have passed : s₀ ∈ waitsOf chain := h.mem_waitsOf_iff.2 (.inr (.inl asked))
    refine ⟨s₀, standing s₀ passed, rfl, ?_⟩
    rw [Slot.value_holding]
    exact .given (List.mem_filter.1 passed).2 hp (Slot.took_of_consumed (h.laid.taken _ hp).2)
  | plain unused plain =>
    have placed : slot ∈ pieces.filterMap Piece.placed? := by
      rw [h.placed]
      exact List.mem_filter.2 ⟨mem, by simp [plain]⟩
    obtain ⟨p, hp, placed⟩ := List.mem_filterMap.1 placed
    obtain ⟨s₀, line', taken, around, rfl, rfl⟩ := Piece.placed?_eq_some_iff.1 placed
    obtain ⟨here, plain₀, env_eq, limit_eq⟩ := h.read _ _ _ _ hp
    refine ⟨s₀, here, rfl, ?_⟩
    rw [Slot.value_valued_holding]
    exact .word plain₀ hp (Slot.took_of_consumed (h.laid.taken _ hp))
      ⟨env_eq.trans h.env.symm, limit_eq.trans h.limit.symm⟩
  | @absent taken unused switch consumed =>
    refine ⟨slot, standing slot (List.mem_filter.2 ⟨mem, switch⟩), rfl, ?_⟩
    rw [Slot.value_holding]
    exact .absent switch ((h.consumed?_eq_none_iff nodup).1 unused) (Slot.took_of_consumed consumed)

/-! ## The call -/

/-- The arguments that a call has by its kind, on a path of these slots: for execution the values of
the slots that are not suppressed, in the order of the path and with nulls up to the number
declared; for an error the message of the first refused value; for a default nothing.  What the
caller gives beforehand stands in front. -/
inductive Argued (around : Surroundings ε) (base : List Value) (slots : List (Slot ε)) :
    Call ε → Prop
  | execute {node : Nat} {h : Handler ε} {values : List Value} (sane : Sane around slots)
      (values_eq : List.Forall₂ (fun s v => s.value around = .ok v)
        (slots.filter fun s => !s.isSuppressed) values) :
      Argued around base slots ⟨node, .execute, h, padded h.arity (base ++ values)⟩
  | default {node : Nat} {h : Handler ε} : Argued around base slots ⟨node, .default, h, base⟩
  | error {node : Nat} {h : Handler ε} {s : Slot ε} {message : String}
      (fault : Fault around slots s (.invalid message)) :
      Argued around base slots ⟨node, .error, h, base ++ [.text message]⟩

namespace Grammar

variable {g : Grammar ε}

theorem Decides.argued {around : Surroundings ε} {base : List Value} {slots : List (Slot ε)}
    {call : Option (Call ε)} {outcome : Outcome} (h : g.Decides around base slots call outcome) :
    ∀ c ∈ call, Argued around base slots c := by
  intro c hc
  cases h with
  | execute sane _ _ =>
    cases hc
    exact .execute sane (argumentsOf_forall₂ sane)
  | default _ _ _ _ =>
    cases hc
    exact .default
  | error fault _ =>
    cases hc
    exact .error fault
  | idle _ _ _ _ => cases hc
  | unhandled _ _ _ => cases hc
  | dropped _ _ _ => cases hc
  | missing _ _ => cases hc

/-- **The arguments of a call are the values of its path.**  The path of a line takes pieces off it
from its start, each in the place of one node, and comes to an end.  The value of each slot that
counts has its source among these pieces, or is what an absent token becomes; of a switch whose
pair is overlooked nothing is said.  The call that is planned, if one is, has the arguments that go
with its kind, and dispatching the line makes this call and no other. -/
theorem dispatch_arguments (g : Grammar ε) (built : g.tree.Built) (env : ε) (limit : Nat)
    (line : String) (base : List Value) (found : Match ε)
    (matched : g.matchOf line { env, limit } = found) (plan : Plan ε)
    (planned : (g.plan (Text.trim line) { env, limit } base).1 = plan) :
    ∃ pieces dropped rest slots,
      Ledger g (if Text.trim line = "" then none else some (Text.trim line)) { env, limit }
          found.chain pieces dropped rest found.context ∧
        g.Ends Tree.root found.chain rest found.context ∧
        found.context.Effective found.chain slots ∧
        (∀ s ∈ slots, ∃ slot, g.slot? s.node = some slot ∧ s.isSuppressed = slot.isSuppressed ∧
          (¬ g.Overlooked found.chain rest found.context s.node →
            Sourced pieces found.context.around slot (s.value found.context.around))) ∧
        (∀ call ∈ plan.call, Argued found.context.around base slots call) ∧
        (g.dispatch line { env, limit } base).outcome =
          (reactionTo env plan.call).outcome.map (fun _ => plan.outcome) ∧
        (g.dispatch line { env, limit } base).context.env = (reactionTo env plan.call).env := by
  have a := built.arena
  have derives := matchOf_derives a line { env, limit }
  obtain ⟨slots, effective, -⟩ := effective_matchOf a env limit line
  have decides := decides_of_effective a effective base
  rw [matched] at derives effective decides
  rw [planned] at decides
  obtain ⟨pieces, dropped, rest, ledger, ends⟩ := derives.ledger
  refine ⟨pieces, dropped, rest, slots, ledger, ends, effective, ?_, decides.argued,
    dispatch_eq a env limit line base planned⟩
  intro s hs
  obtain ⟨slot, mem, counts⟩ := effective.counts hs
  obtain ⟨s₀, here, suppressed, sourced⟩ :=
    ledger.sourced (derives.nodup a) (fun _ => derives.standing) mem counts
  exact ⟨s₀, here, suppressed, fun _ => sourced⟩

end Grammar

/-! ## A value on the path and a value that is not -/

def takeTree : Tree (List Value) :=
  (Tree.empty.insert Tree.root "take @string(switch=to|t, default=bag) @string").2.bind 3 .execute
    ⟨2, fun _ args => { env := args.values }⟩

def takeGrammar : Grammar (List Value) := ⟨takeTree, .standard, {}⟩

theorem takeTree_built : takeTree.Built :=
  .bind (.insert_root .empty _) (by decide +kernel) _ _

/-- The switch of `take sword -t chest` is given behind the token, and its value stands in front. -/
theorem dispatch_arguments_take :
    takeTree.Built ∧
      (takeGrammar.dispatch "take sword -t chest" { env := [] } []).context.env.map Value.text? =
        [some "chest", some "sword"] ∧
      ∃ found pieces dropped rest slots,
        takeGrammar.matchOf "take sword -t chest" { env := [] } = found ∧
        Ledger takeGrammar (some "take sword -t chest") { env := [] } found.chain pieces dropped
          rest found.context ∧
        found.context.Effective found.chain slots ∧
        (∀ call ∈ (takeGrammar.plan (Text.trim "take sword -t chest") { env := [] } []).1.call,
          Argued found.context.around [] slots call) ∧
        ∀ s ∈ slots, ∃ slot, takeGrammar.slot? s.node = some slot ∧
          s.isSuppressed = slot.isSuppressed ∧
          Sourced pieces found.context.around slot (s.value found.context.around) := by
  have nodes : nodesOf (takeGrammar.matchOf "take sword -t chest" { env := [] }).chain =
      [1, 2, 3] := by decide +kernel
  have line : (if Text.trim "take sword -t chest" = "" then none
      else some (Text.trim "take sword -t chest")) = some "take sword -t chest" := by decide
  have leaf : takeTree.isLeaf 3 = true := by decide +kernel
  obtain ⟨pieces, dropped, rest, slots, ledger, -, effective, sourced, argued, -⟩ :=
    Grammar.dispatch_arguments takeGrammar takeTree_built [] defaultLimit "take sword -t chest" []
      _ rfl _ rfl
  rw [line] at ledger
  refine ⟨takeTree_built, by decide +kernel, _, pieces, dropped, rest, slots, rfl, ledger,
    effective, argued, ?_⟩
  intro s hs
  obtain ⟨slot, here, suppressed, source⟩ := sourced s hs
  refine ⟨slot, here, suppressed, source ?_⟩
  rintro ⟨⟨last, last_eq, inner⟩, -, -⟩
  rw [nodes] at last_eq
  cases last_eq
  cases leaf.symm.trans inner

/-- A text whose type makes nothing of an absent token. -/
def spareText : ArgumentType (List Value) :=
  { (ArgumentType.text : ArgumentType (List Value)) with
    consume := fun d line => if line = none then .ok ⟨none, none⟩ else consumeToken d line }

/-- Two values that are not what a reader of the line expects.  The switch of
`take sword now -t chest` is given behind a token that no node takes, and the handler gets its
default; and of a type that makes nothing of an absent token the handler gets null, although the
switch has a default. -/
theorem take_other_sources :
    ((takeGrammar.dispatch "take sword now -t chest" { env := [] } []).outcome = .ok .execute ∧
      (takeGrammar.dispatch "take sword now -t chest" { env := [] } []).context.env.map
        Value.text? = [some "bag", some "sword"]) ∧
      ({ takeGrammar with types := TypeTable.standard.register "string" spareText }.dispatch
        "take sword" { env := [] } []).outcome = .ok .execute ∧
      ({ takeGrammar with types := TypeTable.standard.register "string" spareText }.dispatch
        "take sword" { env := [] } []).context.env.map Value.text? = [none, some "sword"] := by
  decide +kernel

end CommandTree
