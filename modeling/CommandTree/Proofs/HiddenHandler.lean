import CommandTree.Proofs.Dispatch

/-!
# Handlers above switches that are left out

A switch stands on the chain whether it is given or not, so a match may go on below the node that a
line spells, by switches that the line leaves out (`Overhang`).  A switch that has to be given cuts
the path off there, and the node above it is executed.  A switch that may be left out becomes the
end of the path, and hides the handler above it.

Results:
* `effective_append`: an effective path goes on where the part before it has all its values.
* `executed_iff`: a node above an overhang is executed exactly when the overhang is cut off.
* `handler_hidden`: a line that spells an executable node, and no handler that runs.
-/
namespace CommandTree

variable {ε : Type}

namespace Context

variable {ctx : Context ε}

/-- The slot counts for one that has a value. -/
def Settles (ctx : Context ε) (slot : Slot ε) : Prop :=
  ∃ s v, ctx.Counts slot s ∧ s.value ctx.around = .ok v

/-- A chain whose slots have values or are missing has an effective path with all its values. -/
theorem effective_of_settled {chain : List (Slot ε)}
    (settled : ∀ s ∈ chain, ctx.Missing s ∨ ctx.Settles s) :
    ∃ slots, ctx.Effective chain slots ∧ Sane ctx.around slots := by
  induction chain with
  | nil => exact ⟨[], .nil, by simp [Sane]⟩
  | cons slot chain ih =>
    rw [List.forall_mem_cons] at settled
    rcases settled.1 with missing | ⟨s, v, counts, value⟩
    · exact ⟨[], .cut missing, by simp [Sane]⟩
    · obtain ⟨slots, effective, sane⟩ := ih settled.2
      exact ⟨s :: slots, .cons counts effective, sane.cons value⟩

/-- What is cut off at its first slot leaves the path where it was. -/
theorem effective_of_cut {trail : List (Slot ε)}
    (cut : ∀ s ∈ trail.head?, ctx.Missing s) : ctx.Effective trail [] := by
  cases trail with
  | nil => exact .nil
  | cons s trail => exact .cut (cut s rfl)

theorem effective_append {before chain slots : List (Slot ε)}
    (settled : ∀ s ∈ before, ctx.Settles s) (effective : ctx.Effective chain slots)
    (sane : Sane ctx.around slots) :
    ∃ spelled, ctx.Effective (before ++ chain) (spelled ++ slots) ∧
      nodesOf spelled = nodesOf before ∧ Sane ctx.around (spelled ++ slots) := by
  induction before with
  | nil => exact ⟨[], effective, rfl, sane⟩
  | cons slot before ih =>
    rw [List.forall_mem_cons] at settled
    obtain ⟨s, v, counts, value⟩ := settled.1
    obtain ⟨spelled, effective, nodes, sane⟩ := ih settled.2
    refine ⟨s :: spelled, .cons counts effective, ?_, sane.cons value⟩
    rw [nodesOf_cons, nodesOf_cons, counts.node_eq, nodes]

end Context

namespace Grammar

variable {g : Grammar ε}

/-- The end of a chain where a line gives nothing more: switches that are left out, whose types
accept what they become then, at nodes that are not executed. -/
structure Overhang (g : Grammar ε) (ctx : Context ε) (trail : List (Slot ε)) : Prop where
  switch : ∀ s ∈ trail, s.isSwitch = true
  unused : ∀ s ∈ trail, ctx.consumed? s.node = none
  unbound : ∀ s ∈ trail, g.tree.handler? s.node .execute = none
  accepted : ∀ s ∈ trail, ∀ taken, s.type.consume s.descriptor none = .ok taken →
    ∃ v, (s.holding taken).value ctx.around = .ok v

theorem Overhang.settled {ctx : Context ε} {trail : List (Slot ε)} (h : g.Overhang ctx trail) :
    ∀ s ∈ trail, ctx.Missing s ∨ ctx.Settles s := by
  intro s hs
  cases consumed : s.type.consume s.descriptor none with
  | error e => exact .inl ⟨h.unused s hs, h.switch s hs, e, consumed⟩
  | ok taken =>
    obtain ⟨v, value⟩ := h.accepted s hs taken consumed
    exact .inr ⟨_, v, .absent (h.unused s hs) (h.switch s hs) consumed, value⟩

/-- A path with all its values that does not end at an executed node calls for a default handler,
if for any. -/
theorem Decides.call_of_unbound {around : Surroundings ε} {base : List Value}
    {slots : List (Slot ε)} {call : Option (Call ε)} {outcome : Outcome}
    (h : g.Decides around base slots call outcome) (sane : Sane around slots) {last : Nat}
    (last_eq : (Tree.root :: nodesOf slots).getLast? = some last)
    (unbound : g.tree.handler? last .execute = none) :
    ∃ found, g.tree.Nearest .default last found ∧
      call = found.map fun (node, h) => ⟨node, .default, h, base⟩ := by
  cases h with
  | execute _ last_eq' bound =>
    rw [last_eq] at last_eq'
    cases last_eq'
    rw [unbound] at bound
    cases bound
  | default _ last_eq' _ nearest =>
    rw [last_eq] at last_eq'
    cases last_eq'
    exact ⟨_, nearest, rfl⟩
  | idle _ last_eq' _ nearest =>
    rw [last_eq] at last_eq'
    cases last_eq'
    exact ⟨_, nearest, rfl⟩
  | error fault _ => exact absurd sane fault.not_sane
  | unhandled fault _ _ => exact absurd sane fault.not_sane
  | dropped fault _ _ => exact absurd sane fault.not_sane
  | missing fault _ => exact absurd sane fault.not_sane

/-- An overhang that is not cut off at its first slot has the end of the path. -/
theorem Overhang.effective {ctx : Context ε} {trail : List (Slot ε)} (h : g.Overhang ctx trail)
    (kept : ∃ s ∈ trail.head?, ¬ ctx.Missing s) :
    ∃ slots last, ctx.Effective trail slots ∧ Sane ctx.around slots ∧
      (nodesOf slots).getLast? = some last ∧ last ∈ nodesOf trail := by
  obtain ⟨s, head, kept⟩ := kept
  obtain ⟨trail, rfl⟩ := List.head?_eq_some_iff.1 head
  have settled := List.forall_mem_cons.1 h.settled
  obtain ⟨t, v, counts, value⟩ := settled.1.resolve_left kept
  obtain ⟨slots, effective, sane⟩ := Context.effective_of_settled settled.2
  have effective := Context.Effective.cons counts effective
  obtain ⟨last, last_eq⟩ : ∃ last, (nodesOf (t :: slots)).getLast? = some last :=
    ⟨_, List.getLast?_eq_some_getLast (List.cons_ne_nil _ _)⟩
  exact ⟨_, last, effective, sane.cons value, last_eq,
    effective.isPrefix.subset (List.mem_of_getLast? last_eq)⟩

/-- **A node above switches that are left out is executed exactly when they are cut off.**  Let a
line spell the path to `node`, to which `h` is bound for execution, and let the chain of its match
go on from there by an overhang alone.  The handler is called, with the values of the path, exactly
when nothing hangs below the node or the first switch there has to be given.  In all other cases a
switch of the overhang is the end of the path, and the default handler nearest to that switch is
called, if there is one.  Dispatching the line makes this call and no other. -/
theorem executed_iff (g : Grammar ε) (built : g.tree.Built) (env : ε) (limit : Nat) (line : String)
    (base : List Value) (ctx : Context ε) (spelled trail : List (Slot ε))
    (matched : g.matchOf line { env, limit } = ⟨spelled ++ trail, ctx⟩)
    (settled : ∀ s ∈ spelled, ctx.Settles s) (overhang : g.Overhang ctx trail) (node : Nat)
    (last_eq : (Tree.root :: nodesOf spelled).getLast? = some node) (h : Handler ε)
    (bound : g.tree.handler? node .execute = some h) (plan : Plan ε)
    (planned : (g.plan (Text.trim line) { env, limit } base).1 = plan) :
    ∃ slots, ctx.Effective (spelled ++ trail) slots ∧
      (plan.call =
          some ⟨node, .execute, h, padded h.arity (base ++ argumentsOf ctx.around slots)⟩ ↔
        ∀ s ∈ trail.head?, ctx.Missing s) ∧
      ((∃ s ∈ trail.head?, ¬ ctx.Missing s) →
        ∃ last ∈ nodesOf trail, ∃ found, g.tree.Nearest .default last found ∧
          plan.call = found.map fun (node, h) => ⟨node, .default, h, base⟩) ∧
      (g.dispatch line { env, limit } base).outcome =
        (reactionTo env plan.call).outcome.map (fun _ => plan.outcome) ∧
      (g.dispatch line { env, limit } base).context.env = (reactionTo env plan.call).env := by
  have a := built.arena
  have told := dispatch_eq a env limit line base planned
  -- either nothing of the overhang is on the path, or the path ends at one of its switches
  by_cases cut : ∀ s ∈ trail.head?, ctx.Missing s
  · obtain ⟨slots, effective, nodes, sane⟩ := Context.effective_append settled
      (Context.effective_of_cut cut) (by simp [Sane])
    have decides := decides_of_effective a (by rw [matched]; exact effective) base
    rw [matched, planned] at decides
    have executed := decides.unique (.execute sane (by simpa [nodes] using last_eq) bound)
    refine ⟨_, effective, iff_of_true executed.1 cut, ?_, told⟩
    rintro ⟨s, head, kept⟩
    exact absurd (cut s head) kept
  · have kept : ∃ s ∈ trail.head?, ¬ ctx.Missing s := by simpa using cut
    obtain ⟨hidden, last, effective, sane, hidden_eq, mem⟩ := overhang.effective kept
    obtain ⟨slots, effective, nodes, sane⟩ := Context.effective_append settled effective sane
    have decides := decides_of_effective a (by rw [matched]; exact effective) base
    rw [matched, planned] at decides
    have last_eq' : (Tree.root :: nodesOf (slots ++ hidden)).getLast? = some last := by
      rw [nodesOf_append, ← List.cons_append, List.getLast?_append, hidden_eq]
      rfl
    obtain ⟨s, hs, rfl⟩ := List.mem_map.1 mem
    obtain ⟨found, nearest, call_eq⟩ :=
      decides.call_of_unbound sane last_eq' (overhang.unbound s hs)
    refine ⟨_, effective, iff_of_false ?_ cut, fun _ => ⟨_, mem, found, nearest, call_eq⟩, told⟩
    rw [call_eq]
    cases found <;> simp

end Grammar

/-! ## A handler that is hidden -/

def menuTree : Tree Nat :=
  ((Tree.empty.insert Tree.root "list").2.insert Tree.root
    "list @string(switch=page|p, default=1) all").2.bind 1 .execute counted

def menuGrammar : Grammar Nat := ⟨menuTree, .standard, {}⟩

theorem menuTree_built : menuTree.Built :=
  .bind (.insert_root (.insert_root .empty _) _) (by decide +kernel) _ _

theorem exists_ok_of_isOk {α β : Type} {x : Except α β} (h : x.isOk = true) : ∃ v, x = .ok v := by
  cases x with
  | ok v => exact ⟨v, rfl⟩
  | error _ => cases h

/-- The line `list` spells the path to the handler, all its values are accepted, and nothing is
called. -/
theorem handler_hidden :
    nodesOf (menuGrammar.matchOf "list" { env := 0 }).chain = [1, 2] ∧
      (menuTree.handler? 1 .execute).isSome = true ∧
      (menuTree.handler? 2 .execute).isNone = true ∧
      (menuGrammar.plan "list" { env := 0 } []).2.consumed.isEmpty = true ∧
      (menuGrammar.dispatch "list" { env := 0 } []).outcome = .ok .noOp ∧
      (menuGrammar.dispatch "list" { env := 0 } []).context.env = 0 := by
  decide +kernel

/-- The chain of the line `list`: the literal, which has its value, and below it the switch, which
has a default. -/
theorem menuGrammar_overhang :
    ∃ list page ctx, menuGrammar.matchOf "list" { env := 0 } = ⟨[list] ++ [page], ctx⟩ ∧
      list.node = 1 ∧ ctx.Settles list ∧ menuGrammar.Overhang ctx [page] ∧ ¬ ctx.Missing page := by
  -- what is needed of the two slots of the chain is computed at once
  obtain ⟨nodes, switches, values, absent, defaults, unused⟩ :
      nodesOf (menuGrammar.matchOf "list" { env := 0 }).chain = [1, 2] ∧
        (menuGrammar.matchOf "list" { env := 0 }).chain.map (fun s => s.isSwitch) =
          [false, true] ∧
        (menuGrammar.matchOf "list" { env := 0 }).chain.map (fun s =>
          (s.value (menuGrammar.matchOf "list" { env := 0 }).context.around).isOk) =
            [true, true] ∧
        (menuGrammar.matchOf "list" { env := 0 }).chain.map (fun s =>
          s.type.consume s.descriptor none) = [.error .requiredArgument, .ok ⟨some "1", none⟩] ∧
        (menuGrammar.matchOf "list" { env := 0 }).chain.map (fun s =>
          ((s.holding ⟨some "1", none⟩).value
            (menuGrammar.matchOf "list" { env := 0 }).context.around).isOk) = [false, true] ∧
        (menuGrammar.matchOf "list" { env := 0 }).context.consumed.isEmpty = true := by
    decide +kernel
  obtain ⟨chain, ctx, found⟩ : ∃ chain ctx,
      menuGrammar.matchOf "list" { env := 0 } = ⟨chain, ctx⟩ := ⟨_, _, rfl⟩
  rw [found] at nodes switches values absent defaults unused
  obtain ⟨list, page, rfl⟩ : ∃ list page, chain = [list, page] := by
    rw [← List.length_eq_two, ← length_nodesOf, nodes]
    rfl
  simp only [List.map_cons, List.map_nil, List.cons.injEq, and_true, nodesOf_cons,
    nodesOf_nil] at nodes switches values absent defaults
  have none : ∀ node, ctx.consumed? node = none := by
    intro node
    rw [Context.consumed?, List.isEmpty_iff.1 unused, List.find?_nil]
  have settled : ctx.Settles list := by
    obtain ⟨v, value⟩ := exists_ok_of_isOk values.1
    exact ⟨list, v, .plain (none _) switches.1, value⟩
  have overhang : menuGrammar.Overhang ctx [page] :=
    { switch := by simpa using switches.2
      unused := by simpa using none page.node
      unbound := by
        rw [List.forall_mem_singleton, nodes.2]
        decide +kernel
      accepted := by
        rw [List.forall_mem_singleton]
        intro taken consumed
        rw [absent.2] at consumed
        cases consumed
        exact exists_ok_of_isOk defaults.2 }
  have kept : ¬ ctx.Missing page := by
    rintro ⟨-, -, e, refused⟩
    rw [absent.2] at refused
    cases refused
  exact ⟨list, page, ctx, found, nodes.1, settled, overhang, kept⟩

/-- The switch below the list is the end of the path, although the line leaves it out. -/
theorem executed_iff_menu :
    menuTree.Built ∧ ∃ list page ctx,
      menuGrammar.matchOf "list" { env := 0 } = ⟨[list] ++ [page], ctx⟩ ∧ ctx.Settles list ∧
        menuGrammar.Overhang ctx [page] ∧ ¬ ctx.Missing page ∧
        ∃ plan, (menuGrammar.plan (Text.trim "list") { env := 0 } []).1 = plan ∧
          (∃ last ∈ [page.node], ∃ found, menuTree.Nearest .default last found ∧
            plan.call = found.map fun (node, h) => ⟨node, .default, h, []⟩) ∧
          (menuGrammar.dispatch "list" { env := 0 } []).context.env =
            (reactionTo 0 plan.call).env := by
  obtain ⟨list, page, ctx, found, first, settled, overhang, kept⟩ := menuGrammar_overhang
  have last_eq : (Tree.root :: nodesOf [list]).getLast? = some 1 := by
    rw [nodesOf_cons, first]
    rfl
  obtain ⟨slots, -, -, hidden, -, told⟩ := Grammar.executed_iff menuGrammar menuTree_built 0
    defaultLimit "list" [] ctx [list] [page] found (by simpa using settled) overhang 1 last_eq
    counted rfl _ rfl
  exact ⟨menuTree_built, list, page, ctx, found, settled, overhang, kept, _, rfl,
    hidden ⟨page, rfl, kept⟩, told⟩

end CommandTree
