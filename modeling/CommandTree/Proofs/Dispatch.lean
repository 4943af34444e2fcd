import CommandTree.Plan
import CommandTree.Proofs.Invariant
import CommandTree.Proofs.Resolution

/-!
# What dispatching a line does

The effective path of a line is the root followed by the chain of its match, up to the first switch
that was not given and cannot be left out (`Effective`).  What is called follows from the values on
that path and from the handlers bound at its nodes and their ancestors (`Decides`), where ancestors
are found by the links to parents (`Tree.Nearest`) and not by the path.

Results:
* `nearest_eq`: walking a path back is walking up the tree.
* `Effective.unique`, `Decides.unique`: a chain has one effective path, which calls for one thing.
* `spell_finds`: what a walk of the chain finds.
* `decides_of_effective`: the effective path of a line calls for what is planned.
* `dispatch_decides`: a dispatch calls at most one handler, the one that the effective path calls
  for, and tells what came of it.
-/
namespace CommandTree

variable {ε : Type}

/-- The handler of a kind bound at a node, or else at the nearest of its ancestors that has one. -/
inductive Tree.Nearest (t : Tree ε) (kind : HandlerKind) : Nat → Option (Nat × Handler ε) → Prop
  | here {node : Nat} {h : Handler ε} (bound : t.handler? node kind = some h) :
      Nearest t kind node (some (node, h))
  | up {node parent : Nat} {found : Option (Nat × Handler ε)}
      (unbound : t.handler? node kind = none) (link : t.parent node = some parent)
      (above : Nearest t kind parent found) : Nearest t kind node found
  | none {node : Nat} (unbound : t.handler? node kind = none) (top : t.parent node = none) :
      Nearest t kind node none

theorem Tree.Nearest.unique {t : Tree ε} {kind : HandlerKind} {node : Nat}
    {found found' : Option (Nat × Handler ε)} (h : t.Nearest kind node found)
    (h' : t.Nearest kind node found') : found = found' := by
  induction h with
  | here bound => cases h' <;> simp_all
  | up unbound link _ ih =>
    cases h' with
    | here bound => simp [unbound] at bound
    | up _ link' above' =>
      rw [link] at link'
      cases link'
      exact ih above'
    | none _ top => simp [link] at top
  | none unbound top => cases h' <;> simp_all

namespace Context

/-! ## The effective path -/

/-- The slot that counts for a slot of a chain: the used switch of its node, or the slot itself,
which takes what an absent token becomes if it is a switch. -/
inductive Counts (ctx : Context ε) (slot : Slot ε) : Slot ε → Prop
  | used {s : Slot ε} (used : ctx.consumed? slot.node = some s) : Counts ctx slot s
  | plain (unused : ctx.consumed? slot.node = none) (plain : slot.isSwitch = false) :
      Counts ctx slot slot
  | absent {taken : Consumed} (unused : ctx.consumed? slot.node = none)
      (switch : slot.isSwitch = true)
      (consumed : slot.type.consume slot.descriptor none = .ok taken) :
      Counts ctx slot (slot.holding taken)

/-- A switch that was not given and cannot be left out. -/
structure Missing (ctx : Context ε) (slot : Slot ε) : Prop where
  unused : ctx.consumed? slot.node = none
  switch : slot.isSwitch = true
  refused : ∃ e, slot.type.consume slot.descriptor none = .error e

theorem Counts.node_eq {ctx : Context ε} {slot s : Slot ε} (h : ctx.Counts slot s) :
    s.node = slot.node := by
  cases h with
  | used used => exact beq_iff_eq.1 (List.find?_some used :)
  | plain _ _ => rfl
  | absent _ _ _ => rfl

/-- The slots that count on a chain, cut before its first missing switch. -/
inductive Effective (ctx : Context ε) : List (Slot ε) → List (Slot ε) → Prop
  | nil : Effective ctx [] []
  | cut {slot : Slot ε} {chain : List (Slot ε)} (missing : ctx.Missing slot) :
      Effective ctx (slot :: chain) []
  | cons {slot s : Slot ε} {chain slots : List (Slot ε)} (counts : ctx.Counts slot s)
      (rest : Effective ctx chain slots) : Effective ctx (slot :: chain) (s :: slots)

theorem Effective.isPrefix {ctx : Context ε} {chain slots : List (Slot ε)}
    (h : ctx.Effective chain slots) : nodesOf slots <+: nodesOf chain := by
  induction h with
  | nil => exact List.nil_prefix
  | cut _ => exact List.nil_prefix
  | cons counts _ ih =>
    rw [nodesOf_cons, nodesOf_cons, counts.node_eq, List.prefix_cons_inj]
    exact ih

theorem Counts.unique {ctx : Context ε} {slot s s' : Slot ε} (h : ctx.Counts slot s)
    (h' : ctx.Counts slot s') : s = s' := by
  cases h <;> cases h' <;> simp_all

theorem counts_iff_of_used {ctx : Context ε} {slot used : Slot ε}
    (h : ctx.consumed? slot.node = some used) {s : Slot ε} : ctx.Counts slot s ↔ s = used := by
  constructor
  · intro counts
    exact counts.unique (.used h)
  · rintro rfl
    exact .used h

theorem counts_iff_of_unused {ctx : Context ε} {slot : Slot ε}
    (unused : ctx.consumed? slot.node = none) (switch : slot.isSwitch = true) {s : Slot ε} :
    ctx.Counts slot s ↔
      ∃ taken, slot.type.consume slot.descriptor none = .ok taken ∧ s = slot.holding taken := by
  constructor
  · rintro (used | ⟨-, plain⟩ | ⟨-, -, consumed⟩)
    · simp [unused] at used
    · simp [switch] at plain
    · exact ⟨_, consumed, rfl⟩
  · rintro ⟨taken, consumed, rfl⟩
    exact .absent unused switch consumed

theorem Counts.not_missing {ctx : Context ε} {slot s : Slot ε} (h : ctx.Counts slot s) :
    ¬ ctx.Missing slot := by
  rintro ⟨unused, switch, e, refused⟩
  cases h <;> simp_all

theorem Effective.counts {ctx : Context ε} {chain slots : List (Slot ε)}
    (h : ctx.Effective chain slots) {s : Slot ε} (hs : s ∈ slots) :
    ∃ slot ∈ chain, ctx.Counts slot s := by
  induction h with
  | nil => cases hs
  | cut _ => cases hs
  | cons counts _ ih =>
    rcases List.mem_cons.1 hs with rfl | hs
    · exact ⟨_, List.mem_cons_self, counts⟩
    · obtain ⟨slot, mem, counts⟩ := ih hs
      exact ⟨slot, List.mem_cons_of_mem _ mem, counts⟩

theorem Effective.unique {ctx : Context ε} {chain slots slots' : List (Slot ε)}
    (h : ctx.Effective chain slots) (h' : ctx.Effective chain slots') : slots = slots' := by
  induction h generalizing slots' with
  | nil => cases h'; rfl
  | cut missing =>
    cases h' with
    | cut _ => rfl
    | cons counts _ => exact absurd missing counts.not_missing
  | cons counts _ ih =>
    cases h' with
    | cut missing => exact absurd missing counts.not_missing
    | cons counts' rest => rw [counts.unique counts', ih rest]

end Context

theorem Slot.parse_type (s : Slot ε) (line : Option String) : (s.parse line).1.type = s.type := by
  rw [Slot.parse]
  cases s.type.consume s.descriptor line <;> rfl

/-- The slot that counts for another is read by the type of that slot or of a used switch. -/
theorem Context.settle_type {P : ArgumentType ε → Prop} {ctx : Context ε}
    (used : ∀ s ∈ ctx.consumed, P s.type) {slot t : Slot ε} (type : P slot.type)
    (h : ctx.settle slot = some t) : P t.type := by
  have counted : P ((ctx.consumed? slot.node).getD slot).type := by
    cases found : ctx.consumed? slot.node with
    | none => exact type
    | some s => exact used s (List.mem_of_find?_eq_some found)
  simp only [Context.settle] at h
  generalize (ctx.consumed? slot.node).getD slot = s at h counted
  have same := s.parse_type none
  split at h
  · cases h
    exact counted
  · generalize s.parse none = taken at h same
    obtain ⟨u, answer⟩ := taken
    cases answer with
    | ok _ =>
      cases h
      exact same ▸ counted
    | error _ => cases h

/-! ## What a path calls for -/

structure Call (ε : Type) where
  node : Nat
  kind : HandlerKind
  handler : Handler ε
  args : List Value

def Plan.call : Plan ε → Option (Call ε)
  | .run node kind handler args => some ⟨node, kind, handler, args⟩
  | .report _ | .warn _ | .idle => none

/-- What a plan comes to if its call ends well. -/
def Plan.outcome : Plan ε → Outcome
  | .run _ kind _ _ => kind.outcome
  | .report message => .unhandled message
  | .warn _ | .idle => .noOp

/-- The reaction of the handler that is called, if one is. -/
def reactionTo (env : ε) : Option (Call ε) → Reaction ε
  | some call => call.handler.run env ⟨call.args⟩
  | none => { env }

/-- Every slot has a value. -/
def Sane (around : Surroundings ε) (slots : List (Slot ε)) : Prop :=
  ∀ s ∈ slots, ∃ v, s.value around = .ok v

theorem Sane.cons {around : Surroundings ε} {slots : List (Slot ε)} {s : Slot ε} {v : Value}
    (h : Sane around slots) (value : s.value around = .ok v) : Sane around (s :: slots) := by
  intro t ht
  rcases List.mem_cons.1 ht with rfl | ht
  · exact ⟨v, value⟩
  · exact h t ht

/-- The first slot that has no value, and why. -/
def Fault (around : Surroundings ε) (slots : List (Slot ε)) (s : Slot ε) (e : ParseError) : Prop :=
  ∃ before after, slots = before ++ s :: after ∧ Sane around before ∧ s.value around = .error e

theorem Sane.find?_eq {around : Surroundings ε} {slots : List (Slot ε)} (h : Sane around slots) :
    slots.find? (fun s => !(s.value around).isOk) = none := by
  rw [List.find?_eq_none]
  intro s hs
  obtain ⟨v, hv⟩ := h s hs
  simp [hv, Except.isOk, Except.toBool]

theorem Fault.find?_eq {around : Surroundings ε} {slots : List (Slot ε)} {s : Slot ε}
    {e : ParseError} (h : Fault around slots s e) :
    slots.find? (fun s => !(s.value around).isOk) = some s := by
  obtain ⟨before, after, rfl, sane, fault⟩ := h
  rw [List.find?_append, sane.find?_eq, Option.none_or, List.find?_cons_of_pos]
  simp [fault, Except.isOk, Except.toBool]

theorem Fault.not_sane {around : Surroundings ε} {slots : List (Slot ε)} {s : Slot ε}
    {e : ParseError} (h : Fault around slots s e) : ¬ Sane around slots := by
  intro sane
  simpa [sane.find?_eq] using h.find?_eq

theorem Fault.unique {around : Surroundings ε} {slots : List (Slot ε)} {s s' : Slot ε}
    {e e' : ParseError} (h : Fault around slots s e) (h' : Fault around slots s' e') :
    s = s' ∧ e = e' := by
  have hs : s = s' := Option.some.inj (h.find?_eq.symm.trans h'.find?_eq)
  obtain ⟨_, _, -, -, fault⟩ := h
  obtain ⟨_, _, -, -, fault'⟩ := h'
  rw [hs, fault'] at fault
  exact ⟨hs, (Except.error.inj fault).symm⟩

/-- The values that a handler is given: those of the slots that are not suppressed. -/
def argumentsOf (around : Surroundings ε) (slots : List (Slot ε)) : List Value :=
  slots.filterMap fun s => if s.isSuppressed then none else (s.value around).toOption

theorem argumentsOf_cons {around : Surroundings ε} {s : Slot ε} {v : Value}
    (value : s.value around = .ok v) (slots : List (Slot ε)) :
    argumentsOf around (s :: slots) =
      if s.isSuppressed then argumentsOf around slots else v :: argumentsOf around slots := by
  simp only [argumentsOf, List.filterMap_cons, value]
  cases s.isSuppressed <;> rfl

theorem argumentsOf_forall₂ {around : Surroundings ε} {slots : List (Slot ε)}
    (sane : Sane around slots) :
    List.Forall₂ (fun s v => s.value around = .ok v) (slots.filter fun s => !s.isSuppressed)
      (argumentsOf around slots) := by
  induction slots with
  | nil => exact .nil
  | cons s slots ih =>
    obtain ⟨v, value⟩ := sane s List.mem_cons_self
    have rest := ih fun t ht => sane t (List.mem_cons_of_mem _ ht)
    rw [argumentsOf_cons value, List.filter_cons]
    cases s.isSuppressed with
    | true => exact rest
    | false => exact .cons value rest

/-- What the slots of an effective path call for: at most one handler, and the outcome if it ends
well. -/
inductive Grammar.Decides (g : Grammar ε) (around : Surroundings ε) (base : List Value)
    (slots : List (Slot ε)) : Option (Call ε) → Outcome → Prop
  | execute {last : Nat} {h : Handler ε} (sane : Sane around slots)
      (last_eq : (Tree.root :: nodesOf slots).getLast? = some last)
      (bound : g.tree.handler? last .execute = some h) :
      Decides g around base slots
        (some ⟨last, .execute, h, padded h.arity (base ++ argumentsOf around slots)⟩) .execute
  | default {last node : Nat} {h : Handler ε} (sane : Sane around slots)
      (last_eq : (Tree.root :: nodesOf slots).getLast? = some last)
      (unbound : g.tree.handler? last .execute = none)
      (nearest : g.tree.Nearest .default last (some (node, h))) :
      Decides g around base slots (some ⟨node, .default, h, base⟩) .default
  | idle {last : Nat} (sane : Sane around slots)
      (last_eq : (Tree.root :: nodesOf slots).getLast? = some last)
      (unbound : g.tree.handler? last .execute = none)
      (nearest : g.tree.Nearest .default last none) : Decides g around base slots none .noOp
  | error {s : Slot ε} {message : String} {node : Nat} {h : Handler ε}
      (fault : Fault around slots s (.invalid message))
      (nearest : g.tree.Nearest .error s.node (some (node, h))) :
      Decides g around base slots (some ⟨node, .error, h, base ++ [.text message]⟩) .error
  | unhandled {s : Slot ε} {message : String} (fault : Fault around slots s (.invalid message))
      (nearest : g.tree.Nearest .error s.node none)
      (reported : g.settings.reportUnhandledErrors = true) :
      Decides g around base slots none (.unhandled message)
  | dropped {s : Slot ε} {message : String} (fault : Fault around slots s (.invalid message))
      (nearest : g.tree.Nearest .error s.node none)
      (silent : g.settings.reportUnhandledErrors = false) : Decides g around base slots none .noOp
  | missing {s : Slot ε} {e : ParseError} (fault : Fault around slots s e)
      (other : ∀ message, e ≠ .invalid message) : Decides g around base slots none .noOp

theorem Grammar.Decides.unique {g : Grammar ε} {around : Surroundings ε} {base : List Value}
    {slots : List (Slot ε)} {call call' : Option (Call ε)} {outcome outcome' : Outcome}
    (h : g.Decides around base slots call outcome)
    (h' : g.Decides around base slots call' outcome') : call = call' ∧ outcome = outcome' := by
  -- a path is sane or has one first fault, and each kind has one nearest handler
  cases h <;> cases h' <;> grind [Fault.unique, Fault.not_sane, Tree.Nearest.unique]

/-! ## Walking a path back -/

namespace Grammar

variable {g : Grammar ε}

/-- Below a node whose nearest handler is known, the nearest one is the last bound on the way. -/
theorem nearest_below (a : g.tree.Arena) {kind : HandlerKind} {node : Nat} {nodes : List Nat}
    {above : Option (Nat × Handler ε)} (known : g.tree.Nearest kind node above)
    (path : List.IsChain (fun p c => c ∈ g.tree.children p) (node :: nodes)) {last : Nat}
    (hlast : (node :: nodes).getLast? = some last) :
    g.tree.Nearest kind last
      ((nodes.reverse.findSome? fun n => (g.tree.handler? n kind).map (n, ·)).or above) := by
  induction nodes generalizing node above with
  | nil =>
    cases hlast
    exact known
  | cons c nodes ih =>
    obtain ⟨hc, path⟩ := List.isChain_cons_cons.1 path
    rw [List.getLast?_cons_cons] at hlast
    have first : g.tree.Nearest kind c (((g.tree.handler? c kind).map (c, ·)).or above) := by
      cases hb : g.tree.handler? c kind with
      | some h => exact .here hb
      | none => exact .up hb ((a.mem_children_iff node c).1 hc) known
    have h := ih first path hlast
    rw [List.reverse_cons, List.findSome?_append, List.findSome?_singleton, Option.or_assoc]
    exact h

/-- Walking a path back finds the nearest handler up the tree. -/
theorem nearest_eq (a : g.tree.Arena) (kind : HandlerKind) {nodes : List Nat}
    (path : List.IsChain (fun p c => c ∈ g.tree.children p) (Tree.root :: nodes)) {last : Nat}
    (hlast : (Tree.root :: nodes).getLast? = some last) :
    g.tree.Nearest kind last (g.nearest (Tree.root :: nodes) kind) := by
  have root : g.tree.Nearest kind Tree.root
      ((g.tree.handler? Tree.root kind).map (Tree.root, ·)) := by
    cases hb : g.tree.handler? Tree.root kind with
    | some h => exact .here hb
    | none => exact .none hb a.parent_root
  have h := nearest_below a root path hlast
  rw [nearest, List.reverse_cons, List.findSome?_append, List.findSome?_singleton]
  exact h

theorem nearest_of_split (a : g.tree.Arena) (kind : HandlerKind)
    {slots before after : List (Slot ε)} {s : Slot ε} (split : slots = before ++ s :: after)
    (path : List.IsChain (fun p c => c ∈ g.tree.children p) (Tree.root :: nodesOf slots)) :
    g.tree.Nearest kind s.node (g.nearest (Tree.root :: (nodesOf before ++ [s.node])) kind) := by
  have front : Tree.root :: (nodesOf before ++ [s.node]) <+: Tree.root :: nodesOf slots := by
    rw [split, nodesOf_append, nodesOf_cons, List.prefix_cons_inj, List.prefix_append_right_inj]
    exact ⟨nodesOf after, rfl⟩
  have descends : List.IsChain (fun p c => c ∈ g.tree.children p)
      (Tree.root :: (nodesOf before ++ [s.node])) :=
    List.IsChain.prefix path front
  exact nearest_eq a kind descends (by rw [← List.cons_append, List.getLast?_concat])

/-! ## Walking the chain -/

theorem slot?_parsed {node : Nat} {s : Slot ε} (here : g.slot? node = some s) :
    s.parsed = false := by
  obtain ⟨d, -, rfl⟩ := Option.map_eq_some_iff.1 here
  rfl

theorem Placed.settle {ctx : Context ε} {slot : Slot ε} (sound : g.Sound ctx)
    (placed : g.Placed slot) :
    (∃ s, ctx.settle slot = some s ∧ ctx.Counts slot s) ∨
      ctx.settle slot = none ∧ ctx.Missing slot := by
  cases hc : ctx.consumed? slot.node with
  | some s =>
    have parsed : s.parsed = true := (sound.used s (List.mem_of_find?_eq_some hc)).1
    exact .inl ⟨s, by simp [Context.settle, hc, parsed], .used hc⟩
  | none =>
    cases placed with
    | plain _ _ plain parsed =>
      exact .inl ⟨slot, by simp [Context.settle, hc, parsed], .plain hc plain⟩
    | switch here switch =>
      have parsed := slot?_parsed here
      cases ha : slot.type.consume slot.descriptor none with
      | ok taken =>
        refine .inl ⟨slot.holding taken, ?_, .absent hc switch ha⟩
        simp [Context.settle, hc, parsed, Slot.parse_ok ha]
      | error e =>
        refine .inr ⟨?_, hc, switch, e, ha⟩
        simp [Context.settle, hc, parsed, Slot.parse_error ha]

/-- What a walk of the chain finds: all values of an effective path that has them, or the first
fault, where it stops. -/
inductive Finds (around : Surroundings ε) (slots : List (Slot ε)) : Spelled → Prop
  | sane (sane : Sane around slots) :
      Finds around slots ⟨nodesOf slots, argumentsOf around slots, none⟩
  | fault {before after : List (Slot ε)} {s : Slot ε} {e : ParseError} {values : List Value}
      (split : slots = before ++ s :: after) (sane : Sane around before)
      (fault : s.value around = .error e) :
      Finds around slots ⟨nodesOf before ++ [s.node], values, some (s.descriptor, e)⟩

theorem Finds.cons {around : Surroundings ε} {slots : List (Slot ε)} {tail : Spelled} {s : Slot ε}
    {v : Value} (h : Finds around slots tail) (value : s.value around = .ok v) :
    Finds around (s :: slots)
      { tail with
        path := s.node :: tail.path
        values := if s.isSuppressed then tail.values else v :: tail.values } := by
  cases h with
  | sane sane =>
    have h := Finds.sane (sane.cons value)
    rw [argumentsOf_cons value] at h
    exact h
  | fault split sane fault =>
    subst split
    exact .fault (List.cons_append).symm (sane.cons value) fault

theorem Finds.eq_of_sane {around : Surroundings ε} {slots : List (Slot ε)} {spelled : Spelled}
    (h : Finds around slots spelled) (sane : Sane around slots) :
    spelled = ⟨nodesOf slots, argumentsOf around slots, none⟩ := by
  cases h with
  | sane _ => rfl
  | fault split before fault => exact absurd sane (Fault.not_sane ⟨_, _, split, before, fault⟩)

/-- A walk of the chain walks its effective path. -/
theorem spell_finds {ctx : Context ε} (sound : g.Sound ctx) {chain : List (Slot ε)}
    (placed : ∀ s ∈ chain, g.Placed s) :
    ∃ slots, ctx.Effective chain slots ∧ Finds ctx.around slots (ctx.spell chain) := by
  induction chain with
  | nil => exact ⟨[], .nil, .sane (by simp [Sane])⟩
  | cons slot chain ih =>
    rw [List.forall_mem_cons] at placed
    obtain ⟨slots, effective, finds⟩ := ih placed.2
    rcases placed.1.settle sound with ⟨s, hs, counts⟩ | ⟨hs, missing⟩
    · refine ⟨s :: slots, .cons counts effective, ?_⟩
      cases hv : s.value ctx.around with
      | error e =>
        rw [Context.spell]
        simp only [hs, hv]
        exact .fault (List.nil_append (s :: slots)).symm (by simp [Sane]) hv
      | ok v =>
        rw [Context.spell]
        simp only [hs, hv]
        generalize ctx.spell chain = tail at finds ⊢
        exact finds.cons hv
    · refine ⟨[], .cut missing, ?_⟩
      rw [Context.spell]
      simp only [hs]
      exact .sane (by simp [Sane])

/-! ## Carrying a plan out -/

/-- The match that a dispatch acts on. -/
def matchOf (g : Grammar ε) (line : String) (ctx : Context ε) : Match ε :=
  g.resolve Tree.root (if Text.trim line = "" then none else some (Text.trim line)) ctx

theorem getLastD_eq {path : List Nat} {last : Nat} (last_eq : path.getLast? = some last) :
    path.getLastD Tree.root = last := by
  rw [List.getLastD_eq_getLast?, last_eq]
  rfl

theorem planEnd_of_bound {path : List Nat} {last : Nat} {h : Handler ε}
    (last_eq : path.getLast? = some last) (bound : g.tree.handler? last .execute = some h)
    (base values : List Value) :
    g.planEnd path base values = .run last .execute h (padded h.arity (base ++ values)) := by
  rw [planEnd, getLastD_eq last_eq]
  simp only [bound]

theorem planEnd_decides (a : g.tree.Arena) {around : Surroundings ε} {slots : List (Slot ε)}
    (sane : Sane around slots)
    (path : List.IsChain (fun p c => c ∈ g.tree.children p) (Tree.root :: nodesOf slots))
    (base : List Value) :
    g.Decides around base slots
      (g.planEnd (Tree.root :: nodesOf slots) base (argumentsOf around slots)).call
      (g.planEnd (Tree.root :: nodesOf slots) base (argumentsOf around slots)).outcome := by
  obtain ⟨last, last_eq⟩ : ∃ last, (Tree.root :: nodesOf slots).getLast? = some last :=
    ⟨_, List.getLast?_eq_some_getLast (List.cons_ne_nil _ _)⟩
  have nearest := nearest_eq a .default path last_eq
  cases bound : g.tree.handler? last .execute with
  | some h =>
    rw [planEnd_of_bound last_eq bound]
    exact .execute sane last_eq bound
  | none =>
    rw [planEnd, getLastD_eq last_eq]
    simp only [bound]
    cases hn : g.nearest (Tree.root :: nodesOf slots) .default with
    | some found =>
      rw [hn] at nearest
      exact .default sane last_eq bound nearest
    | none =>
      rw [hn] at nearest
      exact .idle sane last_eq bound nearest

theorem planRefused_decides (a : g.tree.Arena) {around : Surroundings ε} {slots : List (Slot ε)}
    {before after : List (Slot ε)} {s : Slot ε} {message : String}
    (split : slots = before ++ s :: after) (sane : Sane around before)
    (fault : s.value around = .error (.invalid message))
    (path : List.IsChain (fun p c => c ∈ g.tree.children p) (Tree.root :: nodesOf slots))
    (base : List Value) :
    g.Decides around base slots
      (g.planRefused (Tree.root :: (nodesOf before ++ [s.node])) base message).call
      (g.planRefused (Tree.root :: (nodesOf before ++ [s.node])) base message).outcome := by
  have fault : Fault around slots s (.invalid message) := ⟨before, after, split, sane, fault⟩
  have nearest := nearest_of_split a .error split path
  rw [planRefused]
  cases hn : g.nearest (Tree.root :: (nodesOf before ++ [s.node])) .error with
  | some found =>
    rw [hn] at nearest
    exact .error fault nearest
  | none =>
    rw [hn] at nearest
    cases hr : g.settings.reportUnhandledErrors with
    | true => exact .unhandled fault nearest hr
    | false => exact .dropped fault nearest hr

/-- What a walk of an effective path finds calls for what is planned. -/
theorem plan_decides (a : g.tree.Arena) {line : String} {ctx : Context ε} {slots : List (Slot ε)}
    (path : List.IsChain (fun p c => c ∈ g.tree.children p) (Tree.root :: nodesOf slots))
    (finds : Finds (g.matchOf line ctx).context.around slots
      ((g.matchOf line ctx).context.spell (g.matchOf line ctx).chain)) (base : List Value) :
    g.Decides (g.matchOf line ctx).context.around base slots
      (g.plan (Text.trim line) ctx base).1.call (g.plan (Text.trim line) ctx base).1.outcome := by
  have found : g.resolve Tree.root
      (if Text.trim line = "" then none else some (Text.trim line)) ctx = g.matchOf line ctx := rfl
  simp only [plan, found]
  generalize (g.matchOf line ctx).context.spell (g.matchOf line ctx).chain = spelled at finds ⊢
  cases finds with
  | sane sane => exact planEnd_decides a sane path base
  | @fault before after s e _ split sane fault =>
    cases e with
    | invalid message => exact planRefused_decides a split sane fault path base
    | requiredArgument => exact .missing ⟨_, _, split, sane, fault⟩ (by simp)
    | noResult => exact .missing ⟨_, _, split, sane, fault⟩ (by simp)

theorem matchOf_derives (a : g.tree.Arena) (line : String) (ctx : Context ε) :
    g.Derives Tree.root (if Text.trim line = "" then none else some (Text.trim line)) ctx
      (g.matchOf line ctx).chain (g.matchOf line ctx).context :=
  resolve_derives a _ ctx

theorem isChain_of_effective (a : g.tree.Arena) {line : String} {ctx : Context ε}
    {slots : List (Slot ε)}
    (effective : (g.matchOf line ctx).context.Effective (g.matchOf line ctx).chain slots) :
    List.IsChain (fun p c => c ∈ g.tree.children p) (Tree.root :: nodesOf slots) :=
  List.IsChain.prefix (matchOf_derives a line ctx).isChain
    ((List.prefix_cons_inj _).2 effective.isPrefix)

/-- Every line has an effective path, which is what the walk of its chain walks. -/
theorem effective_matchOf (a : g.tree.Arena) (env : ε) (limit : Nat) (line : String) :
    ∃ slots, (g.matchOf line { env, limit }).context.Effective
        (g.matchOf line { env, limit }).chain slots ∧
      Finds (g.matchOf line { env, limit }).context.around slots
        ((g.matchOf line { env, limit }).context.spell (g.matchOf line { env, limit }).chain) := by
  have derives := matchOf_derives a line { env, limit }
  exact spell_finds ((sound_keeps g).derives (sound_fresh g env limit) derives) derives.placed

/-- The effective path of a line calls for what is planned. -/
theorem decides_of_effective (a : g.tree.Arena) {env : ε} {limit : Nat} {line : String}
    {slots : List (Slot ε)}
    (effective : (g.matchOf line { env, limit }).context.Effective
      (g.matchOf line { env, limit }).chain slots) (base : List Value) :
    g.Decides (g.matchOf line { env, limit }).context.around base slots
      (g.plan (Text.trim line) { env, limit } base).1.call
      (g.plan (Text.trim line) { env, limit } base).1.outcome := by
  obtain ⟨slots', effective', finds⟩ := effective_matchOf a env limit line
  obtain rfl := effective.unique effective'
  exact plan_decides a (isChain_of_effective a effective) finds base

theorem perform_eq (ctx : Context ε) (plan : Plan ε) :
    (perform ctx plan).outcome =
        (reactionTo ctx.env plan.call).outcome.map (fun _ => plan.outcome) ∧
      (perform ctx plan).context.env = (reactionTo ctx.env plan.call).env := by
  cases plan <;> exact ⟨rfl, rfl⟩

/-- A dispatch makes the call that is planned and tells what came of it. -/
theorem dispatch_eq (a : g.tree.Arena) (env : ε) (limit : Nat) (line : String)
    (base : List Value) {plan : Plan ε}
    (planned : (g.plan (Text.trim line) { env, limit } base).1 = plan) :
    (g.dispatch line { env, limit } base).outcome =
        (reactionTo env plan.call).outcome.map (fun _ => plan.outcome) ∧
      (g.dispatch line { env, limit } base).context.env = (reactionTo env plan.call).env := by
  have unchanged : (g.matchOf line { env, limit }).context.env = env :=
    (env_keeps g env).derives rfl (resolve_derives a _ { env, limit })
  have performed := perform_eq (g.matchOf line { env, limit }).context plan
  rw [unchanged] at performed
  rw [← planned] at performed ⊢
  exact performed

/-- **A dispatch calls at most one handler, the right one, and tells what came of it**: there are
the effective path of the line, the call that it calls for, if any, and the outcome that goes with
it; the handler's error is told if it has one, and the host's environment is left as the call, if
any, leaves it. -/
theorem dispatch_decides (g : Grammar ε) (built : g.tree.Built) (env : ε) (limit : Nat)
    (line : String) (base : List Value) :
    ∃ slots call outcome,
      (g.matchOf line { env, limit }).context.Effective
          (g.matchOf line { env, limit }).chain slots ∧
        g.Decides (g.matchOf line { env, limit }).context.around base slots call outcome ∧
        (g.dispatch line { env, limit } base).outcome =
          (reactionTo env call).outcome.map (fun _ => outcome) ∧
        (g.dispatch line { env, limit } base).context.env = (reactionTo env call).env := by
  have a := built.arena
  have derives : g.Derives Tree.root _ _ (g.matchOf line { env, limit }).chain
      (g.matchOf line { env, limit }).context := resolve_derives a _ _
  have sound := (sound_keeps g).derives (sound_fresh g env limit) derives
  obtain ⟨slots, effective, finds⟩ := spell_finds sound derives.placed
  have path : List.IsChain (fun p c => c ∈ g.tree.children p) (Tree.root :: nodesOf slots) :=
    List.IsChain.prefix derives.isChain ((List.prefix_cons_inj _).2 effective.isPrefix)
  exact ⟨slots, _, _, effective, plan_decides a path finds base,
    dispatch_eq a env limit line base rfl⟩

end Grammar

/-- A handler that counts how often it is called. -/
def counted : Handler Nat := ⟨0, fun calls _ => { env := calls + 1 }⟩

/-- A literal that handles errors, and below it a bounded number that is executed. -/
def strictTree : Tree Nat :=
  ((Tree.empty.insert Tree.root "give @int(max=5)").2.bind 1 .error counted).bind 2 .execute counted

def strictGrammar : Grammar Nat := ⟨strictTree, .standard, {}⟩

theorem strictTree_built : strictTree.Built :=
  .bind (.bind (.insert_root .empty _) (by decide +kernel) _ _) (by decide +kernel) _ _

/-- The line `give 9` breaks the bound, and calls the error handler above the number once. -/
theorem dispatch_decides_strict :
    strictTree.Built ∧ ∃ slots call,
      (strictGrammar.matchOf "give 9" { env := 0 }).context.Effective
          (strictGrammar.matchOf "give 9" { env := 0 }).chain slots ∧
        strictGrammar.Decides (strictGrammar.matchOf "give 9" { env := 0 }).context.around [] slots
          (some call) .error ∧
        (strictGrammar.dispatch "give 9" { env := 0 } []).context.env = 1 := by
  obtain ⟨slots, call, outcome, effective, decides, told, -⟩ :=
    Grammar.dispatch_decides strictGrammar strictTree_built 0 defaultLimit "give 9" []
  have error : (strictGrammar.dispatch "give 9" { env := 0 } []).outcome = .ok .error := by
    decide +kernel
  have once : (strictGrammar.dispatch "give 9" { env := 0 } []).context.env = 1 := by
    decide +kernel
  rw [error] at told
  obtain rfl : outcome = .error := by
    cases hr : (reactionTo 0 call).outcome with
    | ok _ => rw [hr] at told; exact (Except.ok.inj told).symm
    | error _ => rw [hr] at told; cases told
  cases decides with
  | error fault nearest => exact ⟨strictTree_built, slots, _, effective, .error fault nearest, once⟩

end CommandTree
