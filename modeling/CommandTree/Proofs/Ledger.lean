import CommandTree.Proofs.Invariant
import CommandTree.Proofs.PositionalDepth
import Mathlib.Data.List.Nodup

/-!
# What a path takes off its line

A path takes its line apart into pieces: tokens, each in the place of its node, and `-flag value`
pairs (`Piece`).  Every piece begins where the one before it ends (`Laid`).

The ledger of a path says where the pieces go.  A switch that is passed begins to wait; a pair takes
a switch off the waiting ones and puts it among the used ones; a token fills a slot of the chain,
and nothing else does.  A switch that refuses the value behind its flag is dropped: it waits no
longer and has not been used.  The ledgers of two stretches of a path add up (`Ledger.trans`), so
the ledger of a path is that of its steps.

Results:
* `Derives.ledger`: every path has a ledger and comes to an end.
* `Derives.nodup`: a path meets no node twice.
* `Ledger.distinct`, `Ledger.consumed?_eq_some_iff`, `Ledger.consumed?_eq_none_iff`: of a path that
  begins in an empty context, each used switch has taken the value of one pair, and no other has.
-/
namespace CommandTree

variable {ε : Type}

/-! ## Pieces -/

/-- What a slot has taken off a line. -/
inductive Piece (ε : Type)
  /-- The token of a node in its place, and what the node's type saw when it was read. -/
  | token (slot : Slot ε) (line : Option String) (taken : Consumed) (around : Surroundings ε)
  /-- The value behind a flag. -/
  | pair (slot : Slot ε) (flag value : String) (taken : Consumed)

namespace Piece

/-- The slot of the chain that a token fills. -/
def placed? : Piece ε → Option (Slot ε)
  | .token slot _ taken around => some ((slot.holding taken).valued around)
  | .pair _ _ _ _ => none

/-- The waiting switch that a pair is for. -/
def asked? : Piece ε → Option (Slot ε)
  | .token _ _ _ _ => none
  | .pair slot _ _ _ => some slot

/-- The switch that a pair leaves among the used ones. -/
def used? : Piece ε → Option (Slot ε)
  | .token _ _ _ _ => none
  | .pair slot _ _ taken => some (slot.holding taken)

/-- The slot has taken it: a token where it stands, or the value behind one of its flags. -/
def Taken : Piece ε → Prop
  | .token slot line taken _ => slot.type.consume slot.descriptor line = .ok taken
  | .pair slot flag value taken =>
    flag ∈ slot.descriptor.flags ∧ slot.type.consume slot.descriptor (some value) = .ok taken

theorem used?_eq_some_iff {p : Piece ε} {s : Slot ε} :
    p.used? = some s ↔
      ∃ slot flag value taken, p = .pair slot flag value taken ∧ s = slot.holding taken := by
  cases p with
  | token _ _ _ _ => simp [used?]
  | pair slot flag value taken =>
    constructor
    · intro h
      exact ⟨slot, flag, value, taken, rfl, (Option.some.inj h).symm⟩
    · rintro ⟨_, _, _, _, ⟨⟩, rfl⟩
      rfl

theorem placed?_eq_some_iff {p : Piece ε} {s : Slot ε} :
    p.placed? = some s ↔ ∃ slot line taken around,
      p = .token slot line taken around ∧ s = (slot.holding taken).valued around := by
  cases p with
  | pair _ _ _ _ => simp [placed?]
  | token slot line taken around =>
    constructor
    · intro h
      exact ⟨slot, line, taken, around, rfl, (Option.some.inj h).symm⟩
    · rintro ⟨_, _, _, _, ⟨⟩, rfl⟩
      rfl

theorem nodesOf_used (pieces : List (Piece ε)) :
    nodesOf (pieces.filterMap used?) = nodesOf (pieces.filterMap asked?) := by
  induction pieces with
  | nil => rfl
  | cons p pieces ih =>
    cases p with
    | token _ _ _ _ => exact ih
    | pair slot _ _ taken => exact congrArg (slot.node :: ·) ih

end Piece

/-- Pieces that stand on a line one behind the other, and what follows the last. -/
inductive Laid : Option String → List (Piece ε) → Option String → Prop
  | nil {line : Option String} : Laid line [] line
  | token {slot : Slot ε} {line rest : Option String} {taken : Consumed}
      {around : Surroundings ε} {pieces : List (Piece ε)} (undashed : ¬ Dashed line)
      (consumed : slot.type.consume slot.descriptor line = .ok taken)
      (behind : Laid taken.rest pieces rest) :
      Laid line (.token slot line taken around :: pieces) rest
  | pair {slot : Slot ε} {flag value : String} {rest : Option String} {taken : Consumed}
      {pieces : List (Piece ε)} (word : ' ' ∉ flag.toList) (known : flag ∈ slot.descriptor.flags)
      (consumed : slot.type.consume slot.descriptor (some value) = .ok taken)
      (behind : Laid taken.rest pieces rest) :
      Laid (some ("-" ++ (flag ++ " " ++ value))) (.pair slot flag value taken :: pieces) rest

theorem Laid.append {line line' rest : Option String} {pieces pieces' : List (Piece ε)}
    (h : Laid line pieces line') (h' : Laid line' pieces' rest) :
    Laid line (pieces ++ pieces') rest := by
  induction h with
  | nil => exact h'
  | token undashed consumed _ ih => exact .token undashed consumed (ih h')
  | pair word known consumed _ ih => exact .pair word known consumed (ih h')

theorem Laid.taken {line rest : Option String} {pieces : List (Piece ε)}
    (h : Laid line pieces rest) : ∀ p ∈ pieces, p.Taken := by
  induction h with
  | nil => simp
  | token _ consumed _ ih => exact List.forall_mem_cons.2 ⟨consumed, ih⟩
  | pair _ known consumed _ ih => exact List.forall_mem_cons.2 ⟨⟨known, consumed⟩, ih⟩

/-! ## Ledgers -/

def waitsOf (chain : List (Slot ε)) : List (Slot ε) := chain.filter fun s => s.isSwitch

/-- The slots of a chain that stand for nodes that are no switches. -/
def plainOf (chain : List (Slot ε)) : List (Slot ε) := chain.filter fun s => !s.isSwitch

@[simp] theorem waitsOf_nil : waitsOf ([] : List (Slot ε)) = [] := rfl

@[simp] theorem plainOf_nil : plainOf ([] : List (Slot ε)) = [] := rfl

theorem waitsOf_cons (s : Slot ε) (chain : List (Slot ε)) :
    waitsOf (s :: chain) = if s.isSwitch then s :: waitsOf chain else waitsOf chain :=
  List.filter_cons

theorem plainOf_cons (s : Slot ε) (chain : List (Slot ε)) :
    plainOf (s :: chain) = if s.isSwitch then plainOf chain else s :: plainOf chain := by
  rw [plainOf, List.filter_cons]
  cases s.isSwitch <;> rfl

theorem waitsOf_append (chain chain' : List (Slot ε)) :
    waitsOf (chain ++ chain') = waitsOf chain ++ waitsOf chain' := List.filter_append _ _

theorem plainOf_append (chain chain' : List (Slot ε)) :
    plainOf (chain ++ chain') = plainOf chain ++ plainOf chain' := List.filter_append _ _

theorem perm_append_right_comm {α : Type} (a b c : List α) :
    ((a ++ b) ++ c).Perm ((a ++ c) ++ b) := by
  rw [List.append_assoc, List.append_assoc]
  exact List.perm_append_comm.append_left a

theorem perm_regroup {α : Type} (a b c d : List α) :
    ((a ++ b) ++ (c ++ d)).Perm ((a ++ c) ++ (b ++ d)) := by
  have h := (perm_append_right_comm a b c).append_right d
  simpa only [List.append_assoc] using h

/-- What a stretch of a path takes off its line and where that goes: the pieces, the switches that
are dropped, and what follows the last piece. -/
structure Ledger (g : Grammar ε) (line : Option String) (ctx : Context ε) (chain : List (Slot ε))
    (pieces : List (Piece ε)) (dropped : List (Slot ε)) (rest : Option String)
    (ctx' : Context ε) : Prop where
  laid : Laid line pieces rest
  placed : pieces.filterMap Piece.placed? = plainOf chain
  matched : ctx'.matched = ctx.matched ++ plainOf chain
  switches : (ctx.switches ++ waitsOf chain).Perm
    (ctx'.switches ++ (pieces.filterMap Piece.asked? ++ dropped))
  consumed : ctx'.consumed =
    (pieces.filterMap Piece.used?).foldl (fun slots s => putSlot s slots) ctx.consumed
  refused : ∀ s ∈ dropped, ∃ value e, s.type.consume s.descriptor (some value) = .error e
  env : ctx'.env = ctx.env
  limit : ctx'.limit = ctx.limit
  read : ∀ slot line' taken around, .token slot line' taken around ∈ pieces →
    g.slot? slot.node = some slot ∧ slot.isSwitch = false ∧
      around.env = ctx.env ∧ around.limit = ctx.limit

namespace Ledger

variable {g : Grammar ε} {line line' rest : Option String} {ctx ctx₁ ctx' : Context ε}
  {chain chain' : List (Slot ε)} {pieces pieces' : List (Piece ε)}
  {dropped dropped' : List (Slot ε)}

theorem refl (g : Grammar ε) (line : Option String) (ctx : Context ε) :
    Ledger g line ctx [] [] [] line ctx where
  laid := .nil
  placed := rfl
  matched := (List.append_nil _).symm
  switches := .refl _
  consumed := rfl
  refused := by simp
  env := rfl
  limit := rfl
  read := by simp

theorem trans (h : Ledger g line ctx chain pieces dropped line' ctx₁)
    (h' : Ledger g line' ctx₁ chain' pieces' dropped' rest ctx') :
    Ledger g line ctx (chain ++ chain') (pieces ++ pieces') (dropped ++ dropped') rest ctx' where
  laid := h.laid.append h'.laid
  placed := by rw [List.filterMap_append, h.placed, h'.placed, plainOf_append]
  matched := by rw [h'.matched, h.matched, List.append_assoc, plainOf_append]
  switches := by
    -- what waits behind the first stretch waits in front of the second
    rw [waitsOf_append, List.filterMap_append]
    calc ctx.switches ++ (waitsOf chain ++ waitsOf chain')
        = (ctx.switches ++ waitsOf chain) ++ waitsOf chain' := (List.append_assoc _ _ _).symm
      _ |>.Perm ((ctx₁.switches ++ (pieces.filterMap Piece.asked? ++ dropped)) ++ waitsOf chain') :=
        h.switches.append_right _
      _ |>.Perm ((ctx₁.switches ++ waitsOf chain') ++ (pieces.filterMap Piece.asked? ++ dropped)) :=
        perm_append_right_comm _ _ _
      _ |>.Perm ((ctx'.switches ++ (pieces'.filterMap Piece.asked? ++ dropped')) ++
          (pieces.filterMap Piece.asked? ++ dropped)) := h'.switches.append_right _
      _ |>.Perm (ctx'.switches ++ ((pieces.filterMap Piece.asked? ++ dropped) ++
          (pieces'.filterMap Piece.asked? ++ dropped'))) := by
        rw [List.append_assoc]
        exact List.perm_append_comm.append_left _
      _ |>.Perm (ctx'.switches ++ ((pieces.filterMap Piece.asked? ++
          pieces'.filterMap Piece.asked?) ++ (dropped ++ dropped'))) :=
        (perm_regroup _ _ _ _).append_left _
  consumed := by rw [h'.consumed, h.consumed, List.filterMap_append, List.foldl_append]
  refused s hs := by
    rcases List.mem_append.1 hs with hs | hs
    · exact h.refused s hs
    · exact h'.refused s hs
  env := h'.env.trans h.env
  limit := h'.limit.trans h.limit
  read slot line' taken around hp := by
    rcases List.mem_append.1 hp with hp | hp
    · exact h.read slot line' taken around hp
    · have hr := h'.read slot line' taken around hp
      rw [h.env, h.limit] at hr
      exact hr

end Ledger

/-! ## The steps of a path -/

/-- A pair takes a switch off the waiting ones and leaves it among the used ones. -/
theorem Context.Answers.ledger (g : Grammar ε) {ctx others : Context ε} {flag value : String}
    {s : Slot ε} {taken : Consumed} (word : ' ' ∉ flag.toList) (answer : ctx.Answers flag s others)
    (consumed : s.type.consume s.descriptor (some value) = .ok taken) :
    Ledger g (some ("-" ++ (flag ++ " " ++ value))) ctx [] [.pair s flag value taken] []
      taken.rest (others.consume (s.holding taken)) := by
  obtain ⟨waiting, others, answers⟩ := answer
  exact
    { laid := .pair word answers consumed .nil
      placed := rfl
      matched := (List.append_nil _).symm
      switches := by
        rw [waiting, waitsOf_nil, List.append_nil]
        exact List.perm_middle.trans (List.perm_append_singleton _ _).symm
      consumed := rfl
      refused := by simp
      env := rfl
      limit := rfl
      read := by simp }

theorem Context.Takes.ledger (g : Grammar ε) {ctx ctx' : Context ε} {line line' : Option String}
    (h : ctx.Takes line ctx' line') : ∃ p, Ledger g line ctx [] [p] [] line' ctx' := by
  obtain ⟨word, answer, consumed⟩ := h
  exact ⟨_, answer.ledger g word consumed⟩

/-- A pair that stands in the way takes nothing; at most its switch is dropped. -/
theorem Context.Sticks.ledger (g : Grammar ε) {ctx ctx' : Context ε} {line : Option String}
    (h : ctx.Sticks line ctx') : ∃ dropped, Ledger g line ctx [] [] dropped line ctx' := by
  cases h with
  | unfinished _ => exact ⟨[], .refl g _ _⟩
  | unanswered _ _ => exact ⟨[], .refl g _ _⟩
  | @refused flag value s others e word answer refused =>
    obtain ⟨waiting, -, -⟩ := answer
    refine ⟨[s], { Ledger.refl g _ ctx with switches := ?_, refused := ?_ }⟩
    · rw [waiting, waitsOf_nil, List.append_nil]
      exact List.perm_middle.trans (List.perm_append_singleton _ _).symm
    · intro t ht
      rw [List.mem_singleton.1 ht]
      exact ⟨value, e, refused⟩

theorem Context.Reads.ledger (g : Grammar ε) {ctx ctx' : Context ε} {line line' : Option String}
    (h : ctx.Reads line ctx' line') : ∃ pieces, Ledger g line ctx [] pieces [] line' ctx' := by
  induction h with
  | none _ => exact ⟨[], .refl g _ _⟩
  | pair takes _ ih =>
    obtain ⟨p, first⟩ := takes.ledger g
    obtain ⟨pieces, later⟩ := ih
    exact ⟨_, first.trans later⟩

/-- No pair can be taken off the line any more: none stands there, or one stands in the way. -/
def Context.Spent (ctx' : Context ε) (line : Option String) : Prop :=
  ¬ Dashed line ∨ ∃ ctx : Context ε, ctx.Sticks line ctx'

theorem Context.Trails.ledger (g : Grammar ε) {ctx ctx' : Context ε} {line : Option String}
    (h : ctx.Trails line ctx') :
    ∃ pieces dropped rest, Ledger g line ctx [] pieces dropped rest ctx' ∧ ctx'.Spent rest := by
  induction h with
  | none plain => exact ⟨[], [], _, .refl g _ _, .inl plain⟩
  | pair takes _ ih =>
    obtain ⟨p, first⟩ := takes.ledger g
    obtain ⟨pieces, dropped, rest, later, spent⟩ := ih
    exact ⟨_, _, _, first.trans later, spent⟩
  | stuck sticks =>
    obtain ⟨dropped, h⟩ := sticks.ledger g
    exact ⟨[], dropped, _, h, .inr ⟨_, sticks⟩⟩

namespace Grammar

variable {g : Grammar ε}

theorem ledger_token {node : Nat} {s : Slot ε} {line : Option String} {ctx : Context ε}
    {taken : Consumed} (here : g.slot? node = some s) (plain : s.isSwitch = false)
    (undashed : ¬ Dashed line) (consumed : s.type.consume s.descriptor line = .ok taken) :
    Ledger g line ctx [(s.holding taken).valued ctx.around] [.token s line taken ctx.around] []
      taken.rest (ctx.pushMatched ((s.holding taken).valued ctx.around)) := by
  have same : ((s.holding taken).valued ctx.around).isSwitch = false := plain
  have waits : waitsOf [(s.holding taken).valued ctx.around] = [] := by simp [waitsOf_cons, same]
  have plains : plainOf [(s.holding taken).valued ctx.around] =
      [(s.holding taken).valued ctx.around] := by simp [plainOf_cons, same]
  exact
    { laid := .token undashed consumed .nil
      placed := plains.symm
      matched := by rw [plains]; rfl
      switches := by rw [waits]; exact .refl _
      consumed := rfl
      refused := by simp
      env := rfl
      limit := rfl
      read := by
        intro slot line' taken' around hp
        cases List.mem_singleton.1 hp
        exact ⟨slot?_node here ▸ here, plain, rfl, rfl⟩ }

theorem Passes.ledger {node : Nat} {line rest : Option String} {ctx ctx' : Context ε}
    {slot : Slot ε} (h : g.Passes node line ctx slot rest ctx') :
    ∃ pieces, Ledger g line ctx [slot] pieces [] rest ctx' := by
  cases h with
  | waits here switch =>
    have waits : waitsOf [slot] = [slot] := by simp [waitsOf_cons, switch]
    have plains : plainOf [slot] = [] := by simp [plainOf_cons, switch]
    refine ⟨[], { Ledger.refl g line ctx with placed := ?_, matched := ?_, switches := ?_ }⟩
    · exact plains.symm
    · rw [plains]
      exact (List.append_nil _).symm
    · rw [waits, List.filterMap_nil, List.nil_append, List.append_nil]
      exact .refl _
  | takes here plain pairs consumed value =>
    obtain ⟨pieces, read⟩ := pairs.ledger g
    exact ⟨_, read.trans (ledger_token here plain pairs.not_dashed consumed)⟩

theorem Refuses.ledger {node : Nat} {line : Option String} {ctx ctx' : Context ε} {slot : Slot ε}
    (h : g.Refuses node line ctx slot ctx') :
    ∃ pieces rest, Ledger g line ctx [slot] pieces [] rest ctx' := by
  cases h with
  | value here plain pairs consumed refused =>
    obtain ⟨pieces, read⟩ := pairs.ledger g
    exact ⟨_, _, read.trans (ledger_token here plain pairs.not_dashed consumed)⟩

theorem Refuses.value_eq {node : Nat} {line : Option String} {ctx ctx' : Context ε} {slot : Slot ε}
    (h : g.Refuses node line ctx slot ctx') :
    ∃ message, ∀ around, slot.value around = .error (.invalid message) := by
  cases h with
  | value _ _ _ _ refused => exact ⟨_, fun around => (Slot.value_valued _ _ around).trans refused⟩

/-! ## Whole paths -/

/-- How a path ends: at a node with children, of which it enters none; at a leaf, behind the pairs
that can be taken there; or at a node that refuses its value. -/
inductive Ends (g : Grammar ε) (node : Nat) (chain : List (Slot ε)) (rest : Option String)
    (ctx' : Context ε) : Prop
  | inner {last : Nat} (last_eq : (node :: nodesOf chain).getLast? = some last)
      (inner : g.tree.isLeaf last = false)
  | leaf {last : Nat} (last_eq : (node :: nodesOf chain).getLast? = some last)
      (leaf : g.tree.isLeaf last = true) (spent : ctx'.Spent rest)
  | refused {s : Slot ε} {message : String} (last_eq : chain.getLast? = some s)
      (refused : ∀ around, s.value around = .error (.invalid message))

theorem Ends.cons {node child : Nat} {slot : Slot ε} {chain : List (Slot ε)}
    {rest : Option String} {ctx' : Context ε} (h : g.Ends child chain rest ctx')
    (node_eq : slot.node = child) : g.Ends node (slot :: chain) rest ctx' := by
  subst node_eq
  cases h with
  | inner last_eq inner => exact .inner (List.getLast?_cons_cons.trans last_eq) inner
  | leaf last_eq leaf spent => exact .leaf (List.getLast?_cons_cons.trans last_eq) leaf spent
  | refused last_eq refused =>
    refine .refused ?_ refused
    rw [List.getLast?_cons, last_eq, Option.getD_some]

/-- Every path has a ledger and comes to an end. -/
theorem Derives.ledger {node : Nat} {line : Option String} {ctx ctx' : Context ε}
    {chain : List (Slot ε)} (h : g.Derives node line ctx chain ctx') :
    ∃ pieces dropped rest, Ledger g line ctx chain pieces dropped rest ctx' ∧
      g.Ends node chain rest ctx' := by
  induction h with
  | stop inner => exact ⟨[], [], _, .refl g _ _, .inner rfl inner⟩
  | leaf leaf trailing =>
    obtain ⟨pieces, dropped, rest, h, spent⟩ := trailing.ledger g
    exact ⟨pieces, dropped, rest, h, .leaf rfl leaf spent⟩
  | refused _ refuses =>
    obtain ⟨pieces, rest, h⟩ := refuses.ledger
    obtain ⟨message, refused⟩ := refuses.value_eq
    exact ⟨pieces, [], rest, h, .refused rfl refused⟩
  | step _ passes _ ih =>
    obtain ⟨pieces, first⟩ := passes.ledger
    obtain ⟨pieces', dropped, rest, later, ends⟩ := ih
    exact ⟨_, _, rest, first.trans later, ends.cons passes.node_eq⟩

theorem Walks.ledger {node last : Nat} {line line' : Option String} {ctx ctx' : Context ε}
    {chain : List (Slot ε)} (h : g.Walks node line ctx chain last line' ctx') :
    ∃ pieces, Ledger g line ctx chain pieces [] line' ctx' := by
  induction h with
  | here => exact ⟨[], .refl g _ _⟩
  | down _ passes _ ih =>
    obtain ⟨pieces, first⟩ := passes.ledger
    obtain ⟨pieces', later⟩ := ih
    exact ⟨_, first.trans later⟩

/-- A path meets no node twice. -/
theorem Derives.nodup (a : g.tree.Arena) {node : Nat} {line : Option String}
    {ctx ctx' : Context ε} {chain : List (Slot ε)} (h : g.Derives node line ctx chain ctx') :
    (nodesOf chain).Nodup := by
  have ascending := List.isChain_iff_pairwise.1 (h.isChain.imp a.lt_child)
  exact (List.pairwise_cons.1 ascending).2.imp Nat.ne_of_lt

/-- A switch stands on a path as it stands in the tree. -/
theorem Derives.standing {node : Nat} {line : Option String} {ctx ctx' : Context ε}
    {chain : List (Slot ε)} (h : g.Derives node line ctx chain ctx') {s : Slot ε}
    (hs : s ∈ waitsOf chain) : g.slot? s.node = some s := by
  rw [waitsOf, List.mem_filter] at hs
  cases h.placed s hs.1 with
  | switch here _ => exact here
  | plain _ _ plain _ => simp [plain] at hs

end Grammar

/-! ## From an empty context -/

theorem perm_putSlot {s : Slot ε} {slots : List (Slot ε)} (absent : s.node ∉ nodesOf slots) :
    (putSlot s slots).Perm (s :: slots) := by
  induction slots with
  | nil => exact .refl _
  | cons t slots ih =>
    rw [nodesOf_cons, List.mem_cons, not_or] at absent
    unfold putSlot
    split
    · exact .refl _
    · rw [if_neg absent.1]
      exact ((ih absent.2).cons t).trans (.swap _ _ _)

theorem perm_nodesOf {slots slots' : List (Slot ε)} (h : slots.Perm slots') :
    (nodesOf slots).Perm (nodesOf slots') :=
  h.map _

theorem perm_foldl_putSlot {used slots : List (Slot ε)}
    (distinct : (nodesOf (used ++ slots)).Nodup) :
    (used.foldl (fun slots s => putSlot s slots) slots).Perm (used ++ slots) := by
  induction used generalizing slots with
  | nil => exact .refl _
  | cons s used ih =>
    rw [List.cons_append, nodesOf_cons, List.nodup_cons] at distinct
    have absent : s.node ∉ nodesOf slots := by
      intro hs
      exact distinct.1 (by rw [nodesOf_append]; exact List.mem_append_right _ hs)
    have moved : (used ++ putSlot s slots).Perm (s :: (used ++ slots)) :=
      ((perm_putSlot absent).append_left used).trans List.perm_middle
    have still : (nodesOf (used ++ putSlot s slots)).Nodup :=
      (perm_nodesOf moved).nodup_iff.2 (List.nodup_cons.2 distinct)
    exact (ih still).trans moved

namespace Ledger

variable {g : Grammar ε} {line rest : Option String} {env : ε} {limit : Nat} {ctx' : Context ε}
  {chain : List (Slot ε)} {pieces : List (Piece ε)} {dropped : List (Slot ε)}

/-- What waits, what pairs were for and what was dropped are the switches of the path. -/
theorem mem_waitsOf_iff (h : Ledger g line { env, limit } chain pieces dropped rest ctx')
    {s : Slot ε} :
    s ∈ waitsOf chain ↔ s ∈ ctx'.switches ∨ s ∈ pieces.filterMap Piece.asked? ∨ s ∈ dropped := by
  have perm := h.switches.mem_iff (a := s)
  rwa [List.nil_append, List.mem_append, List.mem_append] at perm

/-- No switch waits twice, is used twice, or both. -/
theorem distinct (h : Ledger g line { env, limit } chain pieces dropped rest ctx')
    (nodup : (nodesOf chain).Nodup) :
    (nodesOf (ctx'.switches ++ (pieces.filterMap Piece.asked? ++ dropped))).Nodup := by
  have sub : (nodesOf (waitsOf chain)).Sublist (nodesOf chain) := List.filter_sublist.map _
  exact (perm_nodesOf h.switches).nodup_iff.1 (nodup.sublist sub)

theorem nodup_used (h : Ledger g line { env, limit } chain pieces dropped rest ctx')
    (nodup : (nodesOf chain).Nodup) : (nodesOf (pieces.filterMap Piece.used?)).Nodup := by
  have distinct := h.distinct nodup
  rw [nodesOf_append, nodesOf_append] at distinct
  rw [Piece.nodesOf_used]
  exact (List.nodup_append.1 (List.nodup_append.1 distinct).2.1).1

/-- The used switches are those that have taken the value of a pair. -/
theorem perm_consumed (h : Ledger g line { env, limit } chain pieces dropped rest ctx')
    (nodup : (nodesOf chain).Nodup) : ctx'.consumed.Perm (pieces.filterMap Piece.used?) := by
  have used : (nodesOf (pieces.filterMap Piece.used? ++ [])).Nodup := by
    rw [List.append_nil]
    exact h.nodup_used nodup
  have perm := perm_foldl_putSlot used
  rwa [List.append_nil, ← h.consumed] at perm

theorem consumed?_eq_some_iff (h : Ledger g line { env, limit } chain pieces dropped rest ctx')
    (nodup : (nodesOf chain).Nodup) {node : Nat} {s : Slot ε} :
    ctx'.consumed? node = some s ↔ (∃ p ∈ pieces, p.used? = some s) ∧ s.node = node := by
  have perm := h.perm_consumed nodup
  have used := (perm_nodesOf perm).nodup_iff.2 (h.nodup_used nodup)
  rw [← List.mem_filterMap, ← perm.mem_iff, Context.consumed?]
  constructor
  · intro found
    exact ⟨List.mem_of_find?_eq_some found, beq_iff_eq.1 (List.find?_some found :)⟩
  · rintro ⟨hs, rfl⟩
    have some : (ctx'.consumed.find? fun t => t.node == s.node).isSome := by
      rw [List.find?_isSome]
      exact ⟨s, hs, beq_self_eq_true _⟩
    obtain ⟨t, ht⟩ := Option.isSome_iff_exists.1 some
    have node : t.node = s.node := beq_iff_eq.1 (List.find?_some ht :)
    rw [ht, List.inj_on_of_nodup_map used (List.mem_of_find?_eq_some ht) hs node]

/-- The value of a pair is found under the node of its switch. -/
theorem consumed?_of_pair (h : Ledger g line { env, limit } chain pieces dropped rest ctx')
    (nodup : (nodesOf chain).Nodup) {s : Slot ε} {flag value : String} {taken : Consumed}
    (hp : .pair s flag value taken ∈ pieces) :
    ctx'.consumed? s.node = some (s.holding taken) :=
  (h.consumed?_eq_some_iff nodup).2 ⟨⟨_, hp, rfl⟩, rfl⟩

theorem consumed?_eq_none_iff (h : Ledger g line { env, limit } chain pieces dropped rest ctx')
    (nodup : (nodesOf chain).Nodup) {node : Nat} :
    ctx'.consumed? node = none ↔ node ∉ nodesOf (pieces.filterMap Piece.asked?) := by
  rw [← Piece.nodesOf_used, Option.eq_none_iff_forall_ne_some]
  constructor
  · intro none asked
    obtain ⟨t, ht, node_eq⟩ := List.mem_map.1 asked
    exact none t ((h.consumed?_eq_some_iff nodup).2 ⟨List.mem_filterMap.1 ht, node_eq⟩)
  · intro unasked t found
    obtain ⟨used, rfl⟩ := (h.consumed?_eq_some_iff nodup).1 found
    exact unasked (List.mem_map_of_mem (List.mem_filterMap.2 used))

theorem consumed?_of_waiting (h : Ledger g line { env, limit } chain pieces dropped rest ctx')
    (nodup : (nodesOf chain).Nodup) {s : Slot ε} (waiting : s ∈ ctx'.switches) :
    ctx'.consumed? s.node = none := by
  have distinct := h.distinct nodup
  rw [nodesOf_append, nodesOf_append, List.nodup_append] at distinct
  rw [h.consumed?_eq_none_iff nodup]
  intro asked
  exact distinct.2.2 s.node (List.mem_map_of_mem waiting) s.node (List.mem_append_left _ asked) rfl

end Ledger

end CommandTree
