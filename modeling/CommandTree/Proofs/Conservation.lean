import CommandTree.Proofs.Ledger
import CommandTree.Proofs.Resolution
import CommandTree.Proofs.Spelling

/-!
# No switch is lost

While a line is matched, slots move between the collections of the context: a switch is passed and
waits, a pair takes it off and leaves it among the used ones, a token adds a slot to the matched
ones.  What is tried on a branch that is given up stays on its own copy of the context.  So behind a
match, with types that take a token off every line that goes on, the switches of the chain are
shared out between the waiting and the used ones, and the matched slots are the rest of the chain.

Results:
* `Ledger.dropped_eq_nil`: such types drop no switch.
* `Ledger.eq_of_nil`: a path without a slot changes nothing.
* `resolve_conserves`: where the slots of a chain are behind its match.
-/
namespace CommandTree

variable {ε : Type}

/-- The type of the slot takes a token off every line that has not ended. -/
def Slot.Accepting (s : Slot ε) : Prop :=
  ∀ line, ∃ token rest, s.type.consume s.descriptor (some line) = .ok ⟨some token, rest⟩

theorem ArgumentType.Basic.accepting {s : Slot ε} (h : s.type.Basic) : s.Accepting := by
  intro line
  rw [h.consume_eq, consumeToken_some]
  exact ⟨_, _, rfl⟩

namespace Ledger

variable {g : Grammar ε} {line rest : Option String} {env : ε} {limit : Nat} {ctx' : Context ε}
  {chain : List (Slot ε)} {pieces : List (Piece ε)} {dropped : List (Slot ε)}

theorem dropped_eq_nil (h : Ledger g line { env, limit } chain pieces dropped rest ctx')
    (accepting : ∀ s ∈ waitsOf chain, s.Accepting) : dropped = [] := by
  rw [List.eq_nil_iff_forall_not_mem]
  intro s hs
  obtain ⟨value, e, refused⟩ := h.refused s hs
  obtain ⟨token, rest, taken⟩ := accepting s (h.mem_waitsOf_iff.2 (.inr (.inr hs))) value
  rw [taken] at refused
  cases refused

/-- A path without a slot changes nothing. -/
theorem eq_of_nil (h : Ledger g line { env, limit } [] pieces dropped rest ctx') :
    ctx' = { env, limit } := by
  have none := h.switches.nil_eq
  rw [eq_comm, List.append_eq_nil_iff, List.append_eq_nil_iff] at none
  obtain ⟨switches, asked, -⟩ := none
  have used : pieces.filterMap Piece.used? = [] := by
    have nodes := Piece.nodesOf_used pieces
    rw [asked, nodesOf_nil, nodesOf, List.map_eq_nil_iff] at nodes
    exact nodes
  have consumed := h.consumed
  have matched := h.matched
  rw [used] at consumed
  obtain ⟨env', limit', switches', matched', consumed'⟩ := ctx'
  simp only at switches
  cases switches
  cases consumed
  cases matched
  cases h.env
  cases h.limit
  rfl

end Ledger

namespace Grammar

/-- Where the slots of a chain are behind its match: each switch is among the waiting or the used
ones, once and in one of them only, and no other node is. -/
structure Conserved (g : Grammar ε) (fresh : Context ε) (found : Match ε) : Prop where
  shared : (nodesOf (found.context.switches ++ found.context.consumed)).Perm
    (nodesOf (waitsOf found.chain))
  nodup : (nodesOf found.chain).Nodup
  used : ∀ s ∈ found.context.consumed, s.parsed = true ∧ s.token.isSome = true
  standing : ∀ s ∈ waitsOf found.chain,
    g.slot? s.node = some s ∧ s.parsed = false ∧ s.token = none
  matched : found.context.matched = plainOf found.chain
  unchanged : found.chain = [] → found.context = fresh

/-- **No switch is lost and none is found twice.**  Let every type take a token off every line that
has not ended.  Behind the match of a line each switch of the chain still waits or has been used,
and it stands on the chain as it does in the tree; the used ones have taken their tokens; the
matched slots are those of the chain that are no switches, in its order; and where nothing is
matched, nothing is changed. -/
theorem resolve_conserves (g : Grammar ε) (built : g.tree.Built)
    (accepting : ∀ node slot, g.slot? node = some slot → slot.Accepting) (env : ε) (limit : Nat)
    (line : Option String) :
    g.Conserved { env, limit } (g.resolve Tree.root line { env, limit }) := by
  have derives := resolve_derives built.arena line { env, limit }
  generalize g.resolve Tree.root line { env, limit } = found at derives ⊢
  obtain ⟨pieces, dropped, rest, h, -⟩ := derives.ledger
  have nodup := derives.nodup built.arena
  have none := h.dropped_eq_nil fun s hs => accepting _ _ (derives.standing hs)
  have perm := h.perm_consumed nodup
  refine ⟨?_, nodup, ?_, ?_, h.matched, ?_⟩
  · have switches := perm_nodesOf h.switches
    rw [none, List.append_nil, nodesOf_append, nodesOf_append, ← Piece.nodesOf_used] at switches
    rw [nodesOf_append]
    exact ((perm_nodesOf perm).append_left _).trans switches.symm
  · intro s hs
    rw [perm.mem_iff, List.mem_filterMap] at hs
    obtain ⟨p, hp, hs⟩ := hs
    obtain ⟨slot, flag, value, taken, rfl, rfl⟩ := Piece.used?_eq_some_iff.1 hs
    have asked : slot ∈ pieces.filterMap Piece.asked? := List.mem_filterMap.2 ⟨_, hp, rfl⟩
    have passed : slot ∈ waitsOf found.chain := h.mem_waitsOf_iff.2 (.inr (.inl asked))
    obtain ⟨token, rest, consumed⟩ := accepting _ _ (derives.standing passed) value
    have same := (h.laid.taken _ hp).2
    rw [consumed] at same
    cases same
    exact ⟨rfl, rfl⟩
  · intro s hs
    have here := derives.standing hs
    obtain ⟨d, -, he⟩ := Option.map_eq_some_iff.1 here
    rw [← he]
    exact ⟨he ▸ here, rfl, rfl⟩
  · intro empty
    rw [empty] at h
    exact h.eq_of_nil

end Grammar

def forgeTree : Tree Unit :=
  (Tree.empty.insert Tree.root "forge @string(switch=a) @string(switch=b, default=x) @string").2

def forgeGrammar : Grammar Unit := ⟨forgeTree, .standard, {}⟩

theorem forgeTree_built : forgeTree.Built := .insert_root .empty _

/-- Of the two switches the line uses the second, and the first still waits. -/
theorem resolve_conserves_forge :
    forgeTree.Built ∧ (∀ node slot, forgeGrammar.slot? node = some slot → slot.Accepting) ∧
      ∃ found, forgeGrammar.resolve Tree.root (some "forge -b iron sword") { env := () } = found ∧
        nodesOf found.chain = [1, 2, 3, 4] ∧ nodesOf found.context.switches = [2] ∧
        nodesOf found.context.consumed = [3] ∧ forgeGrammar.Conserved { env := () } found := by
  have accepting : ∀ node slot, forgeGrammar.slot? node = some slot → slot.Accepting := by
    intro node slot here
    exact (Grammar.basic_of_standard rfl node slot here).accepting
  exact ⟨forgeTree_built, accepting, _, rfl, by decide +kernel, by decide +kernel,
    by decide +kernel, Grammar.resolve_conserves forgeGrammar forgeTree_built accepting ()
      defaultLimit (some "forge -b iron sword")⟩

end CommandTree
