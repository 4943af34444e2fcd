import CommandTree.Proofs.CallArguments
import CommandTree.Proofs.NamePaths

/-!
# Handlers and values along a path

What a host relies on that binds handlers by path and asks for its arguments by position: where the
handlers of a path stand, that a handler bound at the root is found from everywhere, which nodes a
path has gone through, and whose verdict each value is.

Results:
* `Arena.handler?_bindPath`: a binding by path sets one slot of the nodes where the path ends.
* `Nearest.exists_of_root`: a handler at the root is found from every node.
* `Arena.rootPath_of_isChain`: the nodes of a path are those on the way from the root.
* `Slot.exists_token`: a node with a default never does without a token.
* `judged_of_effective`: the value of a slot is the verdict of its type on what it has taken.
-/
namespace CommandTree

variable {ε : Type}

namespace Tree

variable {t : Tree ε}

/-! ## Handlers bound by path -/

theorem handler?_foldl_bind (t : Tree ε) (leaves : List Nat) (kind : HandlerKind) (h : Handler ε)
    (node : Nat) (kind' : HandlerKind) :
    (leaves.foldl (fun t leaf => t.bind leaf kind h) t).handler? node kind' =
      if node ∈ leaves ∧ kind' = kind then some h else t.handler? node kind' := by
  induction leaves generalizing t with
  | nil => simp
  | cons leaf leaves ih =>
    rw [List.foldl_cons, ih, handler?_bind]
    grind

theorem Arena.handler?_bindPath (a : t.Arena) (path : String) (kind : HandlerKind) (h : Handler ε)
    (node : Nat) (kind' : HandlerKind) :
    (t.bindPath path kind h).handler? node kind' =
      if node ∈ (t.insert root path).1 ∧ kind' = kind then some h else t.handler? node kind' := by
  rw [bindPath, handler?_foldl_bind, (Grown.insert a a.nonempty path).1.kept.handler?]

theorem Built.foldl_bind (built : t.Built) (kind : HandlerKind) (h : Handler ε)
    {leaves : List Nat} (inside : ∀ leaf ∈ leaves, leaf < t.size) :
    (leaves.foldl (fun t leaf => t.bind leaf kind h) t).Built := by
  induction leaves generalizing t with
  | nil => exact built
  | cons leaf leaves ih =>
    have bound := built.bind (inside leaf List.mem_cons_self) kind h
    exact ih bound fun other hm => inside other (List.mem_cons_of_mem leaf hm)

theorem Built.bindPath (built : t.Built) (path : String) (kind : HandlerKind) (h : Handler ε) :
    (t.bindPath path kind h).Built :=
  (built.insert built.arena.nonempty path).foldl_bind kind h
    (Grown.insert built.arena built.arena.nonempty path).2

theorem Nearest.bound {kind : HandlerKind} {node n : Nat} {h : Handler ε}
    {found : Option (Nat × Handler ε)} (nearest : t.Nearest kind node found)
    (he : found = some (n, h)) : t.handler? n kind = some h := by
  induction nearest with
  | here bound =>
    cases he
    exact bound
  | up _ _ _ ih => exact ih he
  | none _ _ => cases he

/-- A handler at the root is found from every node, if no other is. -/
theorem Nearest.exists_of_root (a : t.Arena) {kind : HandlerKind} {top : Handler ε}
    (bound : t.handler? root kind = some top) {node : Nat} (inside : node < t.size)
    {found : Option (Nat × Handler ε)} (nearest : t.Nearest kind node found) :
    ∃ n h, found = some (n, h) ∧ t.handler? n kind = some h := by
  induction nearest with
  | here bound => exact ⟨_, _, rfl, bound⟩
  | @up node parent found _ link _ ih =>
    have below := (a.mem_children_iff parent node).2 link
    exact ih (Nat.lt_trans (a.lt_child parent node below) inside)
  | none unbound link =>
    rw [(a.parent_eq_none_iff inside).1 link, bound] at unbound
    cases unbound

/-! ## The nodes of a path -/

theorem RootPath.extend {node last : Nat} {above nodes : List Nat} (h : t.RootPath node above)
    (path : List.IsChain (fun p c => c ∈ t.children p) (node :: nodes))
    (last_eq : (node :: nodes).getLast? = some last) : t.RootPath last (above ++ nodes) := by
  induction nodes generalizing node above with
  | nil =>
    cases last_eq
    rwa [List.append_nil]
  | cons child nodes ih =>
    obtain ⟨below, path⟩ := List.isChain_cons_cons.1 path
    rw [List.getLast?_cons_cons] at last_eq
    have whole := ih (h.child below) path last_eq
    rwa [List.append_assoc] at whole

theorem rootPath_of_isChain {last : Nat} {nodes : List Nat}
    (path : List.IsChain (fun p c => c ∈ t.children p) (root :: nodes))
    (last_eq : (root :: nodes).getLast? = some last) : t.RootPath last nodes :=
  RootPath.extend .root path last_eq

end Tree

/-! ## Verdicts -/

theorem Fault.mem {around : Surroundings ε} {slots : List (Slot ε)} {s : Slot ε} {e : ParseError}
    (h : Fault around slots s e) : s ∈ slots := by
  obtain ⟨before, after, rfl, -⟩ := h
  exact List.mem_append_right before List.mem_cons_self

theorem Slot.exists_token {s : Slot ε} (standard : s.type.consume = consumeToken)
    (default : (s.descriptor.parameter "default").isSome = true) {line : Option String}
    {taken : Consumed} (consumed : s.type.consume s.descriptor line = .ok taken) :
    ∃ token, taken.token = some token := by
  have took := Slot.took_of_consumed consumed
  cases line with
  | some text => exact ⟨_, took.present standard text rfl⟩
  | none =>
    rw [(took.ended standard rfl).1]
    exact Option.isSome_iff_exists.1 default

namespace Grammar

variable {g : Grammar ε}

/-- The value of a slot is the verdict of the type of its node on what the node has taken, given in
the host's environment; a node that is no switch is refused with a message. -/
inductive Judged (g : Grammar ε) (env : ε) (around : Surroundings ε) (s : Slot ε) : Prop
  | intro {slot : Slot ε} {line : Option String} {taken : Consumed} {around' : Surroundings ε}
      (here : g.slot? s.node = some slot) (suppressed : s.isSuppressed = slot.isSuppressed)
      (consumed : slot.type.consume slot.descriptor line = .ok taken)
      (seen : around'.env = env) (value : s.value around = slot.verdict around' taken)
      (worded : slot.isSwitch = false → ∀ e, s.value around = .error e → ∃ m, e = .invalid m)

/-- On a path a node that is no switch has a value or is refused with a message. -/
theorem Derives.worded {node : Nat} {line : Option String} {ctx ctx' : Context ε}
    {chain : List (Slot ε)} (h : g.Derives node line ctx chain ctx') (around : Surroundings ε) :
    ∀ s ∈ chain, s.isSwitch = false → ∀ e, s.value around = .error e → ∃ m, e = .invalid m := by
  induction h with
  | stop _ => simp
  | leaf _ _ => simp
  | refused _ refuses =>
    cases refuses with
    | value _ _ _ _ refused =>
      intro s hs _ e he
      rw [List.mem_singleton.1 hs, Slot.value_valued, refused] at he
      exact ⟨_, (Except.error.inj he).symm⟩
  | step _ passes _ ih =>
    intro s hs plain e he
    rcases List.mem_cons.1 hs with rfl | hs
    · cases passes with
      | waits _ switch => simp [switch] at plain
      | takes _ _ _ _ value =>
        rw [Slot.value_valued, value] at he
        cases he
    · exact ih s hs plain e he

/-- The value of every slot on the effective path of a line is a verdict. -/
theorem judged_of_effective (a : g.tree.Arena) {env : ε} {limit : Nat} {line : String}
    {slots : List (Slot ε)}
    (effective : (g.matchOf line { env, limit }).context.Effective
      (g.matchOf line { env, limit }).chain slots) :
    ∀ s ∈ slots, g.Judged env (g.matchOf line { env, limit }).context.around s := by
  have derives := matchOf_derives a line { env, limit }
  have sound := (sound_keeps g).derives (sound_fresh g env limit) derives
  have env_eq := (env_keeps g env).derives rfl derives
  obtain ⟨pieces, dropped, rest, ledger, -⟩ := derives.ledger
  -- where the value comes from is on the ledger; what it can be refused with is on the path
  intro s hs
  obtain ⟨slot, mem, counts⟩ := effective.counts hs
  obtain ⟨s₀, here, suppressed, sourced⟩ :=
    ledger.sourced (derives.nodup a) (fun _ => derives.standing) mem counts
  have worded : s₀.isSwitch = false → ∀ e,
      s.value (g.matchOf line { env, limit }).context.around = .error e → ∃ m, e = .invalid m := by
    intro plain
    cases counts with
    | used used =>
      obtain ⟨-, s₁, here', switch⟩ := sound.used s (List.mem_of_find?_eq_some used)
      rw [here] at here'
      cases here'
      simp [plain] at switch
    | plain _ plain => exact derives.worded _ s mem plain
    | absent _ switch _ =>
      have here' := derives.standing (List.mem_filter.2 ⟨mem, switch⟩)
      rw [Slot.holding_node, here'] at here
      cases here
      simp [plain] at switch
  generalize hv : s.value (g.matchOf line { env, limit }).context.around = verdict at sourced
  cases sourced with
  | word _ _ took seen => exact .intro here suppressed took.consumed (seen.1.trans env_eq) hv worded
  | given _ _ took => exact .intro here suppressed took.consumed env_eq hv worded
  | absent _ _ took => exact .intro here suppressed took.consumed env_eq hv worded

end Grammar

end CommandTree
