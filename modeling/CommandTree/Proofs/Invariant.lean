import CommandTree.Proofs.Derivation
import Mathlib.Data.List.Chain

/-!
# What a path keeps

A path changes the context in four ways: a switch begins to wait, a matched slot is added, a pair
is taken, a pair stands in the way.  What each of these keeps, a whole path keeps (`Keeps`).

In a context that began empty, the waiting slots are those of switches as they stand in the tree,
and the used ones are those of switches that have taken a value (`Sound`).  The slots of a path are
either switches as they stand in the tree, or have taken their tokens (`Placed`).

Results:
* `Keeps.derives`: what each step keeps, a path keeps.
* `Derives.isChain`: the nodes of a path descend the tree.
* `sound_keeps`, `Derives.placed`: how slots stand in the context and on the path.
* `types_keep`, `Derives.types`: what holds of the types of all nodes holds of these slots.
-/
namespace CommandTree

variable {ε : Type}

namespace Grammar

/-- A property of contexts that every step of a path keeps. -/
structure Keeps (g : Grammar ε) (P : Context ε → Prop) : Prop where
  waits : ∀ {ctx : Context ε} {node : Nat} {s : Slot ε}, P ctx → g.slot? node = some s →
    s.isSwitch = true → P (ctx.pushSwitch s)
  matched : ∀ {ctx : Context ε} {node : Nat} {s : Slot ε} (taken : Consumed), P ctx →
    g.slot? node = some s → s.isSwitch = false →
      P (ctx.pushMatched ((s.holding taken).valued ctx.around))
  takes : ∀ {ctx ctx' : Context ε} {line line' : Option String}, P ctx →
    ctx.Takes line ctx' line' → P ctx'
  sticks : ∀ {ctx ctx' : Context ε} {line : Option String}, P ctx → ctx.Sticks line ctx' → P ctx'

namespace Keeps

variable {g : Grammar ε} {P : Context ε → Prop} {ctx ctx' : Context ε}

theorem reads (k : g.Keeps P) {line line' : Option String} (h : P ctx)
    (reads : ctx.Reads line ctx' line') : P ctx' := by
  induction reads with
  | none _ => exact h
  | pair takes _ ih => exact ih (k.takes h takes)

theorem trails (k : g.Keeps P) {line : Option String} (h : P ctx) (trails : ctx.Trails line ctx') :
    P ctx' := by
  induction trails with
  | none _ => exact h
  | pair takes _ ih => exact ih (k.takes h takes)
  | stuck sticks => exact k.sticks h sticks

theorem passes (k : g.Keeps P) {node : Nat} {line rest : Option String} {slot : Slot ε} (h : P ctx)
    (passes : g.Passes node line ctx slot rest ctx') : P ctx' := by
  cases passes with
  | waits here switch => exact k.waits h here switch
  | takes here plain pairs _ _ => exact k.matched _ (k.reads h pairs) here plain

theorem refuses (k : g.Keeps P) {node : Nat} {line : Option String} {slot : Slot ε} (h : P ctx)
    (refuses : g.Refuses node line ctx slot ctx') : P ctx' := by
  cases refuses with
  | value here plain pairs _ _ => exact k.matched _ (k.reads h pairs) here plain

theorem derives (k : g.Keeps P) {node : Nat} {line : Option String} {chain : List (Slot ε)}
    (h : P ctx) (derives : g.Derives node line ctx chain ctx') : P ctx' := by
  induction derives with
  | stop _ => exact h
  | leaf _ trailing => exact k.trails h trailing
  | refused _ refuses => exact k.refuses h refuses
  | step _ passes _ ih => exact ih (k.passes h passes)

end Keeps

/-! ## The host's environment -/

theorem env_keeps (g : Grammar ε) (env : ε) : g.Keeps fun ctx => ctx.env = env where
  waits h _ _ := h
  matched _ h _ _ := h
  takes h takes := by
    obtain ⟨-, ⟨⟩, -⟩ := takes
    exact h
  sticks h sticks := by
    cases sticks with
    | unfinished _ => exact h
    | unanswered _ _ => exact h
    | refused _ answer _ =>
      obtain ⟨⟩ := answer
      exact h

/-! ## The nodes of a path -/

/-- The nodes of a path descend the tree from where it starts. -/
theorem Derives.isChain {g : Grammar ε} {node : Nat} {line : Option String}
    {ctx ctx' : Context ε} {chain : List (Slot ε)} (h : g.Derives node line ctx chain ctx') :
    List.IsChain (fun p c => c ∈ g.tree.children p) (node :: nodesOf chain) := by
  induction h with
  | stop _ => exact List.isChain_singleton _
  | leaf _ _ => exact List.isChain_singleton _
  | refused below refuses =>
    rw [nodesOf_cons, List.isChain_cons_cons, refuses.node_eq]
    exact ⟨below, List.isChain_singleton _⟩
  | step below passes _ ih =>
    rw [nodesOf_cons, List.isChain_cons_cons, passes.node_eq]
    exact ⟨below, ih⟩

/-! ## How slots stand -/

/-- A slot of a path: a switch as it stands in the tree, or another node that has taken its
token. -/
inductive Placed (g : Grammar ε) (s : Slot ε) : Prop
  | switch (here : g.slot? s.node = some s) (switch : s.isSwitch = true)
  | plain {s₀ : Slot ε} (here : g.slot? s.node = some s₀) (plain₀ : s₀.isSwitch = false)
      (plain : s.isSwitch = false) (parsed : s.parsed = true)

theorem Derives.placed {g : Grammar ε} {node : Nat} {line : Option String}
    {ctx ctx' : Context ε} {chain : List (Slot ε)} (h : g.Derives node line ctx chain ctx') :
    ∀ s ∈ chain, g.Placed s := by
  induction h with
  | stop _ => simp
  | leaf _ _ => simp
  | refused _ refuses =>
    cases refuses with
    | value here plain _ _ _ =>
      intro s hs
      rw [List.mem_singleton.1 hs]
      exact .plain (slot?_node here ▸ here) plain plain rfl
  | step _ passes _ ih =>
    intro s hs
    rcases List.mem_cons.1 hs with rfl | hs
    · cases passes with
      | waits here switch => exact .switch (slot?_node here ▸ here) switch
      | takes here plain _ _ _ => exact .plain (slot?_node here ▸ here) plain plain rfl
    · exact ih s hs

/-- How slots stand in a context that began empty. -/
structure Sound (g : Grammar ε) (ctx : Context ε) : Prop where
  waiting : ∀ s ∈ ctx.switches, g.slot? s.node = some s ∧ s.isSwitch = true
  used : ∀ s ∈ ctx.consumed, s.parsed = true ∧
    ∃ s₀, g.slot? s.node = some s₀ ∧ s₀.isSwitch = true

theorem mem_putSlot {s t : Slot ε} {slots : List (Slot ε)} (h : t ∈ putSlot s slots) :
    t = s ∨ t ∈ slots := by
  induction slots with
  | nil => exact .inl (List.mem_singleton.1 h)
  | cons r slots ih =>
    unfold putSlot at h
    split at h
    · exact List.mem_cons.1 h
    · split at h
      · rcases List.mem_cons.1 h with h | h
        · exact .inl h
        · exact .inr (List.mem_cons_of_mem _ h)
      · rcases List.mem_cons.1 h with h | h
        · exact .inr (h ▸ List.mem_cons_self)
        · rcases ih h with h | h
          · exact .inl h
          · exact .inr (List.mem_cons_of_mem _ h)

theorem Sound.answers {g : Grammar ε} {ctx others : Context ε} {flag : String} {s : Slot ε}
    (h : g.Sound ctx) (answer : ctx.Answers flag s others) :
    g.Sound others ∧ g.slot? s.node = some s ∧ s.isSwitch = true := by
  obtain ⟨waiting, -, -⟩ := answer
  refine ⟨⟨?_, h.used⟩, h.waiting s (by rw [waiting]; simp)⟩
  intro t ht
  apply h.waiting
  rw [waiting]
  rcases List.mem_append.1 ht with ht | ht
  · exact List.mem_append_left _ ht
  · exact List.mem_append_right _ (List.mem_cons_of_mem _ ht)

theorem sound_keeps (g : Grammar ε) : g.Keeps g.Sound where
  waits {ctx node s} h here switch :=
    { waiting := by
        intro t ht
        rcases List.mem_append.1 ht with ht | ht
        · exact h.waiting t ht
        · rw [List.mem_singleton.1 ht]
          exact ⟨slot?_node here ▸ here, switch⟩
      used := h.used }
  matched _ h _ _ := ⟨h.waiting, h.used⟩
  takes h takes := by
    obtain ⟨-, answer, -⟩ := takes
    obtain ⟨others, here, switch⟩ := h.answers answer
    refine ⟨others.waiting, ?_⟩
    intro t ht
    rcases mem_putSlot ht with rfl | ht
    · exact ⟨rfl, _, here, switch⟩
    · exact others.used t ht
  sticks h sticks := by
    cases sticks with
    | unfinished _ => exact h
    | unanswered _ _ => exact h
    | refused _ answer _ => exact (h.answers answer).1

theorem sound_fresh (g : Grammar ε) (env : ε) (limit : Nat) : g.Sound { env, limit } where
  waiting s hs := absurd hs (by simp)
  used s hs := absurd hs (by simp)

/-! ## The types of slots -/

variable {g : Grammar ε} {P : ArgumentType ε → Prop}

/-- What holds of the types of all nodes holds of the switches that have been used. -/
theorem types_keep (types : ∀ node slot, g.slot? node = some slot → P slot.type) :
    g.Keeps fun ctx => g.Sound ctx ∧ ∀ s ∈ ctx.consumed, P s.type where
  waits h here switch := ⟨(sound_keeps g).waits h.1 here switch, h.2⟩
  matched taken h here plain := ⟨(sound_keeps g).matched taken h.1 here plain, h.2⟩
  takes h takes := by
    refine ⟨(sound_keeps g).takes h.1 takes, ?_⟩
    obtain ⟨-, answer, -⟩ := takes
    have type := types _ _ (h.1.answers answer).2.1
    intro t ht
    obtain ⟨-, -, -⟩ := answer
    rcases mem_putSlot ht with rfl | ht
    · exact type
    · exact h.2 t ht
  sticks h sticks := by
    refine ⟨(sound_keeps g).sticks h.1 sticks, ?_⟩
    cases sticks with
    | unfinished _ => exact h.2
    | unanswered _ _ => exact h.2
    | refused _ answer _ =>
      obtain ⟨-, -, -⟩ := answer
      exact h.2

theorem Derives.types (types : ∀ node slot, g.slot? node = some slot → P slot.type) {node : Nat}
    {line : Option String} {ctx ctx' : Context ε} {chain : List (Slot ε)}
    (h : g.Derives node line ctx chain ctx') : ∀ s ∈ chain, P s.type := by
  induction h with
  | stop _ => simp
  | leaf _ _ => simp
  | refused _ refuses =>
    obtain ⟨here, -, -, -, -⟩ := refuses
    have type := types _ _ here
    exact List.forall_mem_singleton.2 type
  | step _ passes _ ih =>
    refine List.forall_mem_cons.2 ⟨?_, ih⟩
    cases passes with
    | waits here _ => exact types _ _ here
    | takes here _ _ _ _ =>
      have type := types _ _ here
      exact type

end Grammar

end CommandTree
