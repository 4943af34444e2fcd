import CommandTree.Proofs.Completion
import CommandTree.Proofs.IntegerRange
import CommandTree.Proofs.PortalSession
import CommandTree.Proofs.Spelling
import Mathlib.Algebra.Group.Action.Defs
import Mathlib.Algebra.Order.BigOperators.Group.List

/-!
# The limit of a completion

The number of completions wanted stands in the context, is copied at every branch of the tree and
is read where a cursor makes its offers.  It has no part in where the cursors lie: the way to them
asks types for values, and the types here do not look at the limit for these (`Steady`).  So the
cursors of a line under different limits are the same but for the limit itself (`limited`), and what
a limit does to a completion is what it does at each cursor: of one list the first ones are offered
(`Truncates`), while a literal offers its one text whatever the limit is.

Where the cursors lie is told by the rules of a match (`StopsAt`).  On an absent line a way passes
only switches, and ends on the first other node if that takes an absent token (`HaltsAbsent`).

Results:
* `Context.approach_limited`, `cursorsWithin_limited`: the way to the cursors ignores the limit.
* `exists_stopsOn`: the nodes to which the cursors of a line belong, where it is absent too.
* `Cursor.exists_offering`: what a limit does at one cursor.
* `Portal.provided_limits`: the types of the engine and of the portal network.
* `Portal.limit_truncates`: the completions of a line under all limits.
-/
namespace CommandTree

variable {ε : Type}

/-! ## Another limit -/

/-- The same surroundings with another number of completions wanted. -/
def Surroundings.limited (around : Surroundings ε) (limit : Nat) : Surroundings ε :=
  { around with limit }

def Context.limited (ctx : Context ε) (limit : Nat) : Context ε := { ctx with limit }

def Pair.limited (limit : Nat) : Pair ε → Pair ε
  | .absent => .absent
  | .unfinished flag => .unfinished flag
  | .unanswered => .unanswered
  | .refused ctx => .refused (ctx.limited limit)
  | .read switch rest ctx => .read switch rest (ctx.limited limit)

def Cursor.limited (limit : Nat) : Cursor ε → Cursor ε
  | .token slot ctx => .token slot (ctx.limited limit)
  | .value switch ctx => .value switch (ctx.limited limit)
  | .flag typed ctx => .flag typed (ctx.limited limit)

def Approach.limited (limit : Nat) : Approach ε → Approach ε
  | .lost ctx => .lost (ctx.limited limit)
  | .at cursor => .at (cursor.limited limit)
  | .go rest ctx => .go rest (ctx.limited limit)

/-- The type finds the same value whatever the limit is. -/
def ArgumentType.Steady (type : ArgumentType ε) : Prop :=
  ∀ token d around limit,
    type.result token d (Surroundings.limited around limit) = type.result token d around

/-- For a token the type has one list, of which it offers the first ones up to the limit. -/
def ArgumentType.Truncates (type : ArgumentType ε) : Prop :=
  ∀ token d around, ∃ all : List String, ∀ limit,
    type.complete token d (Surroundings.limited around limit) = all.take limit

/-! ## The way to the cursors -/

namespace Context

theorem takeSwitch_limited (ctx : Context ε) (limit : Nat) (flag : String) :
    (ctx.limited limit).takeSwitch flag =
      (ctx.takeSwitch flag).map fun (s, others) => (s, others.limited limit) := by
  rw [takeSwitch, takeSwitch, Option.map_map]
  rfl

theorem readPair_limited (ctx : Context ε) (limit : Nat) (line : Option String) :
    (ctx.limited limit).readPair line = (ctx.readPair line).limited limit := by
  unfold readPair
  simp only [takeSwitch_limited]
  cases line.bind Text.afterDash with
  | none => rfl
  | some pair =>
    simp only
    obtain ⟨flag, _ | value⟩ := Text.cut ' ' pair
    · rfl
    · simp only
      cases ctx.takeSwitch flag with
      | none => rfl
      | some found =>
        obtain ⟨s, others⟩ := found
        simp only [Option.map_some]
        obtain ⟨s', _ | _⟩ := s.parse (some value) <;> rfl

/-- The pairs of a line are read in the same way whatever the limit is. -/
theorem approach_limited (ctx : Context ε) (limit : Nat) (line : Option String) :
    (ctx.limited limit).approach line = (ctx.approach line).limited limit := by
  -- every pair uses up a switch
  induction hn : ctx.switches.length using Nat.strongRecOn generalizing ctx line with
  | ind n ih =>
    rw [approach_eq, approach_eq, readPair_limited]
    cases pair : ctx.readPair line with
    | absent => rfl
    | unfinished flag => rfl
    | unanswered => rfl
    | refused ctx' => rfl
    | read switch rest ctx' =>
      cases rest with
      | none => rfl
      | some rest =>
        exact ih ctx'.switches.length (hn ▸ length_switches_readPair pair) (ctx'.consume switch)
          (some rest) rfl

end Context

theorem trailingCursors_limited (ctx : Context ε) (limit : Nat) (line : Option String) :
    Grammar.trailingCursors (ctx.limited limit) line =
      (Grammar.trailingCursors ctx line).map (Cursor.limited limit) := by
  rw [Grammar.trailingCursors, Grammar.trailingCursors, Context.approach_limited]
  cases ctx.approach line <;> rfl

theorem Slot.value_limited {s : Slot ε} (steady : s.type.Steady) (around : Surroundings ε)
    (limit : Nat) : s.value (around.limited limit) = s.value around := by
  unfold Slot.value
  split
  · rfl
  · split
    · exact steady _ _ around limit
    · rfl

theorem Slot.valued_limited {s : Slot ε} (steady : s.type.Steady) (around : Surroundings ε)
    (limit : Nat) : s.valued (around.limited limit) = s.valued around := by
  rw [valued, value_limited steady, valued]

namespace Grammar

variable {g : Grammar ε}

theorem approachSlot_limited {s : Slot ε} (steady : s.type.Steady) (ctx : Context ε) (limit : Nat)
    (line : Option String) :
    approachSlot s line (ctx.limited limit) = (approachSlot s line ctx).limited limit := by
  cases consumed : s.type.consume s.descriptor line with
  | error e =>
    simp only [approachSlot, Slot.parse_error consumed]
    rfl
  | ok taken =>
    have value : (s.holding taken).value (ctx.limited limit).around =
        (s.holding taken).value ctx.around :=
      Slot.value_limited (s := s.holding taken) steady ctx.around limit
    have valued : (s.holding taken).valued (ctx.limited limit).around =
        (s.holding taken).valued ctx.around :=
      Slot.valued_limited (s := s.holding taken) steady ctx.around limit
    rw [approachSlot_ok consumed, approachSlot_ok consumed, value, valued]
    cases taken.rest with
    | none => rfl
    | some rest => cases (s.holding taken).value ctx.around <;> rfl

theorem approach_limited (steady : ∀ node slot, g.slot? node = some slot → slot.type.Steady)
    (node : Nat) (line : Option String) (ctx : Context ε) (limit : Nat) :
    g.approach node line (ctx.limited limit) = (g.approach node line ctx).limited limit := by
  cases here : g.slot? node with
  | none =>
    simp only [approach, here]
    rfl
  | some s =>
    cases switch : s.isSwitch with
    | true =>
      rw [approach_of_switch here switch, approach_of_switch here switch]
      rfl
    | false =>
      rw [approach_of_plain here switch, approach_of_plain here switch, Context.approach_limited]
      cases ctx.approach line with
      | lost ctx' => rfl
      | «at» cursor => rfl
      | go rest ctx' => exact approachSlot_limited (steady node s here) ctx' limit rest

/-- The cursors of a line lie in the same places whatever the limit is. -/
theorem cursorsWithin_limited (steady : ∀ node slot, g.slot? node = some slot → slot.type.Steady)
    (levels node : Nat) (line : Option String) (ctx : Context ε) (limit : Nat) :
    g.cursorsWithin levels node line (ctx.limited limit) =
      (g.cursorsWithin levels node line ctx).map (Cursor.limited limit) := by
  induction levels generalizing node line ctx with
  | zero => rfl
  | succ levels ih =>
    rw [cursorsWithin, cursorsWithin, approach_limited steady]
    cases g.approach node line ctx with
    | lost ctx' => rfl
    | «at» cursor => rfl
    | go rest ctx' =>
      simp only [Approach.limited]
      split
      · exact trailingCursors_limited ctx' limit rest
      · rw [List.map_flatMap]
        exact List.flatMap_congr fun child _ => ih child rest ctx'

/-! ## One cursor for a node -/

/-- Where there is no line, the way that enters a node ends there if the node takes an absent token;
behind a switch it goes on to the children. -/
inductive HaltsAbsent (g : Grammar ε) : Nat → Context ε → Nat → Cursor ε → Prop
  | token {node : Nat} {ctx : Context ε} {s : Slot ε} {taken : Consumed}
      (here : g.slot? node = some s) (plain : s.isSwitch = false)
      (consumed : s.type.consume s.descriptor none = .ok taken) (last : taken.rest = none) :
      HaltsAbsent g node ctx node (.token (s.holding taken) ctx)
  | waits {above child node : Nat} {ctx : Context ε} {s : Slot ε} {cursor : Cursor ε}
      (here : g.slot? above = some s) (switch : s.isSwitch = true)
      (below : child ∈ g.tree.children above)
      (rest : HaltsAbsent g child (ctx.pushSwitch s) node cursor) :
      HaltsAbsent g above ctx node cursor

/-- The way from a node over a line, which may be absent, ends on the cursor of another. -/
def StopsOn (g : Grammar ε) (start : Nat) (line : Option String) (ctx : Context ε) (node : Nat)
    (cursor : Cursor ε) : Prop :=
  match line with
  | some line => g.StopsAt start line ctx node cursor
  | none => ∃ child ∈ g.tree.children start, g.HaltsAbsent child ctx node cursor

theorem haltsAbsent_plain_iff {entered node : Nat} {s : Slot ε} (here : g.slot? entered = some s)
    (plain : s.isSwitch = false) {ctx : Context ε} {cursor : Cursor ε} :
    g.HaltsAbsent entered ctx node cursor ↔ node = entered ∧ ∃ taken,
      s.type.consume s.descriptor none = .ok taken ∧ taken.rest = none ∧
        cursor = .token (s.holding taken) ctx := by
  constructor
  · intro h
    cases h with
    | token here' _ consumed last =>
      cases here.symm.trans here'
      exact ⟨rfl, _, consumed, last, rfl⟩
    | waits here' switch _ _ =>
      cases here.symm.trans here'
      cases plain.symm.trans switch
  · rintro ⟨rfl, taken, consumed, last, rfl⟩
    exact .token here plain consumed last

theorem haltsAbsent_switch_iff {entered node : Nat} {s : Slot ε} (here : g.slot? entered = some s)
    (switch : s.isSwitch = true) {ctx : Context ε} {cursor : Cursor ε} :
    g.HaltsAbsent entered ctx node cursor ↔
      ∃ child ∈ g.tree.children entered, g.HaltsAbsent child (ctx.pushSwitch s) node cursor := by
  constructor
  · intro h
    cases h with
    | token here' plain _ _ =>
      cases here.symm.trans here'
      cases switch.symm.trans plain
    | waits here' _ below rest =>
      cases here.symm.trans here'
      exact ⟨_, below, rest⟩
  · rintro ⟨child, below, rest⟩
    exact .waits here switch below rest

theorem absent_below_stops {node : Nat} (ctx : Context ε)
    (h : ∀ child ∈ g.tree.children node, ∃ stops, Stops (g.tree.preorder child)
      (g.HaltsAbsent child ctx) (g.cursors child none ctx) stops) :
    ∃ stops, Stops ((g.tree.children node).flatMap g.tree.preorder)
      (fun n cursor => ∃ child ∈ g.tree.children node, g.HaltsAbsent child ctx n cursor)
      (g.cursorsBelow node none ctx) stops := by
  rw [cursorsBelow]
  cases leaf : g.tree.isLeaf node with
  | true =>
    have childless : g.tree.children node = [] := List.isEmpty_iff.1 leaf
    rw [if_pos rfl, trailingCursors, Context.approach_none]
    exact ⟨[], .nil _ (by simp [childless])⟩
  | false =>
    choose! stops h using h
    exact ⟨_, Stops.flatMap h⟩

theorem absent_stops (a : g.tree.Arena) (wordwise : g.Wordwise) {node : Nat}
    (inside : node < g.tree.size) {s : Slot ε} (here : g.slot? node = some s) (ctx : Context ε) :
    ∃ stops, Stops (g.tree.preorder node) (g.HaltsAbsent node ctx) (g.cursors node none ctx)
      stops := by
  revert s ctx
  refine a.descend (P := fun node => ∀ {s}, g.slot? node = some s → ∀ ctx, ∃ stops,
    Stops (g.tree.preorder node) (g.HaltsAbsent node ctx) (g.cursors node none ctx) stops)
    ?_ node inside
  intro node inside ih s here ctx
  rw [cursors_eq a inside]
  cases switch : s.isSwitch with
  | true =>
    rw [approach_of_switch here switch, a.preorder_eq inside]
    obtain ⟨stops, h⟩ := absent_below_stops (ctx.pushSwitch s) fun child below => by
      obtain ⟨_, here⟩ := slot?_child a below
      exact ih child below here (ctx.pushSwitch s)
    exact ⟨stops, h.sublist.cons _,
      fun n cursor => (h.mem_iff n cursor).trans (haltsAbsent_switch_iff here switch).symm,
      h.cursors_eq⟩
  | false =>
    rw [approach_of_plain here switch, Context.approach_none]
    cases consumed : s.type.consume s.descriptor none with
    | error e =>
      simp only [approachSlot, Slot.parse_error consumed]
      exact ⟨[], .nil _ (by simp [haltsAbsent_plain_iff here switch, consumed])⟩
    | ok taken =>
      have last : taken.rest = none := wordwise.rest_eq_none here consumed
      simp only [approachSlot_ok consumed, last]
      exact ⟨_, .singleton (a.mem_preorder_self inside)
        (by simp [haltsAbsent_plain_iff here switch, consumed, last])⟩

/-- The cursors of a line belong to nodes, at most one to each, in depth-first order. -/
theorem exists_stopsOn (a : g.tree.Arena) (wordwise : g.Wordwise) (line : Option String)
    (ctx : Context ε) :
    ∃ stops, Stops (g.tree.preorder Tree.root) (g.StopsOn Tree.root line ctx)
      (g.cursors Tree.root line ctx) stops := by
  rw [cursors_root a]
  cases line with
  | some line => exact exists_stops a a.nonempty line ctx
  | none =>
    obtain ⟨stops, h⟩ := absent_below_stops ctx fun child below => by
      obtain ⟨_, here⟩ := slot?_child a below
      exact absent_stops a wordwise (a.child_lt _ _ below) here ctx
    rw [a.preorder_eq a.nonempty]
    exact ⟨stops, h.sublist.cons _, h.mem_iff, h.cursors_eq⟩

/-! ## The root -/

theorem HaltsAbsent.ne_root (a : g.tree.Arena) {entered node : Nat} {ctx : Context ε}
    {cursor : Cursor ε} (h : g.HaltsAbsent entered ctx node cursor) : node ≠ Tree.root := by
  induction h with
  | token here _ _ _ =>
    rintro rfl
    rw [slot?, a.descriptor_root] at here
    cases here
  | waits _ _ _ _ ih => exact ih

/-- A way comes to the root only where it starts. -/
theorem Advances.root_eq (a : g.tree.Arena) {start last : Nat} {line line' : String}
    {ctx ctx' : Context ε} {chain : List (Slot ε)}
    (h : g.Advances start line ctx chain last line' ctx') (root : last = Tree.root) :
    start = Tree.root ∧ ctx' = ctx := by
  induction h with
  | here => exact ⟨root, rfl⟩
  | down below _ _ ih => exact absurd ((ih root).1 ▸ below) (a.root_not_mem_children _)

/-- Where nothing waits, the cursor of the root is on a flag that answers to no switch. -/
theorem StopsOn.root (a : g.tree.Arena) {line : Option String} {ctx : Context ε}
    (waiting : ctx.switches = []) {cursor : Cursor ε}
    (h : g.StopsOn Tree.root line ctx Tree.root cursor) : ∃ typed, cursor = .flag typed ctx := by
  cases line with
  | none =>
    obtain ⟨child, -, halts⟩ := h
    exact absurd rfl (halts.ne_root a)
  | some line =>
    cases (h : g.StopsAt Tree.root line ctx Tree.root cursor) with
    | before _ below _ => exact absurd below (a.root_not_mem_children _)
    | behind walk _ ends =>
      obtain ⟨-, rfl⟩ := walk.root_eq a rfl
      cases ends with
      | here points =>
        cases points with
        | flag _ => exact ⟨_, rfl⟩
        | value _ answer _ _ =>
          have := answer.length_lt
          simp [waiting] at this
      | pair takes _ =>
        have := takes.length_lt
        simp [waiting] at this

end Grammar

/-! ## The offers at a cursor -/

/-- The slot of the cursor is of a certain type, and has not been asked for its completions. -/
def Cursor.Ready (P : ArgumentType ε → Prop) : Cursor ε → Prop
  | .token slot _ | .value slot _ => P slot.type ∧ slot.offers = none
  | .flag _ _ => True

/-- The cursor is on a literal, or on a switch that is one. -/
def Cursor.OnLiteral : Cursor ε → Prop
  | .token slot _ | .value slot _ => slot.type = .literal
  | .flag _ _ => False

/-- What is offered at a cursor under all limits: one list under every limit that is large enough,
the first ones of that list under any other.  A literal offers one text at most, under every
limit. -/
structure Cursor.Offering (cursor : Cursor ε) (all : List String) : Prop where
  unlimited : ∃ enough, ∀ limit, enough ≤ limit → (cursor.limited limit).offers = all
  truncated : ¬ cursor.OnLiteral → ∀ limit, (cursor.limited limit).offers = all.take limit
  literal : cursor.OnLiteral → all.length ≤ 1 ∧ ∀ limit, (cursor.limited limit).offers = all

theorem Slot.exists_completions {s : Slot ε} (untold : s.offers = none)
    (type : s.type = .literal ∨ s.type.Truncates) (around : Surroundings ε) :
    ∃ all, (s.type ≠ .literal → ∀ limit, s.completions (around.limited limit) = all.take limit) ∧
      (s.type = .literal → all.length ≤ 1 ∧ ∀ limit, s.completions (around.limited limit) = all) ∧
      ∃ enough, ∀ limit, enough ≤ limit → s.completions (around.limited limit) = all := by
  cases read : s.token with
  | none =>
    have empty : ∀ limit, s.completions (around.limited limit) = [] := by
      intro limit
      simp only [Slot.completions, untold, read]
    exact ⟨[], by simp [empty]⟩
  | some token =>
    have whole : ∀ limit, s.completions (around.limited limit) =
        s.type.complete token s.descriptor (around.limited limit) := by
      intro limit
      simp only [Slot.completions, untold, read]
    simp only [whole]
    by_cases literal : s.type = .literal
    · refine ⟨ArgumentType.literalOffer token s.descriptor.aliases, fun h => absurd literal h,
        fun _ => ⟨ArgumentType.length_literalOffer_le _ _, fun limit => ?_⟩, 0, fun limit _ => ?_⟩
      · rw [literal]
        rfl
      · rw [literal]
        rfl
    · obtain ⟨all, offered⟩ := (type.resolve_left literal) token s.descriptor around
      refine ⟨all, fun _ => offered, fun h => absurd h literal, all.length, fun limit large => ?_⟩
      exact (offered limit).trans (List.take_of_length_le large)

theorem Cursor.exists_offering {cursor : Cursor ε}
    (ready : cursor.Ready fun type => type = .literal ∨ type.Truncates) :
    ∃ all, cursor.Offering all := by
  cases cursor with
  | token slot ctx =>
    obtain ⟨all, truncated, literal, unlimited⟩ :=
      Slot.exists_completions ready.2 ready.1 ctx.around
    exact ⟨all, unlimited, truncated, literal⟩
  | value slot ctx =>
    obtain ⟨all, truncated, literal, unlimited⟩ :=
      Slot.exists_completions ready.2 ready.1 ctx.around
    exact ⟨all, unlimited, truncated, literal⟩
  | flag typed ctx =>
    obtain ⟨all, truncated⟩ : ∃ all : List String,
        ∀ limit, ((Cursor.flag typed ctx).limited limit).offers = all.take limit :=
      ⟨ctx.switches.filterMap fun s =>
        (s.descriptor.flags.find? fun flag => Text.beginsWith flag typed).map ("-" ++ ·),
        fun _ => rfl⟩
    refine ⟨all, ⟨all.length, fun limit large => ?_⟩, fun _ => truncated, False.elim⟩
    exact (truncated limit).trans (List.take_of_length_le large)

namespace Cursor.Offering

variable {cursor : Cursor ε} {all : List String}

theorem sublist (h : cursor.Offering all) {fewer more : Nat} (le : fewer ≤ more) :
    (cursor.limited fewer).offers.Sublist (cursor.limited more).offers := by
  by_cases literal : cursor.OnLiteral
  · rw [(h.literal literal).2, (h.literal literal).2]
  · rw [h.truncated literal, h.truncated literal]
    exact (List.take_prefix_take_left le).sublist

theorem length_le (h : cursor.Offering all) (limit : Nat) :
    (cursor.limited limit).offers.length ≤ max limit 1 := by
  by_cases literal : cursor.OnLiteral
  · rw [(h.literal literal).2]
    exact (h.literal literal).1.trans (Nat.le_max_right _ _)
  · rw [h.truncated literal]
    exact (List.length_take_le _ _).trans (Nat.le_max_left _ _)

end Cursor.Offering

/-! ## The cursors of a line -/

section Ready

variable {P : ArgumentType ε → Prop}

theorem Context.Answers.types {ctx others : Context ε} {flag : String} {s : Slot ε}
    (h : ctx.Answers flag s others) (waiting : ∀ s ∈ ctx.switches, P s.type) :
    P s.type ∧ ∀ s ∈ others.switches, P s.type := by
  obtain @⟨before, after, s, he, -, -⟩ := h
  rw [he] at waiting
  exact ⟨waiting s (by simp), fun s hs => waiting s (by simp_all; tauto)⟩

/-- Where the waiting switches are of certain types, so is the cursor among the pairs, and so are
the switches that wait behind the pairs. -/
theorem Context.approach_ready {ctx : Context ε} (waiting : ∀ s ∈ ctx.switches, P s.type)
    (line : Option String) :
    (ctx.approach line).Meets (Cursor.Ready P) fun _ ctx' => ∀ s ∈ ctx'.switches, P s.type := by
  induction hn : ctx.switches.length using Nat.strongRecOn generalizing ctx line with
  | ind n ih =>
    rcases approach_cases ctx line with
      plain | ⟨ctx', rest, takes⟩ | ⟨cursor, points⟩ | ⟨ctx', lost⟩
    · rw [approach_of_not_dashed plain]
      exact waiting
    · have behind : ∀ s ∈ ctx'.switches, P s.type := by
        generalize some rest = rest at takes
        obtain ⟨-, answer, -⟩ := takes
        exact (answer.types waiting).2
      rw [approach_of_takes takes]
      exact ih _ (hn ▸ takes.length_lt) behind (some rest) rfl
    · rw [approach_of_points points]
      cases points with
      | flag word => trivial
      | value word answer consumed last => exact ⟨(answer.types waiting).1, rfl⟩
    · rw [lost]
      trivial

namespace Grammar

variable {g : Grammar ε}

theorem approach_ready (types : ∀ node slot, g.slot? node = some slot → P slot.type)
    {ctx : Context ε} (waiting : ∀ s ∈ ctx.switches, P s.type) (node : Nat)
    (line : Option String) :
    (g.approach node line ctx).Meets (Cursor.Ready P)
      fun _ ctx' => ∀ s ∈ ctx'.switches, P s.type := by
  cases here : g.slot? node with
  | none =>
    simp only [approach, here]
    exact waiting
  | some s =>
    have type := types node s here
    cases switch : s.isSwitch with
    | true =>
      rw [approach_of_switch here switch]
      intro s' hs'
      rcases List.mem_append.1 hs' with old | new
      · exact waiting s' old
      · exact List.mem_singleton.1 new ▸ type
    | false =>
      have pairs := Context.approach_ready waiting line
      rw [approach_of_plain here switch]
      generalize ctx.approach line = ahead at pairs ⊢
      cases ahead with
      | lost ctx' => trivial
      | «at» cursor => exact pairs
      | go rest ctx' =>
        simp only
        cases consumed : s.type.consume s.descriptor rest with
        | error e => simp [approachSlot, Slot.parse_error consumed, Approach.Meets]
        | ok taken =>
          rw [approachSlot_ok consumed]
          cases taken.rest with
          | none => exact ⟨type, rfl⟩
          | some rest' =>
            simp only
            cases (s.holding taken).value ctx'.around with
            | error e => trivial
            | ok v => exact pairs

/-- Where all nodes are of certain types, so is every cursor of a line, and it has not been asked. -/
theorem cursorsWithin_ready (types : ∀ node slot, g.slot? node = some slot → P slot.type)
    (levels node : Nat) (line : Option String) {ctx : Context ε}
    (waiting : ∀ s ∈ ctx.switches, P s.type) :
    ∀ cursor ∈ g.cursorsWithin levels node line ctx, cursor.Ready P :=
  forall_cursorsWithin (fun _ ctx => ∀ s ∈ ctx.switches, P s.type)
    (fun line _ waiting => Context.approach_ready waiting line)
    (fun node line _ waiting => approach_ready types waiting node line) levels node waiting

end Grammar

end Ready

namespace Grammar

variable {g : Grammar ε}

/-- Where nothing waits, the root has nothing to offer, whatever the limit is. -/
theorem StopsOn.offers_root (a : g.tree.Arena) {line : Option String} {ctx : Context ε}
    (waiting : ctx.switches = []) {cursor : Cursor ε}
    (h : g.StopsOn Tree.root line ctx Tree.root cursor) (limit : Nat) :
    (cursor.limited limit).offers = [] := by
  obtain ⟨typed, rfl⟩ := h.root a waiting
  simp [Cursor.limited, Context.limited, Cursor.offers, Context.flagOffers, waiting]

/-- The cursors of a line lie in the same places under all limits, at most one to each node, and at
each of them one list is cut. -/
theorem exists_offerings (a : g.tree.Arena) (wordwise : g.Wordwise)
    (types : ∀ node slot, g.slot? node = some slot →
      slot.type.Steady ∧ (slot.type = .literal ∨ slot.type.Truncates))
    (line : Option String) (env : ε) :
    ∃ stops : List (Nat × Cursor ε),
      (∀ limit, g.cursors Tree.root line { env, limit } =
        stops.map fun stop => stop.2.limited limit) ∧
      (stops.map Prod.fst).Sublist (g.tree.preorder Tree.root) ∧
      (∀ n cursor, (n, cursor) ∈ stops ↔ g.StopsOn Tree.root line { env } n cursor) ∧
      ∀ stop ∈ stops, ∃ all, stop.2.Offering all := by
  let ctx : Context ε := { env }
  obtain ⟨stops, sub, mem, cursors⟩ := exists_stopsOn a wordwise line ctx
  refine ⟨stops, fun limit => ?_, sub, mem, fun stop hs => ?_⟩
  · have moved := cursorsWithin_limited (fun node slot here => (types node slot here).1)
      g.tree.size Tree.root line ctx limit
    calc g.cursors Tree.root line { env, limit }
        = (g.cursors Tree.root line ctx).map (Cursor.limited limit) := moved
      _ = stops.map fun stop => stop.2.limited limit := by
          rw [cursors, List.map_map]
          rfl
  · have none : ∀ s ∈ ctx.switches, s.type = .literal ∨ s.type.Truncates := by simp [ctx]
    have ready := cursorsWithin_ready (P := fun type => type = .literal ∨ type.Truncates)
      (fun node slot here => (types node slot here).2) g.tree.size Tree.root line none
    have here : stop.2 ∈ g.cursors Tree.root line ctx := cursors ▸ List.mem_map_of_mem hs
    exact Cursor.exists_offering (ready stop.2 here)

end Grammar

theorem length_flatMap_le {α β : Type} {xs : List α} {f : α → List β} {bound : Nat}
    (h : ∀ x ∈ xs, (f x).length ≤ bound) : (xs.flatMap f).length ≤ bound * xs.length := by
  have each : ∀ n ∈ xs.map fun x => (f x).length, n ≤ bound := List.forall_mem_map.2 h
  have sum := List.sum_le_card_nsmul _ _ each
  rwa [List.length_map, smul_eq_mul, Nat.mul_comm, ← List.length_flatMap] at sum

theorem length_flatMap_stops_le {β : Type} {first : Nat} {nodes : List Nat}
    {stops : List (Nat × Cursor ε)} {f : Nat × Cursor ε → List β} {bound : Nat}
    (sub : (stops.map Prod.fst).Sublist (first :: nodes))
    (nothing : ∀ stop ∈ stops, stop.1 = first → f stop = [])
    (h : ∀ stop ∈ stops, (f stop).length ≤ bound) :
    (stops.flatMap f).length ≤ bound * nodes.length := by
  rcases List.sublist_cons_iff.1 sub with behind | ⟨others, eq, behind⟩
  · have count : stops.length ≤ nodes.length := by
      simpa only [List.length_map] using behind.length_le
    exact (length_flatMap_le h).trans (Nat.mul_le_mul_left bound count)
  · obtain ⟨stop, stops, rfl, rfl, rfl⟩ := List.map_eq_cons_iff.1 eq
    have count : stops.length ≤ nodes.length := by
      simpa only [List.length_map] using behind.length_le
    rw [List.forall_mem_cons] at h
    rw [List.flatMap_cons, nothing stop List.mem_cons_self rfl, List.nil_append]
    exact (length_flatMap_le h.2).trans (Nat.mul_le_mul_left bound count)

/-! ## The types of the engine and of the portal network -/

/-- Literals apart, the types of the engine offer the first ones of a list. -/
theorem ArgumentType.Basic.truncates {type : ArgumentType ε} (basic : type.Basic) :
    type = .literal ∨ type.Truncates := by
  rcases basic with rfl | rfl | rfl | rfl
  · exact .inr fun token d around => ⟨[], fun limit => List.take_nil.symm⟩
  · refine .inr fun token d around => ?_
    cases max : integerKind.bound d "max" with
    | none => exact ⟨[], fun limit => by simp [integer, max]⟩
    | some high =>
      obtain ⟨numbers, -, offered⟩ :=
        exists_lists token ((integerKind.bound d "min").getD 0).toInt high.toInt
      refine ⟨numbers.map toString, fun limit => ?_⟩
      rw [← List.map_take, ← offered]
      simp [integer, max, Surroundings.limited]
  · exact .inr fun token d around => ⟨[], fun limit => List.take_nil.symm⟩
  · exact .inl rfl

namespace Portal

/-- The types of the engine and of the portal network. -/
def Provided (type : ArgumentType Session) : Prop :=
  type.Basic ∨ type = kindType ∨ type = playerType

theorem Provided.consume_eq {type : ArgumentType Session} (h : Provided type) :
    type.consume = consumeToken := by
  rcases h with basic | rfl | rfl
  · exact basic.consume_eq
  · rfl
  · rfl

/-- These types do not look at the limit for a value, and all but literals offer the first ones of a
list. -/
theorem provided_limits {type : ArgumentType Session} (provided : Provided type) :
    type.Steady ∧ (type = .literal ∨ type.Truncates) := by
  rcases provided with basic | rfl | rfl
  · exact ⟨fun token d around limit => basic.result_eq token d _ _, basic.truncates⟩
  · refine ⟨fun token d around limit => rfl, .inr fun token d around => ?_⟩
    exact ⟨kinds.filter fun kind => Text.beginsWith kind (Text.lower token), fun limit => rfl⟩
  · refine ⟨fun token d around limit => rfl, .inr fun token d around => ?_⟩
    exact ⟨around.env.online.filter fun name => Text.beginsWith name token, fun limit => rfl⟩

/-- **A limit cuts the list of each cursor and does nothing else.**  Let the nodes be texts,
integers, doubles, literals, kinds of portals and players.  Whatever the line is, and also where
there is none, the cursors belong to nodes, at most one to each: those on which the way to the node
ends, whatever the limit is.  A completion offers what the cursors offer, one after the other.  Each
cursor has a list of all its candidates, which it offers under every limit that is large enough;
under any other limit it offers the first ones of that list, or on a literal the whole list, which
has one entry at most.  So with a smaller limit a part of the same offers is left, in the same
order.  The root has nothing to offer, and for each other node there are no more offers than the
limit, or than one. -/
theorem limit_truncates (g : Grammar Session) (built : g.tree.Built)
    (types : ∀ node slot, g.slot? node = some slot → Provided slot.type) (line : Option String)
    (env : Session) :
    ∃ stops : List (Nat × Cursor Session),
      (∀ limit, g.cursors Tree.root line { env, limit } =
        stops.map fun stop => stop.2.limited limit) ∧
      (∀ limit, (g.complete Tree.root line { env, limit }).texts =
        stops.flatMap fun stop => (stop.2.limited limit).offers) ∧
      (stops.map Prod.fst).Nodup ∧
      (∀ n cursor, (n, cursor) ∈ stops ↔ g.StopsOn Tree.root line { env } n cursor) ∧
      (∀ stop ∈ stops, stop.1 < g.tree.size ∧
        (stop.1 = Tree.root → ∀ limit, (stop.2.limited limit).offers = [])) ∧
      (∀ stop ∈ stops, ∃ all : List String,
        (∃ enough, ∀ limit, enough ≤ limit → (stop.2.limited limit).offers = all) ∧
        (¬ stop.2.OnLiteral → ∀ limit, (stop.2.limited limit).offers = all.take limit) ∧
        (stop.2.OnLiteral → all.length ≤ 1 ∧ ∀ limit, (stop.2.limited limit).offers = all)) ∧
      (∀ fewer more, fewer ≤ more →
        (g.complete Tree.root line { env, limit := fewer }).texts.Sublist
          (g.complete Tree.root line { env, limit := more }).texts) ∧
      ∀ limit, (g.complete Tree.root line { env, limit }).texts.length ≤
        max limit 1 * (g.tree.size - 1) := by
  have a := built.arena
  obtain ⟨stops, cursors, sub, mem, offering⟩ :=
    Grammar.exists_offerings a (fun node slot here => (types node slot here).consume_eq)
      (fun node slot here => provided_limits (types node slot here)) line env
  have texts : ∀ limit, (g.complete Tree.root line { env, limit }).texts =
      stops.flatMap fun stop => (stop.2.limited limit).offers := by
    intro limit
    rw [Grammar.complete, cursors, List.flatMap_map]
  have root : ∀ stop ∈ stops, stop.1 = Tree.root → ∀ limit,
      (stop.2.limited limit).offers = [] := by
    rintro ⟨_, cursor⟩ hs rfl
    exact ((mem _ cursor).1 hs).offers_root a rfl
  refine ⟨stops, cursors, texts, (a.nodup_preorder a.nonempty).sublist sub, mem,
    fun stop hs => ⟨?_, root stop hs⟩, fun stop hs => ?_, fun fewer more le => ?_, fun limit => ?_⟩
  · exact a.lt_size_of_mem_preorder a.nonempty (sub.subset (List.mem_map_of_mem hs))
  · obtain ⟨all, unlimited, truncated, literal⟩ := offering stop hs
    exact ⟨all, unlimited, truncated, literal⟩
  · rw [texts, texts]
    refine Grammar.sublist_flatMap fun stop hs => ?_
    obtain ⟨all, offers⟩ := offering stop hs
    exact offers.sublist le
  · have nodes := a.preorder_perm.length_eq
    rw [a.preorder_eq a.nonempty] at sub nodes
    rw [List.length_cons, List.length_range] at nodes
    rw [texts, ← nodes, Nat.add_sub_cancel]
    refine length_flatMap_stops_le sub (fun stop hs first => root stop hs first limit) ?_
    intro stop hs
    obtain ⟨all, offers⟩ := offering stop hs
    exact offers.length_le limit

theorem provided_lookup (name : String) : Provided (commandTypes.lookup name) := by
  rw [commandTypes, TypeTable.lookup_register, TypeTable.lookup_register]
  split
  · exact .inr (.inl rfl)
  · split
    · exact .inr (.inr rfl)
    · exact .inl (TypeTable.standard_basic name)

theorem commandTypes_provided (settings : Settings) (node : Nat) (slot : Slot Session)
    (here : (commandGrammar settings).slot? node = some slot) : Provided slot.type := by
  obtain ⟨d, -, rfl⟩ := Option.map_eq_some_iff.1 here
  exact provided_lookup d.name

/-- Two players begin with what has been typed, and a literal is offered under the limit zero. -/
theorem limit_truncates_give :
    let env : Session := { name := "ann", online := ["ann", "bob", "anna"] }
    let completions (line : String) (limit : Nat) :=
      ((commandGrammar {}).complete Tree.root (some line) { env, limit }).texts
    completions "give a" 1 = ["ann"] ∧ completions "give a" 5 = ["ann", "anna"] ∧
      completions "gi" 0 = ["give"] ∧
      (completions "give a" 1).Sublist (completions "give a" 5) ∧
      (completions "give a" 5).length ≤ max 5 1 * (commandTree.size - 1) := by
  intro env completions
  obtain ⟨stops, -, -, -, -, -, -, fewer, bound⟩ := limit_truncates (commandGrammar {})
    commandTree_built (commandTypes_provided {}) (some "give a") env
  exact ⟨by decide +kernel, by decide +kernel, by decide +kernel, fewer 1 5 (by decide), bound 5⟩

end Portal

end CommandTree
