import CommandTree.Grammar
import CommandTree.Proofs.Tokens

/-!
# Derivable paths

The rules by which a path of nodes reads a line, stated as relations and without the recursion of
the match.  A pair is taken by the first waiting switch that answers to its flag (`Takes`), or it
stands in the way (`Sticks`).  A node lets the path go on (`Passes`) or ends it with a refused
value (`Refuses`); where neither holds, no path leads through the node.  `Derives` are the paths
below a node with the context that each leaves.

Results:
* `Context.takePairs_eq_through_iff`, `takeTrailing_eq_iff`: the pairs that a match reads.
* `Grammar.enter_of_passes`, `Grammar.enter_of_refuses`, `Grammar.enter_cases`: what entering a
  node comes to.
-/
namespace CommandTree

variable {ε : Type}

def nodesOf (chain : List (Slot ε)) : List Nat := chain.map fun s => s.node

@[simp] theorem nodesOf_nil : nodesOf ([] : List (Slot ε)) = [] := rfl

@[simp] theorem nodesOf_cons (s : Slot ε) (chain : List (Slot ε)) :
    nodesOf (s :: chain) = s.node :: nodesOf chain := rfl

@[simp] theorem nodesOf_append (chain rest : List (Slot ε)) :
    nodesOf (chain ++ rest) = nodesOf chain ++ nodesOf rest := List.map_append

@[simp] theorem length_nodesOf (chain : List (Slot ε)) : (nodesOf chain).length = chain.length :=
  List.length_map _

/-- The slot with what it has taken. -/
def Slot.holding (s : Slot ε) (taken : Consumed) : Slot ε :=
  { s with parsed := true, token := taken.token, answer := none, offers := none }

@[simp] theorem Slot.holding_node (s : Slot ε) (taken : Consumed) :
    (s.holding taken).node = s.node := rfl

@[simp] theorem Slot.valued_node (s : Slot ε) (around : Surroundings ε) :
    (s.valued around).node = s.node := rfl

theorem Slot.parse_ok {s : Slot ε} {line : Option String} {taken : Consumed}
    (h : s.type.consume s.descriptor line = .ok taken) :
    s.parse line = (s.holding taken, .ok taken.rest) := by
  simp only [parse, h]; rfl

/-- A line that begins with a dash, where a pair should stand. -/
def Dashed (line : Option String) : Prop := ∃ text, line = some ("-" ++ text)

theorem not_dashed_none : ¬ Dashed none := fun ⟨_, h⟩ => nomatch h

theorem dashed_some_iff {line : String} : Dashed (some line) ↔ line.toList.head? = some '-' := by
  constructor
  · rintro ⟨text, he⟩
    rw [Option.some.inj he, String.toList_append]
    rfl
  · intro h
    obtain ⟨cs, hcs⟩ := List.head?_eq_some_iff.1 h
    refine ⟨.ofList cs, congrArg some ?_⟩
    rw [← String.toList_inj, hcs]
    simp

namespace Context

/-! ## One pair -/

/-- The first waiting switch that answers to a flag, and the context without it. -/
inductive Answers (ctx : Context ε) (flag : String) : Slot ε → Context ε → Prop
  | first {before after : List (Slot ε)} {s : Slot ε}
      (waiting : ctx.switches = before ++ s :: after)
      (others : ∀ b ∈ before, flag ∉ b.descriptor.flags)
      (answers : flag ∈ s.descriptor.flags) :
      Answers ctx flag s { ctx with switches := before ++ after }

/-- A pair at the start of the line is taken; the context behind it, and what follows it. -/
inductive Takes (ctx : Context ε) : Option String → Context ε → Option String → Prop
  | pair {flag value : String} {s : Slot ε} {others : Context ε} {taken : Consumed}
      (word : ' ' ∉ flag.toList) (answer : ctx.Answers flag s others)
      (consumed : s.type.consume s.descriptor (some value) = .ok taken) :
      Takes ctx (some ("-" ++ (flag ++ " " ++ value))) (others.consume (s.holding taken)) taken.rest

/-- No pair can be taken although the line begins with a dash; the context left behind.  A switch
whose value is refused has been taken off by then. -/
inductive Sticks (ctx : Context ε) : Option String → Context ε → Prop
  | unfinished {flag : String} (word : ' ' ∉ flag.toList) : Sticks ctx (some ("-" ++ flag)) ctx
  | unanswered {flag value : String} (word : ' ' ∉ flag.toList)
      (unknown : ∀ s ∈ ctx.switches, flag ∉ s.descriptor.flags) :
      Sticks ctx (some ("-" ++ (flag ++ " " ++ value))) ctx
  | refused {flag value : String} {s : Slot ε} {others : Context ε} {e : ParseError}
      (word : ' ' ∉ flag.toList) (answer : ctx.Answers flag s others)
      (refused : s.type.consume s.descriptor (some value) = .error e) :
      Sticks ctx (some ("-" ++ (flag ++ " " ++ value))) others

theorem mem_flags_iff (s : Slot ε) (flag : String) :
    s.answers flag = true ↔ flag ∈ s.descriptor.flags := by
  simp [Slot.answers]

theorem removeSwitch_eq_some_iff {flag : String} {switches others : List (Slot ε)} {s : Slot ε} :
    removeSwitch flag switches = some (s, others) ↔
      ∃ before after, switches = before ++ s :: after ∧ others = before ++ after ∧
        (∀ b ∈ before, flag ∉ b.descriptor.flags) ∧ flag ∈ s.descriptor.flags := by
  induction switches generalizing others with
  | nil => simp [removeSwitch]
  | cons t ts ih =>
    unfold removeSwitch
    by_cases ht : t.answers flag = true
    · rw [if_pos ht]
      have hmem := (mem_flags_iff t flag).1 ht
      constructor
      · rintro h
        cases h
        exact ⟨[], ts, rfl, rfl, by simp, hmem⟩
      · rintro ⟨before, after, he, rfl, hb, hs⟩
        cases before with
        | nil => cases he; rfl
        | cons b bs => cases he; exact absurd hmem (hb _ List.mem_cons_self)
    · rw [if_neg ht]
      have hmem : flag ∉ t.descriptor.flags := fun h => ht ((mem_flags_iff t flag).2 h)
      constructor
      · intro h
        obtain ⟨⟨s', rest⟩, hr, he⟩ := Option.map_eq_some_iff.1 h
        cases he
        obtain ⟨before, after, rfl, rfl, hb, hs⟩ := ih.1 hr
        exact ⟨t :: before, after, rfl, rfl, by simpa using ⟨hmem, hb⟩, hs⟩
      · rintro ⟨before, after, he, rfl, hb, hs⟩
        cases before with
        | nil => cases he; exact absurd hs hmem
        | cons b bs =>
          cases he
          have hr := (@ih (bs ++ after)).2 ⟨bs, after, rfl, rfl,
            fun x hx => hb x (List.mem_cons_of_mem _ hx), hs⟩
          rw [hr]; rfl

theorem takeSwitch_eq_some_iff {ctx others : Context ε} {flag : String} {s : Slot ε} :
    ctx.takeSwitch flag = some (s, others) ↔ ctx.Answers flag s others := by
  unfold takeSwitch
  constructor
  · intro h
    obtain ⟨⟨s', rest⟩, hr, he⟩ := Option.map_eq_some_iff.1 h
    cases he
    obtain ⟨before, after, hw, rfl, hb, hs⟩ := removeSwitch_eq_some_iff.1 hr
    exact .first hw hb hs
  · rintro ⟨hw, hb, hs⟩
    rw [removeSwitch_eq_some_iff.2 ⟨_, _, hw, rfl, hb, hs⟩]
    rfl

theorem takeSwitch_eq_none_iff {ctx : Context ε} {flag : String} :
    ctx.takeSwitch flag = none ↔ ∀ s ∈ ctx.switches, flag ∉ s.descriptor.flags := by
  rw [takeSwitch, Option.map_eq_none_iff]
  induction ctx.switches with
  | nil => simp [removeSwitch]
  | cons t ts ih =>
    unfold removeSwitch
    by_cases ht : t.answers flag = true
    · simp [ht, (mem_flags_iff t flag).1 ht]
    · have hmem : flag ∉ t.descriptor.flags := fun h => ht ((mem_flags_iff t flag).2 h)
      simp [ht, hmem, ih]

theorem readPair_of_not_dashed (ctx : Context ε) {line : Option String} (h : ¬ Dashed line) :
    ctx.readPair line = .absent := by
  have hn : line.bind Text.afterDash = none := by
    rw [Option.bind_eq_none_iff]
    intro text ht
    rw [Option.eq_none_iff_forall_ne_some]
    intro rest hr
    exact h ⟨rest, by rw [ht, Text.afterDash_eq_some_iff.1 hr]⟩
  simp only [readPair, hn]

theorem afterDash_dash (text : String) :
    (some ("-" ++ text)).bind Text.afterDash = some text :=
  Text.afterDash_eq_some_iff.2 rfl

theorem readPair_unfinished (ctx : Context ε) {flag : String} (word : ' ' ∉ flag.toList) :
    ctx.readPair (some ("-" ++ flag)) = .unfinished flag := by
  simp only [readPair, afterDash_dash, Text.cut_eq_none_iff.2 ⟨word, rfl⟩]

theorem readPair_unanswered {ctx : Context ε} {flag : String} (word : ' ' ∉ flag.toList)
    (unknown : ∀ s ∈ ctx.switches, flag ∉ s.descriptor.flags) (value : String) :
    ctx.readPair (some ("-" ++ (flag ++ " " ++ value))) = .unanswered := by
  simp only [readPair, afterDash_dash, Text.cut_eq_some_iff.2 ⟨word, rfl⟩,
    takeSwitch_eq_none_iff.2 unknown]

theorem readPair_answered {ctx others : Context ε} {flag : String} {s : Slot ε}
    (word : ' ' ∉ flag.toList) (answer : ctx.Answers flag s others) (value : String) :
    ctx.readPair (some ("-" ++ (flag ++ " " ++ value))) =
      match s.type.consume s.descriptor (some value) with
      | .ok taken => .read (s.holding taken) taken.rest others
      | .error _ => .refused others := by
  simp only [readPair, afterDash_dash, Text.cut_eq_some_iff.2 ⟨word, rfl⟩,
    takeSwitch_eq_some_iff.2 answer]
  cases hc : s.type.consume s.descriptor (some value) with
  | ok taken => simp only [Slot.parse_ok hc]
  | error e => simp only [Slot.parse_error hc]

/-! ## All pairs -/

/-- All pairs at the start of the line are taken. -/
inductive Reads : Context ε → Option String → Context ε → Option String → Prop
  | none {ctx : Context ε} {line : Option String} (plain : ¬ Dashed line) : Reads ctx line ctx line
  | pair {ctx ctx' ctx'' : Context ε} {line line' line'' : Option String}
      (takes : ctx.Takes line ctx' line') (rest : Reads ctx' line' ctx'' line'') :
      Reads ctx line ctx'' line''

theorem Reads.not_dashed {ctx ctx' : Context ε} {line line' : Option String}
    (h : ctx.Reads line ctx' line') : ¬ Dashed line' := by
  induction h with
  | none plain => exact plain
  | pair _ _ ih => exact ih

/-- Pairs are taken up to the first that cannot be; the context left behind. -/
inductive Trails : Context ε → Option String → Context ε → Prop
  | none {ctx : Context ε} {line : Option String} (plain : ¬ Dashed line) : Trails ctx line ctx
  | pair {ctx ctx' ctx'' : Context ε} {line line' : Option String}
      (takes : ctx.Takes line ctx' line') (rest : Trails ctx' line' ctx'') : Trails ctx line ctx''
  | stuck {ctx ctx' : Context ε} {line : Option String} (sticks : ctx.Sticks line ctx') :
      Trails ctx line ctx'

/-- At the start of a line there is no pair, or one that is taken, or one that is not. -/
theorem pair_cases (ctx : Context ε) (line : Option String) :
    ¬ Dashed line ∨ (∃ ctx' line', ctx.Takes line ctx' line') ∨ ∃ ctx', ctx.Sticks line ctx' := by
  by_cases hd : Dashed line
  · right
    obtain ⟨text, rfl⟩ := hd
    cases hc : Text.cut ' ' text with
    | mk flag after =>
      cases after with
      | none =>
        obtain ⟨word, rfl⟩ := Text.cut_eq_none_iff.1 hc
        exact .inr ⟨ctx, .unfinished word⟩
      | some value =>
        obtain ⟨word, rfl⟩ := Text.cut_eq_some_iff.1 hc
        cases hs : ctx.takeSwitch flag with
        | none => exact .inr ⟨ctx, .unanswered word (takeSwitch_eq_none_iff.1 hs)⟩
        | some found =>
          obtain ⟨s, others⟩ := found
          have answer := takeSwitch_eq_some_iff.1 hs
          cases hp : s.type.consume s.descriptor (some value) with
          | ok taken => exact .inl ⟨_, _, .pair word answer hp⟩
          | error e => exact .inr ⟨others, .refused word answer hp⟩
  · exact .inl hd

theorem Answers.length_lt {ctx others : Context ε} {flag : String} {s : Slot ε}
    (h : ctx.Answers flag s others) : others.switches.length < ctx.switches.length :=
  length_switches_takeSwitch (takeSwitch_eq_some_iff.2 h)

theorem Takes.length_lt {ctx ctx' : Context ε} {line line' : Option String}
    (h : ctx.Takes line ctx' line') : ctx'.switches.length < ctx.switches.length := by
  obtain ⟨-, answer, -⟩ := h
  exact answer.length_lt

theorem takePairs_eq (ctx : Context ε) (line : Option String) :
    ctx.takePairs line =
      match ctx.readPair line with
      | .absent => .through line ctx
      | .unfinished _ | .unanswered => .stuck ctx
      | .refused ctx => .stuck ctx
      | .read switch rest ctx' => (ctx'.consume switch).takePairs rest := by
  rw [takePairs]
  split <;> simp_all

theorem takePairs_of_not_dashed {ctx : Context ε} {line : Option String} (h : ¬ Dashed line) :
    ctx.takePairs line = .through line ctx := by
  rw [takePairs_eq, readPair_of_not_dashed ctx h]

theorem takePairs_of_takes {ctx ctx' : Context ε} {line line' : Option String}
    (h : ctx.Takes line ctx' line') : ctx.takePairs line = ctx'.takePairs line' := by
  cases h with
  | pair word answer consumed => rw [takePairs_eq, readPair_answered word answer, consumed]

theorem takePairs_of_sticks {ctx ctx' : Context ε} {line : Option String}
    (h : ctx.Sticks line ctx') : ctx.takePairs line = .stuck ctx' := by
  cases h with
  | unfinished word => rw [takePairs_eq, readPair_unfinished ctx word]
  | unanswered word unknown => rw [takePairs_eq, readPair_unanswered word unknown]
  | refused word answer refused => rw [takePairs_eq, readPair_answered word answer, refused]

theorem takePairs_of_reads {ctx ctx' : Context ε} {line line' : Option String}
    (h : ctx.Reads line ctx' line') : ctx.takePairs line = .through line' ctx' := by
  induction h with
  | none plain => exact takePairs_of_not_dashed plain
  | pair takes _ ih => rw [takePairs_of_takes takes, ih]

/-- The pairs that a match reads before a token are those that the rules take. -/
theorem takePairs_eq_through_iff {ctx ctx' : Context ε} {line line' : Option String} :
    ctx.takePairs line = .through line' ctx' ↔ ctx.Reads line ctx' line' := by
  refine ⟨fun h => ?_, takePairs_of_reads⟩
  -- every pair uses up a switch
  induction hn : ctx.switches.length using Nat.strongRecOn generalizing ctx line with
  | ind n ih =>
    rcases pair_cases ctx line with plain | ⟨ctx₁, line₁, takes⟩ | ⟨ctx₁, sticks⟩
    · rw [takePairs_of_not_dashed plain] at h
      cases h
      exact .none plain
    · rw [takePairs_of_takes takes] at h
      exact .pair takes (ih _ (hn ▸ takes.length_lt) h rfl)
    · rw [takePairs_of_sticks sticks] at h
      cases h

theorem takeTrailing_of_takes {ctx ctx' : Context ε} {line line' : Option String}
    (h : ctx.Takes line ctx' line') :
    Grammar.takeTrailing ctx line = Grammar.takeTrailing ctx' line' := by
  rw [Grammar.takeTrailing, Grammar.takeTrailing, takePairs_of_takes h]

/-- The pairs that a match reads behind a path are those that the rules take. -/
theorem takeTrailing_eq_iff {ctx ctx' : Context ε} {line : Option String} :
    Grammar.takeTrailing ctx line = ctx' ↔ ctx.Trails line ctx' := by
  constructor
  · intro h
    induction hn : ctx.switches.length using Nat.strongRecOn generalizing ctx line with
    | ind n ih =>
      rcases pair_cases ctx line with plain | ⟨ctx₁, line₁, takes⟩ | ⟨ctx₁, sticks⟩
      · rw [Grammar.takeTrailing, takePairs_of_not_dashed plain] at h
        exact h ▸ .none plain
      · rw [takeTrailing_of_takes takes] at h
        exact .pair takes (ih _ (hn ▸ takes.length_lt) h rfl)
      · rw [Grammar.takeTrailing, takePairs_of_sticks sticks] at h
        exact h ▸ .stuck sticks
  · intro h
    induction h with
    | none plain => rw [Grammar.takeTrailing, takePairs_of_not_dashed plain]
    | pair takes _ ih => rw [takeTrailing_of_takes takes, ih]
    | stuck sticks => rw [Grammar.takeTrailing, takePairs_of_sticks sticks]

end Context

namespace Grammar

/-! ## One node -/

/-- A node lets the path go on: a switch waits, any other node takes its token and has a value.
The slot as it stands in the chain, the line behind it, and the context. -/
inductive Passes (g : Grammar ε) (node : Nat) (line : Option String) (ctx : Context ε) :
    Slot ε → Option String → Context ε → Prop
  | waits {s : Slot ε} (here : g.slot? node = some s) (switch : s.isSwitch = true) :
      Passes g node line ctx s line (ctx.pushSwitch s)
  | takes {s : Slot ε} {ctx' : Context ε} {line' : Option String} {taken : Consumed} {v : Value}
      (here : g.slot? node = some s) (plain : s.isSwitch = false)
      (pairs : ctx.Reads line ctx' line')
      (consumed : s.type.consume s.descriptor line' = .ok taken)
      (value : (s.holding taken).value ctx'.around = .ok v) :
      Passes g node line ctx ((s.holding taken).valued ctx'.around) taken.rest
        (ctx'.pushMatched ((s.holding taken).valued ctx'.around))

/-- A node that is no switch takes its token and refuses the value, which ends the path there. -/
inductive Refuses (g : Grammar ε) (node : Nat) (line : Option String) (ctx : Context ε) :
    Slot ε → Context ε → Prop
  | value {s : Slot ε} {ctx' : Context ε} {line' : Option String} {taken : Consumed}
      {message : String} (here : g.slot? node = some s) (plain : s.isSwitch = false)
      (pairs : ctx.Reads line ctx' line')
      (consumed : s.type.consume s.descriptor line' = .ok taken)
      (refused : (s.holding taken).value ctx'.around = .error (.invalid message)) :
      Refuses g node line ctx ((s.holding taken).valued ctx'.around)
        (ctx'.pushMatched ((s.holding taken).valued ctx'.around))

theorem enter_of_slot? {g : Grammar ε} {node : Nat} {s : Slot ε} (here : g.slot? node = some s)
    (plain : s.isSwitch = false) (line : Option String) (ctx : Context ε) :
    g.enter node line ctx =
      match ctx.takePairs line with
      | .stuck ctx => .stop ⟨[], ctx⟩
      | .through line ctx => enterSlot s line ctx := by
  rw [enter, here]
  exact if_neg (by simp [plain])

theorem enterSlot_ok {s : Slot ε} {line : Option String} {taken : Consumed}
    (consumed : s.type.consume s.descriptor line = .ok taken) (ctx : Context ε) :
    enterSlot s line ctx =
      match (s.holding taken).value ctx.around with
      | .ok _ => .go ⟨[(s.holding taken).valued ctx.around],
          ctx.pushMatched ((s.holding taken).valued ctx.around)⟩ taken.rest
      | .error (.invalid _) => .stop ⟨[(s.holding taken).valued ctx.around],
          ctx.pushMatched ((s.holding taken).valued ctx.around)⟩
      | .error _ => .stop ⟨[], ctx.pushMatched ((s.holding taken).valued ctx.around)⟩ := by
  rw [enterSlot, Slot.parse_ok consumed]
  rfl

theorem enter_of_passes {g : Grammar ε} {node : Nat} {line rest : Option String}
    {ctx ctx' : Context ε} {slot : Slot ε} (h : g.Passes node line ctx slot rest ctx') :
    g.enter node line ctx = .go ⟨[slot], ctx'⟩ rest := by
  cases h with
  | waits here switch => simp [enter, here, switch]
  | takes here plain pairs consumed value =>
    rw [enter_of_slot? here plain, Context.takePairs_of_reads pairs]
    simp only [enterSlot_ok consumed, value]

theorem enter_of_refuses {g : Grammar ε} {node : Nat} {line : Option String}
    {ctx ctx' : Context ε} {slot : Slot ε} (h : g.Refuses node line ctx slot ctx') :
    g.enter node line ctx = .stop ⟨[slot], ctx'⟩ := by
  cases h with
  | value here plain pairs consumed refused =>
    rw [enter_of_slot? here plain, Context.takePairs_of_reads pairs]
    simp only [enterSlot_ok consumed, refused]

/-- A node that is not the root lets the path go on, ends it, or is on no path. -/
theorem enter_cases {g : Grammar ε} {node : Nat} {s : Slot ε} (here : g.slot? node = some s)
    (line : Option String) (ctx : Context ε) :
    (∃ slot rest ctx', g.Passes node line ctx slot rest ctx') ∨
      (∃ slot ctx', g.Refuses node line ctx slot ctx') ∨
        ∃ ctx', g.enter node line ctx = .stop ⟨[], ctx'⟩ := by
  cases hs : s.isSwitch with
  | true => exact .inl ⟨_, _, _, .waits here hs⟩
  | false =>
    rw [enter_of_slot? here hs]
    cases hp : ctx.takePairs line with
    | stuck ctx' => exact .inr (.inr ⟨ctx', rfl⟩)
    | through line' ctx' =>
      have pairs := Context.takePairs_eq_through_iff.1 hp
      cases hc : s.type.consume s.descriptor line' with
      | error e => exact .inr (.inr ⟨ctx', by simp only [enterSlot, Slot.parse_error hc]⟩)
      | ok taken =>
        simp only [enterSlot_ok hc]
        cases hv : (s.holding taken).value ctx'.around with
        | ok v => exact .inl ⟨_, _, _, .takes here hs pairs hc hv⟩
        | error e =>
          cases e with
          | invalid message => exact .inr (.inl ⟨_, _, .value here hs pairs hc hv⟩)
          | requiredArgument => exact .inr (.inr ⟨_, rfl⟩)
          | noResult => exact .inr (.inr ⟨_, rfl⟩)

theorem slot?_node {g : Grammar ε} {node : Nat} {s : Slot ε} (here : g.slot? node = some s) :
    s.node = node := by
  obtain ⟨d, -, rfl⟩ := Option.map_eq_some_iff.1 here
  rfl

theorem Passes.node_eq {g : Grammar ε} {node : Nat} {line rest : Option String}
    {ctx ctx' : Context ε} {slot : Slot ε} (h : g.Passes node line ctx slot rest ctx') :
    slot.node = node := by
  cases h with
  | waits here _ => exact slot?_node here
  | takes here _ _ _ _ => rw [Slot.valued_node, Slot.holding_node, slot?_node here]

theorem Refuses.node_eq {g : Grammar ε} {node : Nat} {line : Option String}
    {ctx ctx' : Context ε} {slot : Slot ε} (h : g.Refuses node line ctx slot ctx') :
    slot.node = node := by
  cases h with
  | value here _ _ _ _ => rw [Slot.valued_node, Slot.holding_node, slot?_node here]

/-! ## Whole paths -/

/-- The paths below a node that has been left with this line and this context: the slots of the
path, and the context behind it.  A path may stop at any node that has children; behind a node
that has none, the pairs that follow are still taken. -/
inductive Derives (g : Grammar ε) :
    Nat → Option String → Context ε → List (Slot ε) → Context ε → Prop
  | stop {node : Nat} {line : Option String} {ctx : Context ε}
      (inner : g.tree.isLeaf node = false) : Derives g node line ctx [] ctx
  | leaf {node : Nat} {line : Option String} {ctx ctx' : Context ε}
      (leaf : g.tree.isLeaf node = true) (trailing : ctx.Trails line ctx') :
      Derives g node line ctx [] ctx'
  | refused {node child : Nat} {line : Option String} {ctx ctx' : Context ε} {slot : Slot ε}
      (below : child ∈ g.tree.children node) (refuses : g.Refuses child line ctx slot ctx') :
      Derives g node line ctx [slot] ctx'
  | step {node child : Nat} {line line' : Option String} {ctx ctx' ctx'' : Context ε}
      {slot : Slot ε} {chain : List (Slot ε)} (below : child ∈ g.tree.children node)
      (passes : g.Passes child line ctx slot line' ctx')
      (rest : Derives g child line' ctx' chain ctx'') :
      Derives g node line ctx (slot :: chain) ctx''

theorem derives_cons_iff {g : Grammar ε} {node : Nat} {line : Option String} {ctx ctx' : Context ε}
    {slot : Slot ε} {chain : List (Slot ε)} :
    g.Derives node line ctx (slot :: chain) ctx' ↔
      ∃ child ∈ g.tree.children node,
        (∃ rest ctx₁, g.Passes child line ctx slot rest ctx₁ ∧
            g.Derives child rest ctx₁ chain ctx') ∨
          (chain = [] ∧ g.Refuses child line ctx slot ctx') := by
  constructor
  · intro h
    cases h with
    | refused below refuses => exact ⟨_, below, .inr ⟨rfl, refuses⟩⟩
    | step below passes rest => exact ⟨_, below, .inl ⟨_, _, passes, rest⟩⟩
  · rintro ⟨child, below, ⟨rest, ctx₁, passes, derives⟩ | ⟨rfl, refuses⟩⟩
    · exact .step below passes derives
    · exact .refused below refuses

end Grammar

end CommandTree
