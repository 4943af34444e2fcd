import CommandTree.Cursor
import CommandTree.Proofs.Derivation

/-!
# The way to the cursor

A completion reads the line on its own, by a recursion that looks much like the match.  Here the
way to the cursor is told by the rules of the match (`Takes`, `Reads`, `Passes`) with one thing
added: behind each value and each token that is read there is still input left.  Where it is used
up, there is the cursor: on the value of a switch or on a flag (`EndsIn`), or on the token of a node
(`Halts`).

Results:
* `Context.approach_eq_at_iff`, `Context.approach_eq_go_iff`: the pairs that a completion reads.
* `Grammar.approach_eq_at_iff`, `Grammar.approach_eq_go_iff`: what a completion makes of a node.
-/
namespace CommandTree

variable {ε : Type}

namespace Context

/-! ## Among the pairs -/

/-- The line ends in its first pair: behind the flag, or on the value of the switch that answers to
the flag. -/
inductive Points (ctx : Context ε) : Option String → Cursor ε → Prop
  | flag {typed : String} (word : ' ' ∉ typed.toList) :
      Points ctx (some ("-" ++ typed)) (.flag typed ctx)
  | value {flag value : String} {s : Slot ε} {others : Context ε} {taken : Consumed}
      (word : ' ' ∉ flag.toList) (answer : ctx.Answers flag s others)
      (consumed : s.type.consume s.descriptor (some value) = .ok taken)
      (last : taken.rest = none) :
      Points ctx (some ("-" ++ (flag ++ " " ++ value))) (.value (s.holding taken) others)

/-- Pairs at the start of the line are taken, with input left behind each, up to the one in which
the line ends. -/
inductive EndsIn : Context ε → Option String → Cursor ε → Prop
  | here {ctx : Context ε} {line : Option String} {cursor : Cursor ε}
      (points : ctx.Points line cursor) : EndsIn ctx line cursor
  | pair {ctx ctx' : Context ε} {line : Option String} {rest : String} {cursor : Cursor ε}
      (takes : ctx.Takes line ctx' (some rest)) (behind : EndsIn ctx' (some rest) cursor) :
      EndsIn ctx line cursor

theorem approach_eq (ctx : Context ε) (line : Option String) :
    ctx.approach line =
      match ctx.readPair line with
      | .absent => .go line ctx
      | .unfinished flag => .at (.flag flag ctx)
      | .unanswered => .lost ctx
      | .refused ctx => .lost ctx
      | .read switch none ctx => .at (.value switch ctx)
      | .read switch (some rest) ctx' => (ctx'.consume switch).approach (some rest) := by
  rw [approach]
  split <;> simp_all

theorem approach_of_not_dashed {ctx : Context ε} {line : Option String} (h : ¬ Dashed line) :
    ctx.approach line = .go line ctx := by
  rw [approach_eq, readPair_of_not_dashed ctx h]

theorem approach_none (ctx : Context ε) : ctx.approach none = .go none ctx :=
  approach_of_not_dashed (by simp [Dashed])

theorem readPair_taken {ctx others : Context ε} {flag value : String} {s : Slot ε}
    {taken : Consumed} (word : ' ' ∉ flag.toList) (answer : ctx.Answers flag s others)
    (consumed : s.type.consume s.descriptor (some value) = .ok taken) :
    ctx.readPair (some ("-" ++ (flag ++ " " ++ value))) =
      .read (s.holding taken) taken.rest others := by
  rw [readPair_answered word answer, consumed]

theorem approach_of_takes {ctx ctx' : Context ε} {line : Option String} {rest : String}
    (h : ctx.Takes line ctx' (some rest)) : ctx.approach line = ctx'.approach (some rest) := by
  -- the line behind a pair is known only together with its equation
  generalize hrest : some rest = behind at h
  cases h with
  | @pair flag value s others taken word answer consumed =>
    obtain ⟨token, behind⟩ := taken
    obtain rfl : some rest = behind := hrest
    rw [approach_eq, readPair_taken word answer consumed]

theorem approach_of_points {ctx : Context ε} {line : Option String} {cursor : Cursor ε}
    (h : ctx.Points line cursor) : ctx.approach line = .at cursor := by
  cases h with
  | flag word => rw [approach_eq, readPair_unfinished ctx word]
  | value word answer consumed last =>
    rw [approach_eq, readPair_taken word answer consumed, last]

/-- At the start of a line there is no pair, one with input left behind it, one in which the line
ends, or one that leads nowhere. -/
theorem approach_cases (ctx : Context ε) (line : Option String) :
    ¬ Dashed line ∨ (∃ ctx' rest, ctx.Takes line ctx' (some rest)) ∨
      (∃ cursor, ctx.Points line cursor) ∨ ∃ ctx', ctx.approach line = .lost ctx' := by
  rcases pair_cases ctx line with plain | ⟨ctx', line', takes⟩ | ⟨ctx', sticks⟩
  · exact .inl plain
  · cases line' with
    | some rest => exact .inr (.inl ⟨ctx', rest, takes⟩)
    | none =>
      generalize hrest : none = behind at takes
      obtain ⟨word, answer, consumed⟩ := takes
      exact .inr (.inr (.inl ⟨_, .value word answer consumed hrest.symm⟩))
  · refine .inr (.inr ?_)
    cases sticks with
    | unfinished word => exact .inl ⟨_, .flag word⟩
    | @unanswered flag value word unknown =>
      exact .inr ⟨ctx, by rw [approach_eq, readPair_unanswered word unknown]⟩
    | @refused flag value s others e word answer refused =>
      exact .inr ⟨ctx', by rw [approach_eq, readPair_answered word answer, refused]⟩

/-- A completion has its cursor among the pairs where the line ends in one of them. -/
theorem approach_eq_at_iff {ctx : Context ε} {line : Option String} {cursor : Cursor ε} :
    ctx.approach line = .at cursor ↔ ctx.EndsIn line cursor := by
  constructor
  · intro h
    -- every pair uses up a switch
    induction hn : ctx.switches.length using Nat.strongRecOn generalizing ctx line with
    | ind n ih =>
      rcases approach_cases ctx line with
        plain | ⟨ctx₁, rest, takes⟩ | ⟨cursor', points⟩ | ⟨ctx₁, lost⟩
      · rw [approach_of_not_dashed plain] at h
        cases h
      · rw [approach_of_takes takes] at h
        exact .pair takes (ih _ (hn ▸ takes.length_lt) h rfl)
      · rw [approach_of_points points] at h
        cases h
        exact .here points
      · rw [lost] at h
        cases h
  · intro h
    induction h with
    | here points => exact approach_of_points points
    | pair takes _ ih => rw [approach_of_takes takes, ih]

theorem EndsIn.unique {ctx : Context ε} {line : Option String} {cursor cursor' : Cursor ε}
    (h : ctx.EndsIn line cursor) (h' : ctx.EndsIn line cursor') : cursor = cursor' :=
  Approach.at.inj ((approach_eq_at_iff.2 h).symm.trans (approach_eq_at_iff.2 h'))

theorem Takes.isSome {ctx ctx' : Context ε} {line line' : Option String}
    (h : ctx.Takes line ctx' line') : ∃ text, line = some text := by
  cases h
  exact ⟨_, rfl⟩

theorem Reads.isSome {ctx ctx' : Context ε} {line : Option String} {rest : String}
    (h : ctx.Reads line ctx' (some rest)) : ∃ text, line = some text := by
  cases h with
  | none _ => exact ⟨_, rfl⟩
  | pair takes _ => exact takes.isSome

theorem Reads.unique {ctx ctx' ctx'' : Context ε} {line line' line'' : Option String}
    (h : ctx.Reads line ctx' line') (h' : ctx.Reads line ctx'' line'') :
    ctx' = ctx'' ∧ line' = line'' := by
  have same := (takePairs_of_reads h).symm.trans (takePairs_of_reads h')
  cases same
  exact ⟨rfl, rfl⟩

/-- A completion goes on behind the pairs where the rules take all of them and input is left. -/
theorem approach_eq_go_iff {ctx ctx' : Context ε} {line : Option String} {rest : String} :
    ctx.approach line = .go (some rest) ctx' ↔ ctx.Reads line ctx' (some rest) := by
  constructor
  · intro h
    induction hn : ctx.switches.length using Nat.strongRecOn generalizing ctx line with
    | ind n ih =>
      rcases approach_cases ctx line with
        plain | ⟨ctx₁, rest', takes⟩ | ⟨cursor, points⟩ | ⟨ctx₁, lost⟩
      · rw [approach_of_not_dashed plain] at h
        cases h
        exact .none plain
      · rw [approach_of_takes takes] at h
        exact .pair takes (ih _ (hn ▸ takes.length_lt) h rfl)
      · rw [approach_of_points points] at h
        cases h
      · rw [lost] at h
        cases h
  · intro h
    generalize hrest : some rest = behind at h ⊢
    induction h with
    | none plain => exact approach_of_not_dashed plain
    | @pair ctx ctx₁ ctx' line line₁ behind takes reads ih =>
      obtain ⟨text, rfl⟩ := (hrest ▸ reads : ctx₁.Reads line₁ ctx' (some rest)).isSome
      rw [approach_of_takes takes, ih hrest]

/-- On a line that has not ended, a completion never goes on without input. -/
theorem approach_ne_go_none {ctx ctx' : Context ε} {text : String} :
    ctx.approach (some text) ≠ .go none ctx' := by
  intro h
  induction hn : ctx.switches.length using Nat.strongRecOn generalizing ctx text with
  | ind n ih =>
    rcases approach_cases ctx (some text) with
      plain | ⟨ctx₁, rest, takes⟩ | ⟨cursor, points⟩ | ⟨ctx₁, lost⟩
    · rw [approach_of_not_dashed plain] at h
      cases h
    · rw [approach_of_takes takes] at h
      exact ih _ (hn ▸ takes.length_lt) h rfl
    · rw [approach_of_points points] at h
      cases h
    · rw [lost] at h
      cases h

end Context

namespace Grammar

variable {g : Grammar ε}

/-! ## One node -/

/-- A node lets the path go on by the rules of a match, and input is left behind each value and
behind the token. -/
structure Leads (g : Grammar ε) (node : Nat) (line : String) (ctx : Context ε) (slot : Slot ε)
    (rest : String) (ctx' : Context ε) : Prop where
  passes : g.Passes node (some line) ctx slot (some rest) ctx'
  left : slot.isSwitch = false → ∃ ctx₁ text, ctx.Reads (some line) ctx₁ (some text)

/-- The line ends at a node that is no switch: in the pairs in front of its token, or in the token,
which it has taken with nothing left behind. -/
inductive Halts (g : Grammar ε) (node : Nat) (line : String) (ctx : Context ε) : Cursor ε → Prop
  | pair {s : Slot ε} {cursor : Cursor ε} (here : g.slot? node = some s)
      (plain : s.isSwitch = false) (ends : ctx.EndsIn (some line) cursor) :
      Halts g node line ctx cursor
  | token {s : Slot ε} {ctx' : Context ε} {text : String} {taken : Consumed}
      (here : g.slot? node = some s) (plain : s.isSwitch = false)
      (pairs : ctx.Reads (some line) ctx' (some text))
      (consumed : s.type.consume s.descriptor (some text) = .ok taken)
      (last : taken.rest = none) : Halts g node line ctx (.token (s.holding taken) ctx')

theorem approach_of_switch {node : Nat} {s : Slot ε} (here : g.slot? node = some s)
    (switch : s.isSwitch = true) (line : Option String) (ctx : Context ε) :
    g.approach node line ctx = .go line (ctx.pushSwitch s) := by
  simp [approach, here, switch]

theorem approach_of_plain {node : Nat} {s : Slot ε} (here : g.slot? node = some s)
    (plain : s.isSwitch = false) (line : Option String) (ctx : Context ε) :
    g.approach node line ctx =
      match ctx.approach line with
      | .go rest ctx => approachSlot s rest ctx
      | other => other := by
  rw [approach, here]
  exact if_neg (by simp [plain])

theorem approachSlot_ok {s : Slot ε} {line : Option String} {taken : Consumed}
    (consumed : s.type.consume s.descriptor line = .ok taken) (ctx : Context ε) :
    approachSlot s line ctx =
      match taken.rest with
      | none => .at (.token (s.holding taken) ctx)
      | some rest =>
        match (s.holding taken).value ctx.around with
        | .ok _ => .go (some rest) (ctx.pushMatched ((s.holding taken).valued ctx.around))
        | .error _ => .lost ctx := by
  rw [approachSlot, Slot.parse_ok consumed]
  cases taken.rest <;> rfl

/-- What a completion makes of a node: the line ends there, the path goes on, or no cursor lies
this way. -/
theorem approach_node_cases {node : Nat} {s : Slot ε} (here : g.slot? node = some s)
    (line : String) (ctx : Context ε) :
    (∃ cursor, g.Halts node line ctx cursor ∧ g.approach node (some line) ctx = .at cursor) ∨
      (∃ slot rest ctx', g.Leads node line ctx slot rest ctx' ∧
        g.approach node (some line) ctx = .go (some rest) ctx') ∨
      ∃ ctx', g.approach node (some line) ctx = .lost ctx' := by
  cases hs : s.isSwitch with
  | true =>
    refine .inr (.inl ⟨s, line, ctx.pushSwitch s, ⟨.waits here hs, ?_⟩, ?_⟩)
    · simp [hs]
    · exact approach_of_switch here hs _ _
  | false =>
    rw [approach_of_plain here hs]
    cases hp : ctx.approach (some line) with
    | lost ctx' => exact .inr (.inr ⟨ctx', rfl⟩)
    | «at» cursor => exact .inl ⟨cursor, .pair here hs (Context.approach_eq_at_iff.1 hp), rfl⟩
    | go rest ctx' =>
      cases rest with
      | none => exact absurd hp Context.approach_ne_go_none
      | some text =>
        have pairs := Context.approach_eq_go_iff.1 hp
        cases hc : s.type.consume s.descriptor (some text) with
        | error e => exact .inr (.inr ⟨ctx', by simp only [approachSlot, Slot.parse_error hc]⟩)
        | ok taken =>
          simp only [approachSlot_ok hc]
          cases hr : taken.rest with
          | none => exact .inl ⟨_, .token here hs pairs hc hr, rfl⟩
          | some rest =>
            cases hv : (s.holding taken).value ctx'.around with
            | error e => exact .inr (.inr ⟨ctx', rfl⟩)
            | ok v =>
              have passes := Passes.takes here hs pairs hc hv
              rw [hr] at passes
              exact .inr (.inl ⟨_, rest, _, ⟨passes, fun _ => ⟨ctx', text, pairs⟩⟩, rfl⟩)

theorem approach_of_halts {node : Nat} {line : String} {ctx : Context ε} {cursor : Cursor ε}
    (h : g.Halts node line ctx cursor) : g.approach node (some line) ctx = .at cursor := by
  cases h with
  | pair here plain ends =>
    rw [approach_of_plain here plain, Context.approach_eq_at_iff.2 ends]
  | token here plain pairs consumed last =>
    rw [approach_of_plain here plain, Context.approach_eq_go_iff.2 pairs]
    simp only [approachSlot_ok consumed, last]

/-- A line ends at a node with at most one cursor. -/
theorem Halts.unique {node : Nat} {line : String} {ctx : Context ε} {cursor cursor' : Cursor ε}
    (h : g.Halts node line ctx cursor) (h' : g.Halts node line ctx cursor') : cursor = cursor' :=
  Approach.at.inj ((approach_of_halts h).symm.trans (approach_of_halts h'))

theorem approach_of_leads {node : Nat} {line rest : String} {ctx ctx' : Context ε} {slot : Slot ε}
    (h : g.Leads node line ctx slot rest ctx') :
    g.approach node (some line) ctx = .go (some rest) ctx' := by
  obtain ⟨passes, left⟩ := h
  generalize hrest : some rest = behind at passes
  cases passes with
  | waits here switch => rw [approach_of_switch here switch]
  | @takes s ctx₁ line' taken v here plain pairs consumed value =>
    -- what is left behind the pairs is what the match has read there
    obtain ⟨ctx₂, text, reads⟩ := left plain
    obtain ⟨rfl, rfl⟩ := pairs.unique reads
    rw [approach_of_plain here plain, Context.approach_eq_go_iff.2 reads]
    simp only [approachSlot_ok consumed, ← hrest, value]

end Grammar

end CommandTree
