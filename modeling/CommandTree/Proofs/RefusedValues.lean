import CommandTree.Proofs.Completion
import CommandTree.Proofs.Spelling

/-!
# Completions behind a refused value

A match that meets a refused value on its path tells the host about it.  A completion has no such
way to tell, and offers nothing behind a token that its node refuses.  The value of a switch is
another matter: the pairs in front of a token are taken off the line without asking the switches,
neither by a match, which asks them when the path is complete, nor by a completion, which never
does.  So a completion goes on behind a value that every call of the completed line will refuse.

To say which values a line has read before its cursor, the way to a cursor is told once more without
any verdict (`SkimsTo`): every node takes its token, and what its type makes of the token is only
written down.  A completion stops at those cursors of these ways at which no token has been refused.

Results:
* `stopsAt_iff_skimsTo`: the ways of a completion are those on which no token is refused.
* `SkimsTo.unique`: a node has at most one cursor.
* `refused_values`: where nothing is offered behind a refused value, and where something is.
-/
namespace CommandTree

variable {ε : Type}

/-- The type of the slot refuses the token that the slot has taken. -/
def Slot.Refused (s : Slot ε) (around : Surroundings ε) : Prop := ∃ e, s.value around = .error e

theorem Slot.not_refused_iff {s : Slot ε} {around : Surroundings ε} :
    ¬ s.Refused around ↔ ∃ v, s.value around = .ok v := by
  unfold Slot.Refused
  cases s.value around <;> simp

namespace Context

theorem Takes.matched_eq {ctx ctx' : Context ε} {line line' : Option String}
    (h : ctx.Takes line ctx' line') : ctx'.matched = ctx.matched := by
  obtain ⟨-, ⟨⟩, -⟩ := h
  rfl

theorem Reads.matched_eq {ctx ctx' : Context ε} {line line' : Option String}
    (h : ctx.Reads line ctx' line') : ctx'.matched = ctx.matched := by
  induction h with
  | none _ => rfl
  | pair takes _ ih => exact ih.trans takes.matched_eq

theorem EndsIn.matched_eq {ctx : Context ε} {line : Option String} {cursor : Cursor ε}
    (h : ctx.EndsIn line cursor) : cursor.context.matched = ctx.matched := by
  induction h with
  | here points =>
    cases points with
    | flag _ => rfl
    | value _ answer _ _ =>
      obtain ⟨⟩ := answer
      rfl
  | pair takes _ ih => exact ih.trans takes.matched_eq

end Context

namespace Grammar

variable {g : Grammar ε}

theorem Halts.matched_eq {node : Nat} {line : String} {ctx : Context ε} {cursor : Cursor ε}
    (h : g.Halts node line ctx cursor) : cursor.context.matched = ctx.matched := by
  cases h with
  | pair _ _ ends => exact ends.matched_eq
  | token _ _ pairs _ _ => exact pairs.matched_eq

/-! ## Ways without verdicts -/

/-- A node is passed whatever its type makes of its token: a switch waits, any other node takes its
token with input left behind it. -/
inductive Skims (g : Grammar ε) (node : Nat) (line : String) (ctx : Context ε) :
    String → Context ε → Prop
  | waits {s : Slot ε} (here : g.slot? node = some s) (switch : s.isSwitch = true) :
      Skims g node line ctx line (ctx.pushSwitch s)
  | takes {s : Slot ε} {ctx' : Context ε} {text rest : String} {taken : Consumed}
      (here : g.slot? node = some s) (plain : s.isSwitch = false)
      (pairs : ctx.Reads (some line) ctx' (some text))
      (consumed : s.type.consume s.descriptor (some text) = .ok taken)
      (left : taken.rest = some rest) :
      Skims g node line ctx rest (ctx'.pushMatched ((s.holding taken).valued ctx'.around))

/-- The way from a node to another, on which no verdict counts, ends on a cursor: in front of the
node or on its token, or behind it among the pairs that follow a node without children. -/
inductive SkimsTo (g : Grammar ε) : Nat → String → Context ε → Nat → Cursor ε → Prop
  | behind {node : Nat} {line : String} {ctx : Context ε} {cursor : Cursor ε}
      (leaf : g.tree.isLeaf node = true) (ends : ctx.EndsIn (some line) cursor) :
      SkimsTo g node line ctx node cursor
  | before {start node : Nat} {line : String} {ctx : Context ε} {cursor : Cursor ε}
      (below : node ∈ g.tree.children start) (halts : g.Halts node line ctx cursor) :
      SkimsTo g start line ctx node cursor
  | past {start child node : Nat} {line rest : String} {ctx ctx' : Context ε} {cursor : Cursor ε}
      (below : child ∈ g.tree.children start) (skims : g.Skims child line ctx rest ctx')
      (way : SkimsTo g child rest ctx' node cursor) : SkimsTo g start line ctx node cursor

theorem SkimsTo.matched_subset {start node : Nat} {line : String} {ctx : Context ε}
    {cursor : Cursor ε} (h : g.SkimsTo start line ctx node cursor) :
    ∀ s ∈ ctx.matched, s ∈ cursor.context.matched := by
  induction h with
  | behind _ ends => exact fun s hs => ends.matched_eq ▸ hs
  | before _ halts => exact fun s hs => halts.matched_eq ▸ hs
  | past _ skims _ ih =>
    intro s hs
    cases skims with
    | waits _ _ => exact ih s hs
    | takes _ _ pairs _ _ => exact ih s (List.mem_append_left _ (pairs.matched_eq ▸ hs))

/-! ## The ways of a completion -/

/-- No token that has been matched is refused. -/
def Accepted (ctx : Context ε) : Prop := ∀ s ∈ ctx.matched, ∀ around, ¬ s.Refused around

theorem Leads.skims {node : Nat} {line rest : String} {ctx ctx' : Context ε} {slot : Slot ε}
    (h : g.Leads node line ctx slot rest ctx') (accepted : Accepted ctx) :
    g.Skims node line ctx rest ctx' ∧ Accepted ctx' := by
  obtain ⟨passes, left⟩ := h
  generalize hrest : some rest = behind at passes
  cases passes with
  | waits here switch =>
    obtain rfl := Option.some.inj hrest
    exact ⟨.waits here switch, accepted⟩
  | @takes s ctx₁ line' taken v here plain pairs consumed value =>
    obtain ⟨ctx₂, text, reads⟩ := left plain
    obtain ⟨rfl, rfl⟩ := pairs.unique reads
    refine ⟨.takes here plain pairs consumed hrest.symm, fun s' hs' around => ?_⟩
    rcases List.mem_append.1 hs' with old | new
    · exact accepted s' (reads.matched_eq ▸ old) around
    · rw [List.mem_singleton.1 new, Slot.not_refused_iff]
      exact ⟨v, value⟩

theorem Advances.skimsTo {start above node : Nat} {line line' : String} {ctx ctx' : Context ε}
    {chain : List (Slot ε)} {cursor : Cursor ε}
    (walk : g.Advances start line ctx chain above line' ctx') (accepted : Accepted ctx)
    (way : g.SkimsTo above line' ctx' node cursor) :
    g.SkimsTo start line ctx node cursor ∧ Accepted ctx' := by
  induction walk with
  | here => exact ⟨way, accepted⟩
  | down below leads _ ih =>
    obtain ⟨skims, accepted'⟩ := leads.skims accepted
    obtain ⟨rest, last⟩ := ih accepted' way
    exact ⟨.past below skims rest, last⟩

theorem Skims.leads {node : Nat} {line rest : String} {ctx ctx' : Context ε}
    (h : g.Skims node line ctx rest ctx') {around : Surroundings ε}
    (accepted : ∀ s ∈ ctx'.matched, ¬ s.Refused around) :
    ∃ slot, g.Leads node line ctx slot rest ctx' := by
  cases h with
  | @waits s here switch =>
    refine ⟨s, .waits here switch, fun plain => ?_⟩
    rw [switch] at plain
    cases plain
  | @takes s ctx₁ text rest taken here plain pairs consumed left =>
    obtain ⟨v, value⟩ := Slot.not_refused_iff.1
      (accepted ((s.holding taken).valued ctx₁.around) (List.mem_append_right _ (by simp)))
    have passes := Passes.takes here plain pairs consumed value
    rw [left] at passes
    exact ⟨_, passes, fun _ => ⟨ctx₁, text, pairs⟩⟩

/-- The ways of a completion are those on which no token is refused. -/
theorem stopsAt_iff_skimsTo {start node : Nat} {line : String} {ctx : Context ε}
    (accepted : Accepted ctx) {cursor : Cursor ε} :
    g.StopsAt start line ctx node cursor ↔
      g.SkimsTo start line ctx node cursor ∧
        ∀ s ∈ cursor.context.matched, ¬ s.Refused cursor.context.around := by
  constructor
  · intro h
    cases h with
    | before walk below halts =>
      obtain ⟨way, last⟩ := walk.skimsTo accepted (.before below halts)
      exact ⟨way, fun s hs => last s (halts.matched_eq ▸ hs) _⟩
    | behind walk leaf ends =>
      obtain ⟨way, last⟩ := walk.skimsTo accepted (.behind leaf ends)
      exact ⟨way, fun s hs => last s (ends.matched_eq ▸ hs) _⟩
  · rintro ⟨way, last⟩
    clear accepted
    induction way with
    | behind leaf ends => exact .behind .here leaf ends
    | before below halts => exact .before .here below halts
    | past below skims way ih =>
      obtain ⟨slot, leads⟩ := skims.leads fun s hs => last s (way.matched_subset s hs)
      exact stopsAt_iff.2 (.inr ⟨_, below, .inr ⟨slot, _, _, leads, ih last⟩⟩)

/-! ## One cursor for a node -/

theorem SkimsTo.mem_preorder (a : g.tree.Arena) {start node : Nat} (inside : start < g.tree.size)
    {line : String} {ctx : Context ε} {cursor : Cursor ε}
    (h : g.SkimsTo start line ctx node cursor) : node ∈ g.tree.preorder start := by
  induction h with
  | behind _ _ => exact a.mem_preorder_self inside
  | before below _ => exact a.mem_preorder_child inside (a.mem_preorder_self inside) below
  | past below _ _ ih =>
    have down := a.mem_preorder_child inside (a.mem_preorder_self inside) below
    exact a.mem_preorder_trans inside down (ih (a.child_lt _ _ below))

theorem Skims.approach_ne {node : Nat} {line rest : String} {ctx ctx' : Context ε}
    (h : g.Skims node line ctx rest ctx') (cursor : Cursor ε) :
    g.approach node (some line) ctx ≠ .at cursor := by
  cases h with
  | waits here switch =>
    rw [approach_of_switch here switch]
    simp
  | takes here plain pairs consumed left =>
    rw [approach_of_plain here plain, Context.approach_eq_go_iff.2 pairs]
    simp only [approachSlot_ok consumed, left]
    split <;> simp

theorem Skims.unique {node : Nat} {line rest rest' : String} {ctx ctx' ctx'' : Context ε}
    (h : g.Skims node line ctx rest ctx') (h' : g.Skims node line ctx rest' ctx'') :
    rest = rest' ∧ ctx' = ctx'' := by
  cases h with
  | waits here switch =>
    cases h' with
    | waits here' _ =>
      cases here.symm.trans here'
      exact ⟨rfl, rfl⟩
    | takes here' plain _ _ _ =>
      cases here.symm.trans here'
      cases switch.symm.trans plain
  | takes here plain pairs consumed left =>
    cases h' with
    | waits here' switch =>
      cases here.symm.trans here'
      cases switch.symm.trans plain
    | takes here' _ pairs' consumed' left' =>
      cases here.symm.trans here'
      obtain ⟨rfl, same⟩ := pairs.unique pairs'
      cases same
      cases consumed.symm.trans consumed'
      cases left.symm.trans left'
      exact ⟨rfl, rfl⟩

theorem SkimsTo.unique (a : g.tree.Arena) {start node : Nat} (inside : start < g.tree.size)
    {line : String} {ctx : Context ε} {cursor cursor' : Cursor ε}
    (h : g.SkimsTo start line ctx node cursor) (h' : g.SkimsTo start line ctx node cursor') :
    cursor = cursor' := by
  -- both ways go through the child below which the node lies, and end alike at it
  induction h with
  | behind leaf ends =>
    cases h' with
    | behind _ ends' => exact ends.unique ends'
    | before below _ => cases (Tree.isLeaf_of_mem below).symm.trans leaf
    | past below _ _ => cases (Tree.isLeaf_of_mem below).symm.trans leaf
  | @before start node line ctx cursor below halts =>
    have own := a.mem_preorder_self (a.child_lt _ _ below)
    cases h' with
    | behind leaf _ => cases (Tree.isLeaf_of_mem below).symm.trans leaf
    | before _ halts' => exact halts.unique halts'
    | past below' skims way =>
      have lies := way.mem_preorder a (a.child_lt _ _ below')
      obtain rfl := a.eq_of_mem_preorder below below' own lies
      exact absurd (approach_of_halts halts) (skims.approach_ne cursor)
  | @past start child node line rest ctx ctx' cursor below skims way ih =>
    have lies := way.mem_preorder a (a.child_lt _ _ below)
    cases h' with
    | behind leaf _ => cases (Tree.isLeaf_of_mem below).symm.trans leaf
    | before below' halts =>
      have own := a.mem_preorder_self (a.child_lt _ _ below')
      obtain rfl := a.eq_of_mem_preorder below below' lies own
      exact absurd (approach_of_halts halts) (skims.approach_ne cursor')
    | past below' skims' way' =>
      have lies' := way'.mem_preorder a (a.child_lt _ _ below')
      obtain rfl := a.eq_of_mem_preorder below below' lies lies'
      obtain ⟨rfl, rfl⟩ := skims.unique skims'
      exact ih (a.child_lt _ _ below) way'

/-! ## Lines that have ended -/

/-- Where there is no line at all, the cursors are on the first nodes that are no switches, and
nothing has been read before. -/
theorem cursorsWithin_absent (wordwise : g.Wordwise) (levels node : Nat) (ctx : Context ε) :
    ∀ cursor ∈ g.cursorsWithin levels node none ctx,
      cursor.context.matched = ctx.matched ∧ cursor.context.consumed = ctx.consumed := by
  -- behind a node that lets the path go on there is still no line
  refine forall_cursorsWithin (fun line ctx' =>
    line = none ∧ ctx'.matched = ctx.matched ∧ ctx'.consumed = ctx.consumed)
    ?_ ?_ levels node ⟨rfl, rfl, rfl⟩
  · rintro _ ctx' ⟨rfl, nothing⟩
    rw [Context.approach_none]
    exact ⟨rfl, nothing⟩
  · rintro node _ ctx' ⟨rfl, nothing⟩
    cases here : g.slot? node with
    | none =>
      simp only [approach, here]
      exact ⟨rfl, nothing⟩
    | some s =>
      cases switch : s.isSwitch with
      | true =>
        rw [approach_of_switch here switch]
        exact ⟨rfl, nothing⟩
      | false =>
        rw [approach_of_plain here switch, Context.approach_none]
        cases consumed : s.type.consume s.descriptor none with
        | error e => simp [approachSlot, Slot.parse_error consumed, Approach.Meets]
        | ok taken =>
          simp only [approachSlot_ok consumed, wordwise.rest_eq_none here consumed]
          exact nothing

/-! ## The completions of a line -/

/-- **Nothing is offered behind a token that is refused, and what is offered does not depend on the
values of switches.**  Let the nodes be texts, integers, doubles and literals, and let nothing have
been matched.  What a line is completed to are the offers of its cursors, at most one to a node; and
of all ways to a node, on which no verdict counts, those lead to a cursor on which no token is
refused.

So let a way lead to a node, and let the line be read before its cursor.  That no candidate is
offered for the node if any value read on the way is refused holds exactly if a token is refused, or
no switch has a value that it refuses, or there is nothing to offer at the cursor anyway.  Where
there is no line at all, nothing is read before a cursor. -/
theorem refused_values (g : Grammar ε) (built : g.tree.Built)
    (basic : ∀ node slot, g.slot? node = some slot → slot.type.Basic) (env : ε) (limit : Nat) :
    (∀ line : String, ∃ stops : List (Nat × Cursor ε),
      (g.complete Tree.root (some line) { env, limit }).texts =
        stops.flatMap (fun stop => stop.2.offers) ∧
      (stops.map Prod.fst).Nodup ∧
      (∀ n cursor, (n, cursor) ∈ stops ↔
        g.SkimsTo Tree.root line { env, limit } n cursor ∧
          ∀ s ∈ cursor.context.matched, ¬ s.Refused cursor.context.around) ∧
      ∀ n cursor, g.SkimsTo Tree.root line { env, limit } n cursor →
        (((∃ s ∈ cursor.context.matched ++ cursor.context.consumed,
              s.Refused cursor.context.around) →
            ∀ stop ∈ stops, stop.1 = n → stop.2.offers = []) ↔
          (∃ s ∈ cursor.context.matched, s.Refused cursor.context.around) ∨
            (∀ s ∈ cursor.context.consumed, ¬ s.Refused cursor.context.around) ∨
            cursor.offers = [])) ∧
    ∀ cursor ∈ g.cursors Tree.root none { env, limit },
      cursor.context.matched = [] ∧ cursor.context.consumed = [] := by
  have a := built.arena
  have wordwise : g.Wordwise := fun node slot here => (basic node slot here).consume_eq
  refine ⟨fun line => ?_, cursorsWithin_absent wordwise _ _ _⟩
  obtain ⟨stops, sub, mem, eq⟩ := exists_stops a a.nonempty line { env, limit }
  have texts : (g.complete Tree.root (some line) { env, limit }).texts =
      stops.flatMap (fun stop => stop.2.offers) := by
    rw [complete, (cursors_root a (some line) _).trans eq, List.flatMap_map]
  have ways : ∀ n cursor, (n, cursor) ∈ stops ↔
      g.SkimsTo Tree.root line { env, limit } n cursor ∧
        ∀ s ∈ cursor.context.matched, ¬ s.Refused cursor.context.around := fun n cursor =>
    (mem n cursor).trans (stopsAt_iff_skimsTo (by simp [Accepted]))
  refine ⟨stops, texts, (a.nodup_preorder a.nonempty).sublist sub, ways, fun n cursor way => ?_⟩
  have only : ∀ stop ∈ stops, stop.1 = n → stop.2 = cursor := by
    rintro ⟨n', cursor'⟩ hs rfl
    exact ((ways _ _).1 hs).1.unique a a.nonempty way
  simp only [List.mem_append]
  constructor
  · intro nothing
    by_cases token : ∃ s ∈ cursor.context.matched, s.Refused cursor.context.around
    · exact .inl token
    · push Not at token
      have stop := (ways n cursor).2 ⟨way, token⟩
      by_cases value : ∃ s ∈ cursor.context.consumed, s.Refused cursor.context.around
      · obtain ⟨s, hs, refused⟩ := value
        exact .inr (.inr (nothing ⟨s, .inr hs, refused⟩ _ stop rfl))
      · push Not at value
        exact .inr (.inl value)
  · rintro cause ⟨s, hs, refused⟩ stop mem_stops here
    obtain rfl := only stop mem_stops here
    have accepted := ((ways stop.1 stop.2).1 mem_stops).2
    rcases cause with ⟨s', hs', refused'⟩ | values | nothing
    · exact absurd refused' (accepted s' hs')
    · rcases hs with token | value
      · exact absurd refused (accepted s token)
      · exact absurd refused (values s value)
    · exact nothing

/-- Behind a value of its switch that is no number `give` offers what it offers behind a number, and
nothing behind another word in its place. -/
theorem refused_values_give :
    let g : Grammar Unit := ⟨giveTree, .standard, {}⟩
    let texts (line : String) := (g.complete Tree.root (some line) { env := () }).texts
    giveTree.Built ∧ texts "give -n abc " = ["7", "8", "9", "all"] ∧ texts "gave -n abc " = [] ∧
      ∃ stops : List (Nat × Cursor Unit),
        texts "give -n abc " = stops.flatMap (fun stop => stop.2.offers) ∧
        ∀ n cursor, (n, cursor) ∈ stops ↔
          g.SkimsTo Tree.root "give -n abc " { env := () } n cursor ∧
            ∀ s ∈ cursor.context.matched, ¬ s.Refused cursor.context.around := by
  intro g texts
  obtain ⟨stops, offers, -, ways, -⟩ :=
    (refused_values g giveTree_built (basic_of_standard rfl) () defaultLimit).1 "give -n abc "
  have both : texts "give -n abc " = ["7", "8", "9", "all"] ∧ texts "gave -n abc " = [] := by
    simp only [texts, g, giveTree_eq]
    decide +kernel
  exact ⟨giveTree_built, both.1, both.2, stops, offers, ways⟩

/-- The number behind `give -n abc ` is offered although the value of the switch is refused. -/
theorem offered_behind_refused_value :
    let g : Grammar Unit := ⟨giveTree, .standard, {}⟩
    giveTree.Built ∧ ∃ slot ctx,
      .token slot ctx ∈ g.cursors Tree.root (some "give -n abc ") { env := () } ∧ slot.node = 3 ∧
        (∃ s ∈ ctx.consumed, s.node = 2 ∧ s.Refused ctx.around) ∧
        (Cursor.token slot ctx).offers = ["7", "8", "9"] := by
  intro g
  let seen : Cursor Unit → Option (Nat × List (Nat × Bool) × List String)
    | .token slot ctx => some (slot.node, ctx.consumed.map fun s =>
        (s.node, (s.value ctx.around).toBool), slot.completions ctx.around)
    | _ => none
  have first : (g.cursors Tree.root (some "give -n abc ") { env := () }).head?.bind seen =
      some (3, [(2, false)], ["7", "8", "9"]) := by
    simp only [seen, g, giveTree_eq]
    decide +kernel
  refine ⟨giveTree_built, ?_⟩
  obtain ⟨cursor, head, found⟩ := Option.bind_eq_some_iff.1 first
  have mem := List.mem_of_mem_head? head
  cases cursor with
  | value _ _ => cases found
  | flag _ _ => cases found
  | token slot ctx =>
    simp only [seen, Option.some.injEq, Prod.mk.injEq] at found
    obtain ⟨node, used, offers⟩ := found
    obtain ⟨s, one, facts⟩ := List.map_eq_singleton_iff.1 used
    simp only [Prod.mk.injEq] at facts
    obtain ⟨switch, refused⟩ := facts
    refine ⟨slot, ctx, mem, node, ⟨s, one ▸ List.mem_singleton_self s, switch, ?_⟩, offers⟩
    by_contra accepted
    obtain ⟨v, value⟩ := Slot.not_refused_iff.1 accepted
    rw [value] at refused
    cases refused

end Grammar

end CommandTree
