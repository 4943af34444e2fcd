import CommandTree.Proofs.Resolution
import CommandTree.Proofs.Spelling
import Mathlib.Data.List.Nodup

/-!
# Reading a spelled path

A line that spells a path is read station by station.  While it is, the switches that were passed
and not yet used wait, and the pieces that are left of the line are those of the waiting switches
and of what is ahead of the path (`Reading`).  The pairs in front of a token belong to waiting
switches, for a token never stands behind what follows its node, so its node takes them and then its
token.  A child beside the path finds nothing to take: the pairs in front of it are taken or stand
in its way, and then there is the end of the line or a token that is none of its spellings.

Results:
* `Reading.takes`: the pair of a waiting switch is taken by that switch.
* `Reading.passes`: the next station of the path lets it go on.
* `resolve_aside`: no path leads through a child beside a spelled path.
* `below_route`: the match follows the path and uses the switches given.
-/
namespace CommandTree

variable {ε : Type} {around : Surroundings ε}

/-! ## Used switches -/

theorem find?_putSlot (s : Slot ε) (slots : List (Slot ε)) (node : Nat) :
    (putSlot s slots).find? (fun t => t.node == node) =
      if s.node = node then some s else slots.find? fun t => t.node == node := by
  induction slots with
  | nil => by_cases h : s.node = node <;> simp [putSlot, h]
  | cons t slots ih =>
    unfold putSlot
    by_cases h : s.node = node
    · rw [if_pos h]
      split
      · simp [h]
      · split
        · simp [h]
        · have ht : ¬ t.node = node := by omega
          rw [List.find?_cons_of_neg (by simpa using ht), ih, if_pos h]
    · rw [if_neg h] at ih ⊢
      split
      · rw [List.find?_cons_of_neg (by simpa using h)]
      · split
        · rename_i he
          rw [List.find?_cons_of_neg (by simpa using h),
            List.find?_cons_of_neg (by simpa [← he] using h)]
        · simp only [List.find?_cons, ih]

theorem consumed?_consume (ctx : Context ε) (s : Slot ε) (node : Nat) :
    (ctx.consume s).consumed? node = if s.node = node then some s else ctx.consumed? node :=
  find?_putSlot s ctx.consumed node

/-- Of some stations, those given by a flag have been used, and nothing else has. -/
structure Used (stations : List (Station ε)) (ctx ctx' : Context ε) : Prop where
  given : ∀ s ∈ stations, ∀ t, s.taken? = some t → ctx'.consumed? s.slot.node = some t
  others : ∀ node, (∀ s ∈ stations, s.slot.node = node → s.taken? = none) →
    ctx'.consumed? node = ctx.consumed? node

theorem Used.refl {stations : List (Station ε)} (none : ∀ s ∈ stations, s.taken? = none)
    (ctx : Context ε) : Used stations ctx ctx where
  given s hs t ht := by simp [none s hs] at ht
  others _ _ := rfl

theorem Used.congr {stations : List (Station ε)} {ctx ctx₁ ctx' : Context ε}
    (used : Used stations ctx₁ ctx') (same : ctx₁.consumed = ctx.consumed) :
    Used stations ctx ctx' where
  given := used.given
  others node unused := by
    rw [used.others node unused, Context.consumed?, Context.consumed?, same]

theorem Station.taken?_node {s : Station ε} {t : Slot ε} (h : s.taken? = some t) :
    t.node = s.slot.node := by
  unfold taken? at h
  split at h
  · rw [← Option.some.inj h]
    rfl
  · cases h
  · cases h

theorem Used.consume {stations stations' : List (Station ε)} {p : Station ε} {t : Slot ε}
    {ctx ctx' ctx'' : Context ε} (used : Used stations' (ctx'.consume t) ctx'')
    (perm : stations.Perm (p :: stations')) (taken : p.taken? = some t)
    (apart : ∀ s ∈ stations', s.slot.node ≠ p.slot.node) (same : ctx'.consumed = ctx.consumed) :
    Used stations ctx ctx'' := by
  have node := Station.taken?_node taken
  constructor
  · intro s hs t' ht
    rcases List.mem_cons.1 (perm.mem_iff.1 hs) with rfl | hs
    · have here : ctx''.consumed? s.slot.node = (ctx'.consume t).consumed? s.slot.node := by
        apply used.others
        intro r hr he
        exact absurd he (apart r hr)
      rw [here, consumed?_consume, if_pos node, ← taken, ht]
    · exact used.given s hs t' ht
  · intro n none
    have hne : t.node ≠ n := by
      intro he
      rw [none p (perm.mem_iff.2 List.mem_cons_self) (node ▸ he)] at taken
      cases taken
    have there : ctx''.consumed? n = (ctx'.consume t).consumed? n := by
      apply used.others
      intro s hs
      exact none s (perm.mem_iff.2 (List.mem_cons_of_mem _ hs))
    rw [there, consumed?_consume, if_neg hne, Context.consumed?, Context.consumed?, same]

theorem Used.skip {stations stations' : List (Station ε)} {s : Station ε} {ctx ctx' : Context ε}
    (used : Used stations' ctx ctx') (perm : stations.Perm (s :: stations'))
    (none : s.taken? = none) : Used stations ctx ctx' where
  given t ht slot taken := by
    rcases List.mem_cons.1 (perm.mem_iff.1 ht) with rfl | ht
    · simp [none] at taken
    · exact used.given t ht slot taken
  others node unused := by
    apply used.others
    intro t ht
    exact unused t (perm.mem_iff.2 (List.mem_cons_of_mem _ ht))

/-- Between two places of a line so much has been used that what is used from the second on makes
up what is used from the first on. -/
def Continues (stations : List (Station ε)) (ctx : Context ε) (stations' : List (Station ε))
    (ctx' : Context ε) : Prop :=
  ∀ ctx'', Used stations' ctx' ctx'' → Used stations ctx ctx''

/-! ## Reading a spelled path -/

/-- What the stations of a spelled path are among themselves. -/
structure Clear (around : Surroundings ε) (stations : List (Station ε)) : Prop where
  fits : ∀ s ∈ stations, s.Fits around
  basic : ∀ s ∈ stations, s.slot.type.Basic
  disjoint : stations.Pairwise fun s t =>
    ∀ flag ∈ s.slot.descriptor.flags, flag ∉ t.slot.descriptor.flags
  nodup : (stations.map fun s => s.slot.node).Nodup

theorem Clear.sublist {stations stations' : List (Station ε)} (h : Clear around stations)
    (sub : stations'.Sublist stations) : Clear around stations' where
  fits s hs := h.fits s (sub.subset hs)
  basic s hs := h.basic s (sub.subset hs)
  disjoint := h.disjoint.sublist sub
  nodup := h.nodup.sublist (sub.map _)

/-- Where the reading of a line stands: the switches passed and not yet used, what is ahead of the
path, and the pieces that are left of the line. -/
structure Reading (around : Surroundings ε) (waiting route pieces : List (Station ε))
    (ctx : Context ε) : Prop where
  clear : Clear around (waiting ++ route)
  waits : ctx.switches = waiting.map Station.slot
  switches : ∀ s ∈ waiting, s.slot.isSwitch = true
  perm : pieces.Perm ((waiting ++ route).filter Station.isSpelled)
  order : pieces.Pairwise fun s w => w.token?.isSome = true → ¬ [w, s].Sublist route

namespace Reading

variable {waiting route pieces : List (Station ε)} {ctx : Context ε}

theorem mem_of_piece (h : Reading around waiting route pieces ctx) {s : Station ε}
    (hs : s ∈ pieces) : (s ∈ waiting ∨ s ∈ route) ∧ s.isSpelled = true := by
  have hm := List.mem_filter.1 (h.perm.mem_iff.1 hs)
  exact ⟨List.mem_append.1 hm.1, hm.2⟩

theorem answers {before after : List (Station ε)} {p : Station ε} {flag : String}
    (h : Reading around (before ++ p :: after) route pieces ctx)
    (known : flag ∈ p.slot.descriptor.flags) :
    ctx.Answers flag p.slot { ctx with switches := (before ++ after).map Station.slot } := by
  have waits := h.waits
  rw [List.map_append, List.map_cons] at waits
  rw [List.map_append]
  refine .first waits ?_ known
  intro b hb
  obtain ⟨s, hs, rfl⟩ := List.mem_map.1 hb
  have disjoint := (List.pairwise_append.1 (List.pairwise_append.1 h.clear.disjoint).1).2.2
  intro hflag
  exact disjoint s hs p List.mem_cons_self flag hflag known

theorem takes {p : Station ε} (h : Reading around waiting route (p :: pieces) ctx)
    (ahead : p ∉ route) :
    ∃ waiting' ctx', ctx.Takes (lineOf (p :: pieces)) ctx' (lineOf pieces) ∧
      Reading around waiting' route pieces ctx' ∧
      Continues (waiting ++ route) ctx (waiting' ++ route) ctx' := by
  obtain ⟨hmem, spelled⟩ := h.mem_of_piece List.mem_cons_self
  have hp := hmem.resolve_right ahead
  have switch := h.switches p hp
  have fits := h.clear.fits p (List.mem_append_left _ hp)
  have basic := h.clear.basic p (List.mem_append_left _ hp)
  obtain ⟨before, after, rfl⟩ := List.append_of_mem hp
  -- without the switch, the stations are those that are read next
  have perm : (before ++ p :: after ++ route).Perm (p :: (before ++ after ++ route)) := by
    rw [List.append_assoc, List.append_assoc, List.cons_append]
    exact List.perm_middle
  have apart : ∀ s ∈ before ++ after ++ route, s.slot.node ≠ p.slot.node := by
    intro s hs he
    have nodup := (perm.map fun s => s.slot.node).nodup_iff.1 h.clear.nodup
    rw [List.map_cons, List.nodup_cons, ← he] at nodup
    exact nodup.1 (List.mem_map_of_mem hs)
  have sub : (before ++ after ++ route).Sublist (before ++ p :: after ++ route) :=
    ((List.sublist_cons_self p after).append_left before).append_right route
  cases fits with
  | word plain _ _ _ => simp [plain] at switch
  | default _ _ _ => cases spelled
  | omitted _ _ _ => cases spelled
  | @pair slot flag value v _ known solid word _ =>
    have answer := h.answers known
    refine ⟨before ++ after, Context.consume
      { ctx with switches := (before ++ after).map Station.slot }
      (slot.holding ⟨some value, lineOf pieces⟩), ?_, ⟨h.clear.sublist sub, rfl, ?_, ?_, ?_⟩, ?_⟩
    · rw [lineOf, Station.text, behind_pair]
      exact .pair (Text.not_mem_space solid) answer
        (consume_behind basic slot.descriptor word (lineOf pieces))
    · intro s hs
      apply h.switches
      exact (List.Sublist.append_left (List.sublist_cons_self _ _) _).subset hs
    · have hperm := h.perm.trans (perm.filter _)
      rw [List.filter_cons_of_pos spelled] at hperm
      exact hperm.cons_inv
    · exact (List.pairwise_cons.1 h.order).2
    · intro ctx'' used
      exact used.consume perm rfl apart rfl

/-- Pairs of waiting switches at the start of a line are all taken. -/
theorem takePairs_append {pairs : List (Station ε)}
    (h : Reading around waiting route (pairs ++ pieces) ctx) (ahead : ∀ p ∈ pairs, p ∉ route) :
    ∃ waiting' ctx', Reading around waiting' route pieces ctx' ∧
      ctx.takePairs (lineOf (pairs ++ pieces)) = ctx'.takePairs (lineOf pieces) ∧
      Continues (waiting ++ route) ctx (waiting' ++ route) ctx' := by
  induction pairs generalizing waiting ctx with
  | nil => exact ⟨waiting, ctx, h, rfl, fun _ used => used⟩
  | cons p pairs ih =>
    obtain ⟨waiting₁, ctx₁, takes, h₁, used₁⟩ := h.takes (ahead p List.mem_cons_self)
    have ahead' : ∀ q ∈ pairs, q ∉ route := fun q hq => ahead q (List.mem_cons_of_mem _ hq)
    obtain ⟨waiting₂, ctx₂, h₂, he, used₂⟩ := ih h₁ ahead'
    refine ⟨waiting₂, ctx₂, h₂, ?_, ?_⟩
    · exact (Context.takePairs_of_takes takes).trans he
    · intro ctx'' used
      exact used₁ ctx'' (used₂ ctx'' used)

/-- The pairs at the start of a line are taken up to the first token or the end, or one of them is
not, whose switch is still ahead. -/
theorem takePairs_cases (h : Reading around waiting route pieces ctx) :
    (∃ ctx', ctx.takePairs (lineOf pieces) = .stuck ctx') ∨
      (∃ ctx', ctx.takePairs (lineOf pieces) = .through none ctx') ∨
        ∃ token rest ctx',
          ctx.takePairs (lineOf pieces) = .through (some (behind token rest)) ctx' ∧
          Text.IsWord token ∧ firstToken pieces = some token := by
  induction pieces generalizing waiting ctx with
  | nil => exact .inr (.inl ⟨ctx, Context.takePairs_of_not_dashed not_dashed_none⟩)
  | cons p pieces ih =>
    obtain ⟨hmem, spelled⟩ := h.mem_of_piece List.mem_cons_self
    have fits := h.clear.fits p (List.mem_append.2 hmem)
    cases fits with
    | default _ _ _ => cases spelled
    | omitted _ _ _ => cases spelled
    | @word slot token _ _ word undashed _ =>
      exact .inr (.inr ⟨token, lineOf pieces, ctx,
        Context.takePairs_of_not_dashed (mt (dashed_behind_iff _ _).1 undashed), word, rfl⟩)
    | @pair slot flag value v _ known solid _ _ =>
      by_cases ahead : ⟨slot, .pair flag value, v⟩ ∈ route
      · -- the switch is not waiting yet, and those that are have other flags
        refine .inl ⟨ctx, ?_⟩
        rw [lineOf, Station.text, behind_pair]
        refine Context.takePairs_of_sticks (.unanswered (Text.not_mem_space solid) ?_)
        rw [h.waits]
        intro s hs
        obtain ⟨t, ht, rfl⟩ := List.mem_map.1 hs
        have disjoint := (List.pairwise_append.1 h.clear.disjoint).2.2 t ht _ ahead
        intro hflag
        exact disjoint flag hflag known
      · obtain ⟨waiting', ctx', takes, h', -⟩ := h.takes ahead
        rw [Context.takePairs_of_takes takes]
        exact ih h'

theorem token?_eq_none {s : Station ε} (fits : s.Fits around) (switch : s.slot.isSwitch = true) :
    s.token? = none := by
  cases fits with
  | word plain _ _ _ => simp [plain] at switch
  | pair _ _ _ _ _ => rfl
  | default _ _ _ => rfl
  | omitted _ _ _ => rfl

theorem nodup (h : Reading around waiting route pieces ctx) : pieces.Nodup :=
  h.perm.nodup_iff.2 ((List.Nodup.of_map _ h.clear.nodup).filter _)

/-- What stands before a token on the line is not behind it on the path. -/
theorem not_mem_of_before {pre post before after : List (Station ε)} {w : Station ε}
    (h : Reading around waiting (pre ++ w :: post) (before ++ w :: after) ctx)
    (hw : w.token?.isSome = true) : ∀ s ∈ before, s ∉ w :: post := by
  intro s hs hmem
  rcases List.mem_cons.1 hmem with rfl | hmem
  · exact (List.nodup_append.1 h.nodup).2.2 s hs s List.mem_cons_self rfl
  · have order := (List.pairwise_append.1 h.order).2.2 s hs w List.mem_cons_self hw
    exact order (((List.singleton_sublist.2 hmem).cons_cons w).trans
      (List.sublist_append_right pre (w :: post)))

theorem firstToken_eq (h : Reading around waiting route pieces ctx) :
    firstToken pieces = firstToken route := by
  have waits : ∀ s ∈ waiting, s.token? = none := by
    intro s hs
    have fits := h.clear.fits s (List.mem_append_left _ hs)
    exact token?_eq_none fits (h.switches s hs)
  cases hr : firstToken route with
  | none =>
    rw [firstToken, List.findSome?_eq_none_iff] at hr ⊢
    intro s hs
    rcases (h.mem_of_piece hs).1 with hs | hs
    · exact waits s hs
    · exact hr s hs
  | some token =>
    obtain ⟨pre, w, post, rfl, hw, hpre⟩ := List.findSome?_eq_some_iff.1 hr
    have spelled : w.isSpelled = true := Station.isSpelled_of_token? (by simp [hw])
    have hmem : w ∈ pieces := h.perm.mem_iff.2 (List.mem_filter.2 ⟨by simp, spelled⟩)
    obtain ⟨before, after, rfl⟩ := List.append_of_mem hmem
    refine List.findSome?_eq_some_iff.2 ⟨before, w, after, rfl, hw, ?_⟩
    intro s hs
    rcases (h.mem_of_piece (List.mem_append_left _ hs)).1 with hs' | hs'
    · exact waits s hs'
    · rcases List.mem_append.1 hs' with hs' | hs'
      · exact hpre s hs'
      · exact absurd hs' (h.not_mem_of_before (by simp [hw]) s hs)

theorem used_refl (h : Reading around waiting [] [] ctx) : Used (waiting ++ []) ctx ctx := by
  apply Used.refl
  intro s hs
  have absent := List.filter_eq_nil_iff.1 h.perm.nil_eq.symm s hs
  exact Station.taken?_of_absent (by simpa using absent)

end Reading

/-! ## The way down -/

variable {g : Grammar ε}

theorem literal_refuses {slot : Slot ε} {token : String} (aside : Aside (some token) slot)
    (around : Surroundings ε) :
    slot.type.result token slot.descriptor around = .error .noResult := by
  have other := aside.other token rfl
  rw [aside.literal]
  apply if_neg
  intro h
  obtain ⟨spelling, hmem, hs⟩ := List.any_eq_true.1 h
  rw [Bool.or_eq_true, beq_iff_eq, beq_iff_eq] at hs
  rcases hs with rfl | rfl
  · exact aside.closed hmem
  · exact other hmem

/-- How a station stands in the chain: a switch as it stands in the tree, any other node with its
token and its value. -/
inductive Stands (s : Station ε) : Slot ε → Prop
  | switch (switch : s.slot.isSwitch = true) : Stands s s.slot
  | word {token : String} {around : Surroundings ε} (spelled : s.spelling = .word token) :
      Stands s ((s.slot.holding ⟨some token, none⟩).valued around)

/-- A switch of the path waits for its pair. -/
theorem Reading.passes_switch {waiting route pieces : List (Station ε)} {ctx : Context ε}
    {s : Station ε} (h : Reading around waiting (s :: route) pieces ctx)
    (here : g.slot? s.slot.node = some s.slot) (switch : s.slot.isSwitch = true) :
    ∃ ctx', g.Passes s.slot.node (lineOf pieces) ctx s.slot (lineOf pieces) ctx' ∧
      Reading around (waiting ++ [s]) route pieces ctx' ∧
      Continues (waiting ++ s :: route) ctx ((waiting ++ [s]) ++ route) ctx' := by
  have same : (waiting ++ [s]) ++ route = waiting ++ s :: route := by simp
  refine ⟨ctx.pushSwitch s.slot, .waits here switch, ⟨?_, ?_, ?_, ?_, ?_⟩, ?_⟩
  · rw [same]
    exact h.clear
  · rw [List.map_append, ← h.waits]
    rfl
  · intro t ht
    rcases List.mem_append.1 ht with ht | ht
    · exact h.switches t ht
    · rw [List.mem_singleton.1 ht]
      exact switch
  · rw [same]
    exact h.perm
  · refine h.order.imp ?_
    intro s' w order hw sub
    exact order hw (sub.cons s)
  · rw [same]
    intro ctx'' used
    exact used.congr rfl

/-- A node of the path that is no switch takes the pairs before its token and its token. -/
theorem Reading.passes_word {waiting route pieces : List (Station ε)} {ctx : Context ε}
    {slot : Slot ε} {token : String} {v : Value}
    (h : Reading around waiting (⟨slot, .word token, v⟩ :: route) pieces ctx)
    (here : g.slot? slot.node = some slot) (plain : slot.isSwitch = false)
    (word : Text.IsWord token) (undashed : ¬ Dashed (some token))
    (accepted : slot.type.result token slot.descriptor around = .ok v) :
    ∃ around' waiting' pieces' ctx',
      g.Passes slot.node (lineOf pieces) ctx ((slot.holding ⟨some token, none⟩).valued around')
        (lineOf pieces') ctx' ∧
      Reading around waiting' route pieces' ctx' ∧
      Continues (waiting ++ ⟨slot, .word token, v⟩ :: route) ctx (waiting' ++ route) ctx' := by
  have ahead : (⟨slot, .word token, v⟩ : Station ε) ∈ pieces :=
    h.perm.mem_iff.2 (List.mem_filter.2 ⟨by simp, rfl⟩)
  obtain ⟨before, after, rfl⟩ := List.append_of_mem ahead
  -- what stands before the token belongs to switches that were passed
  have pairs : ∀ p ∈ before, p ∉ (⟨slot, .word token, v⟩ : Station ε) :: route :=
    (show Reading around waiting ([] ++ ⟨slot, .word token, v⟩ :: route) _ ctx from
      h).not_mem_of_before rfl
  obtain ⟨waiting', ctx', h', he, used⟩ := h.takePairs_append pairs
  have read : ctx'.takePairs (lineOf (⟨slot, .word token, v⟩ :: after)) = .through _ ctx' :=
    Context.takePairs_of_not_dashed (mt (dashed_behind_iff _ _).1 undashed)
  have basic := h.clear.basic _ (List.mem_append_right _ List.mem_cons_self)
  have consumed := consume_behind basic slot.descriptor word (lineOf after)
  have value : (slot.holding ⟨some token, lineOf after⟩).value ctx'.around = .ok v :=
    (basic.result_eq token slot.descriptor ctx'.around around).trans accepted
  have sub : (waiting' ++ route).Sublist (waiting' ++ ⟨slot, .word token, v⟩ :: route) :=
    (List.sublist_cons_self _ _).append_left _
  have middle : (waiting' ++ ⟨slot, .word token, v⟩ :: route).Perm
      (⟨slot, .word token, v⟩ :: (waiting' ++ route)) := List.perm_middle
  refine ⟨ctx'.around, waiting', after, _,
    .takes here plain (Context.takePairs_eq_through_iff.1 (he.trans read)) consumed value,
    ⟨h'.clear.sublist sub, h'.waits, h'.switches, ?_, ?_⟩, ?_⟩
  · have perm := h'.perm.trans (middle.filter _)
    rw [List.filter_cons_of_pos rfl] at perm
    exact perm.cons_inv
  · refine (List.pairwise_cons.1 h'.order).2.imp ?_
    intro s w order hw sub
    exact order hw (sub.cons _)
  · intro ctx'' used'
    apply used
    exact (used'.skip middle rfl).congr rfl

/-- The next station of the path lets it go on, and stands in the chain. -/
theorem Reading.passes {waiting route pieces : List (Station ε)} {ctx : Context ε}
    {s : Station ε} (h : Reading around waiting (s :: route) pieces ctx)
    (here : g.slot? s.slot.node = some s.slot) :
    ∃ slot waiting' pieces' ctx',
      g.Passes s.slot.node (lineOf pieces) ctx slot (lineOf pieces') ctx' ∧ Stands s slot ∧
      Reading around waiting' route pieces' ctx' ∧
      Continues (waiting ++ s :: route) ctx (waiting' ++ route) ctx' := by
  by_cases switch : s.slot.isSwitch = true
  · obtain ⟨ctx', passes, h', used⟩ := h.passes_switch here switch
    exact ⟨s.slot, _, pieces, ctx', passes, .switch switch, h', used⟩
  · have fits := h.clear.fits s (List.mem_append_right _ List.mem_cons_self)
    cases fits with
    | word plain word undashed accepted =>
      obtain ⟨around', waiting', pieces', ctx', passes, h', used⟩ :=
        h.passes_word here plain word undashed accepted
      exact ⟨_, waiting', pieces', ctx', passes, .word rfl, h', used⟩
    | pair switch' _ _ _ _ => exact absurd switch' switch
    | default switch' _ _ => exact absurd switch' switch
    | omitted switch' _ _ => exact absurd switch' switch

/-- No path leads through a literal if a pair stands in its way, if the line has ended, or if what
follows does not spell it. -/
theorem resolve_literal (a : g.tree.Arena) {child : Nat} {slot : Slot ε}
    (here : g.slot? child = some slot) (inside : child < g.tree.size) {token : Option String}
    (aside : Aside token slot) {line : Option String} {ctx : Context ε}
    (pairs : (∃ ctx', ctx.takePairs line = .stuck ctx') ∨
      (∃ ctx', ctx.takePairs line = .through none ctx') ∨
        ∃ word rest ctx', ctx.takePairs line = .through (some (behind word rest)) ctx' ∧
          ' ' ∉ word.toList ∧ word ∈ token) : (g.resolve child line ctx).chain = [] := by
  rw [Grammar.resolve_eq a inside, Grammar.enter_of_slot? here aside.plain]
  rcases pairs with ⟨ctx', he⟩ | ⟨ctx', he⟩ | ⟨word, rest, ctx', he, solid, rfl⟩
  · rw [he]
  · have refused : slot.type.consume slot.descriptor none = .error .requiredArgument := by
      rw [aside.literal]
      exact (consumeToken_none _).2 ⟨aside.no_default, aside.required⟩
    rw [he]
    simp only [Grammar.enterSlot, Slot.parse_error refused]
  · have consumed : slot.type.consume slot.descriptor (some (behind word rest)) =
        .ok ⟨some word, rest⟩ := by
      rw [aside.literal]
      exact consumeToken_behind slot.descriptor solid rest
    have refused : (slot.holding ⟨some word, rest⟩).value ctx'.around = .error .noResult :=
      literal_refuses aside ctx'.around
    rw [he]
    simp only [Grammar.enterSlot_ok consumed, refused]

/-- No path leads through a child beside a spelled path. -/
theorem resolve_aside (a : g.tree.Arena) {waiting route pieces : List (Station ε)}
    {ctx : Context ε} (h : Reading around waiting route pieces ctx) {child : Nat} {slot : Slot ε}
    (here : g.slot? child = some slot) (inside : child < g.tree.size)
    (aside : Aside (firstToken route) slot) :
    (g.resolve child (lineOf pieces) ctx).chain = [] := by
  apply resolve_literal a here inside aside
  rcases h.takePairs_cases with stuck | ended | ⟨token, rest, ctx', he, word, first⟩
  · exact .inl stuck
  · exact .inr (.inl ended)
  · exact .inr (.inr ⟨token, rest, ctx', he, Text.not_mem_space word.solid,
      h.firstToken_eq ▸ first⟩)

/-- Where only one child of a node has a match, the match is that child's. -/
theorem below_eq_of_alone {node child : Nat} {line : Option String} {ctx : Context ε}
    (below : child ∈ g.tree.children node)
    (others : ∀ c ∈ g.tree.children node, c ≠ child → (g.resolve c line ctx).chain = [])
    (alone : (g.resolve child line ctx).chain ≠ []) :
    g.below node line ctx = g.resolve child line ctx := by
  rcases Grammar.below_cases (Tree.isLeaf_of_mem below) line ctx with
    ⟨none, -⟩ | ⟨best, first, hne, he⟩
  · exact absurd (none child below) alone
  · by_cases hb : best = child
    · rw [he, hb]
    · exact absurd (others best first.mem hb) hne

/-- The match below a node of a spelled path follows the path and uses the switches given. -/
theorem below_route (a : g.tree.Arena) {node : Nat} {route : List (Station ε)}
    (path : g.Route around node route) {waiting pieces : List (Station ε)} {ctx : Context ε}
    (h : Reading around waiting route pieces ctx) :
    List.Forall₂ Stands route (g.below node (lineOf pieces) ctx).chain ∧
      Used (waiting ++ route) ctx (g.below node (lineOf pieces) ctx).context := by
  -- along the path; `Reading` says where the line and the context stand at each node
  induction path generalizing waiting pieces ctx with
  | @leaf node leaf =>
    have whole : Reading around waiting [] (pieces ++ []) ctx := by rwa [List.append_nil]
    obtain ⟨waiting', ctx', h', he, used⟩ := whole.takePairs_append fun _ _ => List.not_mem_nil
    rw [List.append_nil, lineOf, Context.takePairs_of_not_dashed not_dashed_none] at he
    have context : (g.below node (lineOf pieces) ctx).context = ctx' := by
      simp only [Grammar.below, leaf, if_true, Grammar.takeTrailing, he]
    have chain : (g.below node (lineOf pieces) ctx).chain = [] := by
      simp only [Grammar.below, leaf, if_true]
    rw [context, chain]
    exact ⟨.nil, used ctx' h'.used_refl⟩
  | @down node s route below here fits aside rest ih =>
    have others : ∀ c ∈ g.tree.children node, c ≠ s.slot.node →
        (g.resolve c (lineOf pieces) ctx).chain = [] := by
      intro c hc hne
      obtain ⟨slot, hs⟩ := Grammar.slot?_child a hc
      exact resolve_aside a h hs (a.child_lt node c hc) (aside c hc hne slot hs)
    obtain ⟨slot, waiting', pieces', ctx', passes, stands, h', used⟩ := h.passes here
    have match_eq := Grammar.resolve_of_passes a (a.child_lt node _ below) passes
    have alone := below_eq_of_alone below others (by simp [match_eq])
    obtain ⟨chain, context⟩ := ih h'
    rw [alone, match_eq]
    exact ⟨.cons stands chain, used _ context⟩

end CommandTree
