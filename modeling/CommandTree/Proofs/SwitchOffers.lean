import CommandTree.Proofs.Completion
import CommandTree.Proofs.Ledger
import CommandTree.Proofs.Walks

/-!
# How often a switch is offered

A completion explores every path of the tree, and each path carries its own copy of the switches
that wait.  Where the line ends on a flag, or on the value of a switch, all paths on which it ends
there offer what waits on them.  On one path each switch is offered once.  Two paths that offer the
same switch have parted at the switch or below it: so a switch is offered as often as the tree has
ways behind it on which the line ends, and once where no node from the switch down has two children.

Results:
* `Cursor.offers_eq`: the texts of a cursor on a flag or on a value, by switch.
* `StopsAt.apart`: no path to a cursor goes through a node that has another.
* `StopsAt.offersOnce`: what one path offers.
* `switch_offers`: what a line offers.
* `switch_offered_twice`: a tree with one switch, which is offered twice.
-/
namespace CommandTree

variable {ε : Type}

/-! ## What a cursor offers for each switch -/

/-- The node of a switch, with the flag that it is offered by. -/
def Slot.flagged? (typed : String) (s : Slot ε) : Option (Nat × List String) :=
  (s.descriptor.flags.find? fun flag => Text.beginsWith flag typed).map fun flag =>
    (s.node, ["-" ++ flag])

/-- The switches that a cursor offers something for, by their nodes, with the texts: a flag for each
waiting switch that has one, or values for the switch that the flag has named. -/
def Cursor.offered : Cursor ε → List (Nat × List String)
  | .token _ _ => []
  | .value switch ctx => [(switch.node, switch.completions ctx.around)]
  | .flag typed ctx => (ctx.switches.filterMap (Slot.flagged? typed)).take ctx.limit

/-- Whether the line ends on a flag or on the value of a switch. -/
def Cursor.isOnPair : Cursor ε → Bool
  | .token _ _ => false
  | .value _ _ | .flag _ _ => true

theorem flatMap_flagged (typed : String) (switches : List (Slot ε)) (limit : Nat) :
    ((switches.filterMap (Slot.flagged? typed)).take limit).flatMap Prod.snd =
      (switches.filterMap fun s => (s.descriptor.flags.find? fun flag =>
        Text.beginsWith flag typed).map ("-" ++ ·)).take limit := by
  induction switches generalizing limit with
  | nil => simp
  | cons s rest ih =>
    cases found : s.descriptor.flags.find? fun flag => Text.beginsWith flag typed with
    | none => simpa [List.filterMap_cons, Slot.flagged?, found] using ih limit
    | some flag =>
      cases limit with
      | zero => simp
      | succ limit => simpa [List.filterMap_cons, Slot.flagged?, found] using ih limit

/-- What is offered on a flag or a value is offered for some switch. -/
theorem Cursor.offers_eq {cursor : Cursor ε} (pair : cursor.isOnPair = true) :
    cursor.offers = cursor.offered.flatMap Prod.snd := by
  cases cursor with
  | token _ _ => cases pair
  | value switch ctx => simp [offers, offered]
  | flag typed ctx => exact (flatMap_flagged typed ctx.switches ctx.limit).symm

theorem sublist_flagged (typed : String) (switches : List (Slot ε)) :
    ((switches.filterMap (Slot.flagged? typed)).map Prod.fst).Sublist (nodesOf switches) := by
  induction switches with
  | nil => exact .refl _
  | cons s rest ih =>
    rw [nodesOf_cons, List.filterMap_cons, Slot.flagged?]
    cases s.descriptor.flags.find? fun flag => Text.beginsWith flag typed with
    | none => exact ih.cons _
    | some flag => exact ih.cons_cons _

theorem Cursor.exists_flag {typed : String} {ctx : Context ε} {offer : Nat × List String}
    (h : offer ∈ (Cursor.flag typed ctx).offered) : ∃ flag, offer.2 = ["-" ++ flag] := by
  obtain ⟨s, -, found⟩ := List.mem_filterMap.1 (List.mem_of_mem_take h)
  obtain ⟨flag, -, rfl⟩ := Option.map_eq_some_iff.1 found
  exact ⟨flag, rfl⟩

namespace Context

/-- What is offered where the line ends is offered for switches that wait there. -/
theorem Points.sublist {ctx : Context ε} {line : Option String} {cursor : Cursor ε}
    (h : ctx.Points line cursor) :
    (cursor.offered.map Prod.fst).Sublist (nodesOf ctx.switches) := by
  cases h with
  | flag word => exact ((List.take_sublist _ _).map _).trans (sublist_flagged _ _)
  | @value flag value s others taken word answer consumed last =>
    obtain ⟨waiting, -, -⟩ := answer
    refine List.singleton_sublist.2 ?_
    rw [waiting, nodesOf_append]
    exact List.mem_append_right _ List.mem_cons_self

theorem EndsIn.exists_points (g : Grammar ε) {ctx : Context ε} {line : Option String}
    {cursor : Cursor ε} (h : ctx.EndsIn line cursor) :
    ∃ pieces line' ctx', Ledger g line ctx [] pieces [] line' ctx' ∧ ctx'.Points line' cursor := by
  induction h with
  | here points => exact ⟨[], _, _, .refl g _ _, points⟩
  | pair takes _ ih =>
    obtain ⟨p, first⟩ := takes.ledger g
    obtain ⟨pieces, line', ctx', later, points⟩ := ih
    exact ⟨_, line', ctx', first.trans later, points⟩

end Context

namespace Grammar

variable {g : Grammar ε} {line : String} {ctx : Context ε} {env : ε} {limit : Nat}

/-! ## The ways to two cursors -/

theorem StopsAt.mem_preorder (a : g.tree.Arena) {start n : Nat} {cursor : Cursor ε}
    (inside : start < g.tree.size) (h : g.StopsAt start line ctx n cursor) :
    n ∈ g.tree.preorder start := by
  obtain ⟨stops, sub, mem, -⟩ := exists_stops a inside line ctx
  exact sub.subset (List.mem_map_of_mem ((mem n cursor).2 h))

/-- A node does one thing with a line: the line ends there, or the path goes on in one way. -/
theorem not_halts_of_leads {node : Nat} {slot : Slot ε} {line' : String} {ctx' : Context ε}
    {cursor : Cursor ε} (leads : g.Leads node line ctx slot line' ctx') :
    ¬ g.Halts node line ctx cursor := by
  intro halts
  cases (approach_of_halts halts).symm.trans (approach_of_leads leads)

theorem Leads.unique {node : Nat} {slot slot' : Slot ε} {line' line'' : String}
    {ctx' ctx'' : Context ε} (h : g.Leads node line ctx slot line' ctx')
    (h' : g.Leads node line ctx slot' line'' ctx'') : line' = line'' ∧ ctx' = ctx'' := by
  cases (approach_of_leads h).symm.trans (approach_of_leads h')
  exact ⟨rfl, rfl⟩

/-- No path to a cursor goes through a node that has another. -/
theorem StopsAt.apart (a : g.tree.Arena) {start n n' : Nat} {cursor cursor' : Cursor ε}
    (inside : start < g.tree.size) (h : g.StopsAt start line ctx n cursor)
    (h' : g.StopsAt start line ctx n' cursor') (below : n ∈ g.tree.preorder n') : n = n' := by
  revert line ctx
  refine a.descend (P := fun start => ∀ {line ctx}, g.StopsAt start line ctx n cursor →
    g.StopsAt start line ctx n' cursor' → n = n') ?_ start inside
  intro start inside ih line ctx h h'
  -- the ways go on to one child, for what lies below `n'` lies below the child of its way
  have lies : ∀ {m : Nat} {other : Cursor ε} {c : Nat}, c ∈ g.tree.children start →
      ((m = c ∧ g.Halts c line ctx other) ∨ ∃ slot line' ctx',
        g.Leads c line ctx slot line' ctx' ∧ g.StopsAt c line' ctx' m other) →
      m ∈ g.tree.preorder c := by
    rintro m other c hc (⟨rfl, -⟩ | ⟨_, _, _, -, stops⟩)
    · exact a.mem_preorder_self (a.child_lt start m hc)
    · exact stops.mem_preorder a (a.child_lt start c hc)
  rcases stopsAt_iff.1 h with ⟨rfl, leaf, -⟩ | ⟨c, hc, way⟩ <;>
    rcases stopsAt_iff.1 h' with ⟨rfl, leaf', -⟩ | ⟨c', hc', way'⟩
  · rfl
  · rw [Tree.isLeaf_of_mem hc'] at leaf
    cases leaf
  · rw [Tree.isLeaf_of_mem hc] at leaf'
    cases leaf'
  obtain rfl : c = c' :=
    a.eq_of_mem_preorder hc hc' (lies hc way)
      (a.mem_preorder_trans (a.child_lt start c' hc') (lies hc' way') below)
  rcases way with ⟨rfl, halts⟩ | ⟨_, _, _, leads, stops⟩ <;>
    rcases way' with ⟨rfl, halts'⟩ | ⟨_, _, _, leads', stops'⟩
  · rfl
  · exact absurd halts (not_halts_of_leads leads')
  · exact absurd halts' (not_halts_of_leads leads)
  · obtain ⟨rfl, rfl⟩ := leads.unique leads'
    exact ih c hc stops stops'

/-! ## One way -/

/-- Where the line ends in a pair it has come to a node, and ends in the pairs behind it. -/
theorem StopsAt.exists_endsIn {start n : Nat} {cursor : Cursor ε}
    (h : g.StopsAt start line ctx n cursor) (pair : cursor.isOnPair = true) :
    ∃ chain above line' ctx', g.Advances start line ctx chain above line' ctx' ∧
      ctx'.EndsIn (some line') cursor ∧ (n = above ∨ n ∈ g.tree.children above) := by
  cases h with
  | behind walk leaf ends => exact ⟨_, _, _, _, walk, ends, .inl rfl⟩
  | before walk below halts =>
    cases halts with
    | pair _ _ ends => exact ⟨_, _, _, _, walk, ends, .inr below⟩
    | token _ _ _ _ _ => cases pair

theorem Walks.nodup (a : g.tree.Arena) {last : Nat} {line line' : Option String}
    {ctx ctx' : Context ε} {chain : List (Slot ε)}
    (h : g.Walks Tree.root line ctx chain last line' ctx') : (nodesOf chain).Nodup := by
  have all := (h.derives (below_derives a (h.rootPath.lt_size a) line' ctx')).nodup a
  rw [nodesOf_append] at all
  exact (List.nodup_append.1 all).1

theorem Walks.standing (a : g.tree.Arena) {last : Nat} {line line' : Option String}
    {ctx ctx' : Context ε} {chain : List (Slot ε)}
    (h : g.Walks Tree.root line ctx chain last line' ctx') {s : Slot ε} (hs : s ∈ waitsOf chain) :
    g.slot? s.node = some s := by
  refine (h.derives (below_derives a (h.rootPath.lt_size a) line' ctx')).standing ?_
  rw [waitsOf_append]
  exact List.mem_append_left _ hs

/-- What is offered where a line ends: each switch at most once, and only switches on the way. -/
structure OffersOnce (g : Grammar ε) (n : Nat) (cursor : Cursor ε) : Prop where
  texts : cursor.isOnPair = true → cursor.offers = cursor.offered.flatMap Prod.snd
  flags : ∀ typed ctx, cursor = .flag typed ctx →
    ∀ offer ∈ cursor.offered, ∃ flag, offer.2 = ["-" ++ flag]
  nodup : (cursor.offered.map Prod.fst).Nodup
  above : ∀ x ∈ cursor.offered.map Prod.fst, x < g.tree.size ∧ n ∈ g.tree.preorder x ∧
    ∃ s, g.slot? x = some s ∧ s.isSwitch = true

/-- On one way each switch is offered once. -/
theorem StopsAt.offersOnce (a : g.tree.Arena) {n : Nat} {cursor : Cursor ε}
    (h : g.StopsAt Tree.root line { env, limit } n cursor) : g.OffersOnce n cursor := by
  cases pair : cursor.isOnPair with
  | false =>
    cases cursor with
    | token slot ctx =>
      exact
        { texts := by simp [pair]
          flags := by simp
          nodup := .nil
          above := by simp [Cursor.offered] }
    | value _ _ => cases pair
    | flag _ _ => cases pair
  | true =>
    obtain ⟨chain, above, line₁, ctx₁, walk, ends, behind⟩ := h.exists_endsIn pair
    obtain ⟨pieces, walked⟩ := walk.walks.ledger
    obtain ⟨pieces', line₂, ctx₂, read, points⟩ := ends.exists_points g
    have ledger := walked.trans read
    rw [List.append_nil, List.append_nil] at ledger
    have distinct := ledger.distinct (walk.walks.nodup a)
    rw [nodesOf_append] at distinct
    have waiting := (List.nodup_append.1 distinct).1
    refine ⟨fun _ => Cursor.offers_eq pair, ?_, waiting.sublist points.sublist, ?_⟩
    · rintro typed ctx rfl offer ho
      exact Cursor.exists_flag ho
    · intro x hx
      obtain ⟨s, hs, rfl⟩ := List.mem_map.1 (points.sublist.subset hx)
      have waits := ledger.mem_waitsOf_iff.2 (.inl hs)
      have listed : s ∈ chain ∧ s.isSwitch = true := List.mem_filter.1 waits
      obtain ⟨inside, lies⟩ :=
        a.mem_preorder_of_mem_path walk.walks.rootPath (List.mem_map_of_mem listed.1)
      refine ⟨inside, ?_, s, walk.walks.standing a waits, listed.2⟩
      rcases behind with rfl | below
      · exact lies
      · exact a.mem_preorder_child inside lies below

/-! ## All ways -/

theorem count_flatMap_le_one {α : Type} {xs : List α} {f : α → List Nat} {x : Nat}
    (once : ∀ y ∈ xs, (f y).Nodup) (alone : xs.Pairwise fun y z => ¬ (x ∈ f y ∧ x ∈ f z)) :
    (xs.flatMap f).count x ≤ 1 := by
  induction xs with
  | nil => simp
  | cons y xs ih =>
    rw [List.flatMap_cons, List.count_append]
    rw [List.pairwise_cons] at alone
    rw [List.forall_mem_cons] at once
    by_cases here : x ∈ f y
    · have none : x ∉ xs.flatMap f := by
        intro later
        obtain ⟨z, hz, hx⟩ := List.mem_flatMap.1 later
        exact alone.1 z hz ⟨here, hx⟩
      rw [List.count_eq_zero_of_not_mem none]
      exact List.nodup_iff_count_le_one.1 once.1 x
    · rw [List.count_eq_zero_of_not_mem here, Nat.zero_add]
      exact ih once.2 alone.2

/-- Two ways that offer the same switch have parted at the switch or below it. -/
theorem StopsAt.forksBelow (a : g.tree.Arena) {n n' x : Nat} {cursor cursor' : Cursor ε}
    (h : g.StopsAt Tree.root line { env, limit } n cursor)
    (h' : g.StopsAt Tree.root line { env, limit } n' cursor') (other : n ≠ n')
    (offered : x ∈ cursor.offered.map Prod.fst) (offered' : x ∈ cursor'.offered.map Prod.fst) :
    g.tree.ForksBelow x n n' := by
  obtain ⟨inside, below, -⟩ := (h.offersOnce a).above x offered
  obtain ⟨-, below', -⟩ := (h'.offersOnce a).above x offered'
  exact a.forksBelow inside below below' (fun up => other (h.apart a a.nonempty h' up))
    fun down => other (h'.apart a a.nonempty h down).symm

/-- **How often a switch is offered.**  A line that has not ended is completed, in a fresh context,
to what its cursors offer, at most one to each node, where the way there by the rules of the match
ends.  At a cursor on a flag every waiting switch is offered by at most one flag, and at a cursor on
a value the values are those of one switch; the switches are nodes on the way to the cursor, each
once.  Two cursors that offer the same switch lie behind different children of a node at or below
the switch.  A switch from which on no node has two children is therefore offered at most once. -/
theorem switch_offers (g : Grammar ε) (built : g.tree.Built) (line : String) (env : ε)
    (limit : Nat) :
    ∃ stops : List (Nat × Cursor ε),
      (g.complete Tree.root (some line) { env, limit }).texts =
        stops.flatMap (fun stop => stop.2.offers) ∧
      (stops.map Prod.fst).Nodup ∧
      (∀ n cursor, (n, cursor) ∈ stops ↔ g.StopsAt Tree.root line { env, limit } n cursor) ∧
      (∀ stop ∈ stops, g.OffersOnce stop.1 stop.2) ∧
      (∀ stop ∈ stops, ∀ other ∈ stops, stop.1 ≠ other.1 → ∀ x ∈ stop.2.offered.map Prod.fst,
        x ∈ other.2.offered.map Prod.fst → g.tree.ForksBelow x stop.1 other.1) ∧
      ∀ x, (∀ n ∈ g.tree.preorder x, (g.tree.children n).length ≤ 1) →
        (stops.flatMap fun stop => stop.2.offered.map Prod.fst).count x ≤ 1 := by
  have a := built.arena
  obtain ⟨stops, sub, mem, eq⟩ := exists_stops a a.nonempty line { env, limit }
  have cursors := (cursors_root a (some line) { env, limit }).trans eq
  have nodup : (stops.map Prod.fst).Nodup := (a.nodup_preorder a.nonempty).sublist sub
  have once : ∀ stop ∈ stops, g.OffersOnce stop.1 stop.2 := fun stop hs =>
    ((mem stop.1 stop.2).1 hs).offersOnce a
  have forks : ∀ stop ∈ stops, ∀ other ∈ stops, stop.1 ≠ other.1 →
      ∀ x ∈ stop.2.offered.map Prod.fst, x ∈ other.2.offered.map Prod.fst →
        g.tree.ForksBelow x stop.1 other.1 := fun stop hs other ho apart x hx hx' =>
    ((mem stop.1 stop.2).1 hs).forksBelow a ((mem other.1 other.2).1 ho) apart hx hx'
  refine ⟨stops, ?_, nodup, mem, once, forks, fun x single => ?_⟩
  · rw [complete, cursors, List.flatMap_map]
  · refine count_flatMap_le_one (fun stop hs => (once stop hs).nodup) ?_
    refine (List.pairwise_map.1 nodup).imp_of_mem fun hs ho apart both => ?_
    exact Tree.not_forksBelow single (forks _ hs _ ho apart x both.1 both.2)

def dropTree : Tree Unit :=
  (Tree.empty.insert Tree.root "drop @string(switch=to|t, default=bag) @int(switch=n, max=3) all").2

/-- Behind `drop ` both switches wait, and each is offered by its first flag. -/
theorem switch_offers_drop :
    dropTree.Built ∧
      ((⟨dropTree, .standard, {}⟩ : Grammar Unit).complete Tree.root (some "drop -")
        { env := (), limit := 20 }).texts = ["-to", "-n"] ∧
      (∀ n ∈ dropTree.preorder 2, (dropTree.children n).length ≤ 1) ∧
      ∃ stops : List (Nat × Cursor Unit),
        ["-to", "-n"] = stops.flatMap (fun stop => stop.2.offers) ∧
        (stops.flatMap fun stop => stop.2.offered.map Prod.fst).count 2 ≤ 1 := by
  have built : dropTree.Built := .insert .empty (by decide) _
  have texts : ((⟨dropTree, .standard, {}⟩ : Grammar Unit).complete Tree.root (some "drop -")
      { env := (), limit := 20 }).texts = ["-to", "-n"] := by decide +kernel
  have single : ∀ n ∈ dropTree.preorder 2, (dropTree.children n).length ≤ 1 := by decide +kernel
  obtain ⟨stops, offers, -, -, -, -, once⟩ :=
    switch_offers ⟨dropTree, .standard, {}⟩ built "drop -" () 20
  exact ⟨built, texts, single, stops, texts ▸ offers, once 2 single⟩

/-- One switch, behind which a number or a word may stand: its flag is offered for either, and so
are its values. -/
theorem switch_offered_twice :
    giveTree.Built ∧
      ((List.range giveTree.size).filter fun n =>
        (((⟨giveTree, .standard, {}⟩ : Grammar Unit).slot? n).map Slot.isSwitch).getD false) = [2] ∧
      ((⟨giveTree, .standard, {}⟩ : Grammar Unit).complete Tree.root (some "give -")
        { env := () }).texts = ["-n", "-n"] ∧
      ((⟨giveTree, .standard, {}⟩ : Grammar Unit).complete Tree.root (some "give -n ")
        { env := () }).texts = ["0", "1", "2", "3", "0", "1", "2", "3"] :=
  ⟨.insert (.insert .empty (by decide) _) (by decide +kernel) _, by decide +kernel,
    by decide +kernel, by decide +kernel⟩

end Grammar

end CommandTree
