import CommandTree.Proofs.Dispatch
import CommandTree.Proofs.Reading

/-!
# The order of switches

A switch is found by its flag wherever its pair stands behind the tokens that lead to it, and its
value goes where the switch stands on the path.  So the lines that spell a path with the same tokens
and the same pairs all make the same call (`dispatch_written`).

Results:
* `Stands.counts`: the slot that counts for a station has its value, given or left out.
* `spell_written`: the walk of the chain finds all values of the path.
* `dispatch_written`: a line that spells a path, in any order of its pairs, is dispatched to the
  handler of that path with the values of the path.
-/
namespace CommandTree

variable {ε : Type} {around : Surroundings ε} {g : Grammar ε}

/-! ## The call -/

theorem Used.consumed?_eq {stations : List (Station ε)} {ctx ctx' : Context ε}
    (used : Used stations ctx ctx') (nodup : (stations.map fun s => s.slot.node).Nodup)
    (fresh : ctx.consumed = []) {s : Station ε} (hs : s ∈ stations) :
    ctx'.consumed? s.slot.node = s.taken? := by
  cases ht : s.taken? with
  | some t => exact used.given s hs t ht
  | none =>
    have same : ctx'.consumed? s.slot.node = ctx.consumed? s.slot.node := by
      apply used.others
      intro r hr he
      rw [List.inj_on_of_nodup_map nodup hr hs he, ht]
    rw [same, Context.consumed?, fresh, List.find?_nil]

/-- A station of the chain counts for a slot that has the station's value. -/
theorem Stands.counts {ctx : Context ε} {s : Station ε} {slot : Slot ε} (stands : Stands s slot)
    (fits : s.Fits around) (basic : s.slot.type.Basic)
    (used : ctx.consumed? s.slot.node = s.taken?) :
    ∃ t, ctx.Counts slot t ∧ t.isSuppressed = s.slot.isSuppressed ∧
      t.value ctx.around = .ok s.value := by
  cases fits with
  | @word slot token v plain _ _ accepted =>
    cases stands with
    | switch switch => simp [plain] at switch
    | @word token around' spelled =>
      cases spelled
      refine ⟨_, .plain used plain, rfl, ?_⟩
      exact (basic.result_eq token slot.descriptor around' around).trans accepted
  | @pair slot flag value v switch _ _ _ accepted =>
    cases stands with
    | word spelled => cases spelled
    | switch _ =>
      refine ⟨_, .used used, rfl, ?_⟩
      exact (basic.result_eq value slot.descriptor ctx.around around).trans accepted
  | @default slot token v switch default accepted =>
    cases stands with
    | word spelled => cases spelled
    | switch _ =>
      have absent : slot.type.consume slot.descriptor none = .ok ⟨some token, none⟩ := by
        rw [basic.consume_eq, consumeToken, consumeAbsent, default]
      refine ⟨_, .absent used switch absent, rfl, ?_⟩
      exact (basic.result_eq token slot.descriptor ctx.around around).trans accepted
  | @omitted slot switch default optional =>
    cases stands with
    | word spelled => cases spelled
    | switch _ =>
      have absent : slot.type.consume slot.descriptor none = .ok ⟨none, none⟩ := by
        rw [basic.consume_eq, consumeToken, consumeAbsent, default]
        simp only [if_neg optional]
      exact ⟨_, .absent used switch absent, rfl, rfl⟩

theorem effective_of_stands {ctx : Context ε} {route : List (Station ε)} {chain : List (Slot ε)}
    (stands : List.Forall₂ Stands route chain) (fits : ∀ s ∈ route, s.Fits around)
    (basic : ∀ s ∈ route, s.slot.type.Basic)
    (used : ∀ s ∈ route, ctx.consumed? s.slot.node = s.taken?) :
    ∃ slots, ctx.Effective chain slots ∧ nodesOf slots = nodesOf chain ∧ Sane ctx.around slots ∧
      argumentsOf ctx.around slots = valuesOf route := by
  induction stands with
  | nil => exact ⟨[], .nil, rfl, by simp [Sane], rfl⟩
  | @cons s slot route chain stands _ ih =>
    rw [List.forall_mem_cons] at fits basic used
    obtain ⟨slots, effective, nodes, sane, values⟩ := ih fits.2 basic.2 used.2
    obtain ⟨t, counts, suppressed, value⟩ := stands.counts fits.1 basic.1 used.1
    refine ⟨t :: slots, .cons counts effective, ?_, sane.cons value, ?_⟩
    · rw [nodesOf_cons, nodesOf_cons, counts.node_eq, nodes]
    · rw [argumentsOf_cons value, valuesOf_cons, suppressed, values]

theorem nodesOf_stands {route : List (Station ε)} {chain : List (Slot ε)}
    (stands : List.Forall₂ Stands route chain) :
    nodesOf chain = route.map fun s => s.slot.node := by
  induction stands with
  | nil => rfl
  | cons stands _ ih =>
    rw [nodesOf_cons, List.map_cons, ih]
    cases stands <;> rfl

namespace Grammar

theorem Route.mem {node : Nat} {route : List (Station ε)} (path : g.Route around node route) :
    ∀ s ∈ route, g.slot? s.slot.node = some s.slot ∧ s.Fits around := by
  induction path with
  | leaf _ => simp
  | down _ here fits _ _ ih =>
    intro s hs
    rcases List.mem_cons.1 hs with rfl | hs
    · exact ⟨here, fits⟩
    · exact ih s hs

theorem Route.isChain {node : Nat} {route : List (Station ε)} (path : g.Route around node route) :
    List.IsChain (fun p c => c ∈ g.tree.children p) (node :: route.map fun s => s.slot.node) := by
  induction path with
  | leaf _ => exact List.isChain_singleton _
  | down below _ _ _ _ ih =>
    rw [List.map_cons, List.isChain_cons_cons]
    exact ⟨below, ih⟩

theorem Route.nodup (a : g.tree.Arena) {node : Nat} {route : List (Station ε)}
    (path : g.Route around node route) : (route.map fun s => s.slot.node).Nodup := by
  have ascending := List.isChain_iff_pairwise.1 (path.isChain.imp a.lt_child)
  exact (List.pairwise_cons.1 ascending).2.imp Nat.ne_of_lt

/-- The match of a line that spells a path is that path. -/
theorem matchOf_written (a : g.tree.Arena) {route pieces : List (Station ε)}
    (path : g.Route around Tree.root route) {ctx : Context ε}
    (reading : Reading around [] route pieces ctx) :
    List.Forall₂ Stands route (g.matchOf (written pieces) ctx).chain ∧
      Used route ctx (g.matchOf (written pieces) ctx).context := by
  have fits : ∀ s ∈ pieces, s.Fits around := by
    intro s hs
    apply reading.clear.fits
    exact List.mem_append.2 (reading.mem_of_piece hs).1
  have spelled : ∀ s ∈ pieces, s.isSpelled = true := fun s hs => (reading.mem_of_piece hs).2
  rw [matchOf, lineOf_eq fits spelled, resolve_root a]
  exact below_route a path reading

theorem spell_written (a : g.tree.Arena) {route pieces : List (Station ε)} {env : ε} {limit : Nat}
    (path : g.Route around Tree.root route)
    (reading : Reading around [] route pieces { env, limit }) :
    (g.matchOf (written pieces) { env, limit }).context.spell
        (g.matchOf (written pieces) { env, limit }).chain =
      ⟨route.map fun s => s.slot.node, valuesOf route, none⟩ := by
  obtain ⟨stands, used⟩ := matchOf_written a path reading
  have derives : g.Derives Tree.root _ _ (g.matchOf (written pieces) { env, limit }).chain
      (g.matchOf (written pieces) { env, limit }).context := resolve_derives a _ _
  have sound := (sound_keeps g).derives (sound_fresh g env limit) derives
  have given : ∀ s ∈ route,
      (g.matchOf (written pieces) { env, limit }).context.consumed? s.slot.node = s.taken? := by
    intro s hs
    exact used.consumed?_eq (path.nodup a) rfl hs
  obtain ⟨slots, effective, nodes, sane, values⟩ :=
    effective_of_stands stands reading.clear.fits reading.clear.basic given
  obtain ⟨slots', effective', finds⟩ := spell_finds sound derives.placed
  obtain rfl := effective.unique effective'
  rw [finds.eq_of_sane sane, nodes, nodesOf_stands stands, values]

/-- **Switches may stand in any order.**  Take a path down to a leaf whose nodes accept what a line
has for them and whose switches share no flag.  In whatever order the pieces stand, as long as no
token stands behind what follows its node on the path, the match is that path, and what is planned
is what the path and its values call for: the same handler with the same arguments. -/
theorem dispatch_written (g : Grammar ε) (built : g.tree.Built)
    (basic : ∀ node slot, g.slot? node = some slot → slot.type.Basic) (env : ε) (limit : Nat)
    (route : List (Station ε)) (path : g.Route { env, limit } Tree.root route)
    (disjoint : route.Pairwise fun s t =>
      ∀ flag ∈ s.slot.descriptor.flags, flag ∉ t.slot.descriptor.flags)
    (pieces : List (Station ε)) (arranged : Arranges route pieces) (base : List Value) :
    nodesOf (g.matchOf (written pieces) { env, limit }).chain = route.map (·.slot.node) ∧
      (g.plan (Text.trim (written pieces)) { env, limit } base).1 =
        g.planEnd (Tree.root :: route.map (·.slot.node)) base (valuesOf route) ∧
      ∀ last h, (Tree.root :: route.map (·.slot.node)).getLast? = some last →
        g.tree.handler? last .execute = some h →
          (g.dispatch (written pieces) { env, limit } base).outcome =
              (h.run env ⟨padded h.arity (base ++ valuesOf route)⟩).outcome.map
                (fun _ => .execute) ∧
            (g.dispatch (written pieces) { env, limit } base).context.env =
              (h.run env ⟨padded h.arity (base ++ valuesOf route)⟩).env := by
  have a := built.arena
  have stations := path.mem
  have reading : Reading { env, limit } [] route pieces ({ env, limit } : Context ε) :=
    { clear :=
        { fits := fun s hs => (stations s hs).2
          basic := fun s hs => basic _ _ (stations s hs).1
          disjoint := disjoint
          nodup := path.nodup a }
      waits := rfl
      switches := fun s hs => absurd hs List.not_mem_nil
      perm := arranged.perm
      order := arranged.order }
  have plan_eq : (g.plan (Text.trim (written pieces)) { env, limit } base).1 =
      g.planEnd (Tree.root :: route.map (·.slot.node)) base (valuesOf route) := by
    have spelled := spell_written a path reading
    simp only [matchOf] at spelled
    simp only [plan, spelled]
  refine ⟨nodesOf_stands (matchOf_written a path reading).1, plan_eq, ?_⟩
  intro last h hlast bound
  have planned := plan_eq.trans (planEnd_of_bound hlast bound base (valuesOf route))
  exact dispatch_eq a env limit (written pieces) base planned

end Grammar

/-! ## A line with its switch at the end -/

def giftTree : Tree (List Value) :=
  ((Tree.empty.insert Tree.root "@string(switch=type|t) @string").2.insert Tree.root
    "@string(switch=type|t) help").2.bind 2 .execute ⟨2, fun _ args => { env := args.values }⟩

def giftGrammar : Grammar (List Value) := ⟨giftTree, .standard, {}⟩

theorem giftTree_shape :
    2 < giftTree.size ∧
      (giftTree.descriptor 1).map (fun d => (d.name, d.params.entries)) =
        some ("@string", [("switch", "type|t")]) ∧
      (giftTree.descriptor 2).map (fun d => (d.name, d.params.entries)) = some ("@string", []) ∧
      (giftTree.descriptor 3).map (fun d => (d.name, d.params.entries)) = some ("help", []) ∧
      giftTree.children Tree.root = [1] ∧ giftTree.children 1 = [2, 3] ∧
      giftTree.isLeaf 2 = true := by
  decide +kernel

theorem giftTree_built : giftTree.Built :=
  .bind (.insert_root (.insert_root .empty _) _) giftTree_shape.1 _ _

/-- A slot for a node of this name and these parameters. -/
def giftSlot (node : Nat) (entries : List (String × String)) : Slot (List Value) :=
  { node, descriptor := ⟨"@string", ⟨entries⟩⟩, type := .text }

def typeStation : Station (List Value) :=
  ⟨giftSlot 1 [("switch", "type|t")], .pair "t" "iron", .text "iron"⟩

def whatStation : Station (List Value) := ⟨giftSlot 2 [], .word "sword", .text "sword"⟩

theorem typeStation_fits (around : Surroundings (List Value)) : typeStation.Fits around :=
  .pair (by decide) (by decide) (Text.solid_of_all (by decide))
    ⟨by decide, Text.solid_of_all (by decide)⟩ rfl

theorem whatStation_fits (around : Surroundings (List Value)) : whatStation.Fits around :=
  .word (by decide) ⟨by decide, Text.solid_of_all (by decide)⟩
    (mt dashed_some_iff.1 (by decide)) rfl

theorem giftGrammar_route :
    giftGrammar.Route { env := [], limit := defaultLimit } Tree.root
      [typeStation, whatStation] := by
  have texts : giftGrammar.types.lookup "@string" = .text := TypeTable.lookup_standard _
  have literals : giftGrammar.types.lookup "help" = .literal := TypeTable.lookup_standard _
  obtain ⟨-, type, what, help, only, two, leaf⟩ := giftTree_shape
  have first : 1 ∈ giftTree.children Tree.root := by simp [only]
  have second : 2 ∈ giftTree.children 1 := by simp [two]
  refine .down first ?_ (typeStation_fits _) ?_
    (.down second ?_ (whatStation_fits _) ?_ (.leaf leaf))
  · rw [typeStation, giftSlot, Grammar.slot?_eq type, texts]
  · intro c hc hne
    exact absurd (List.mem_singleton.1 (only ▸ hc)) hne
  · rw [whatStation, giftSlot, Grammar.slot?_eq what, texts]
  · intro c hc hne slot here
    have hc3 : c = 3 := by
      have hc : c ∈ [2, 3] := two ▸ hc
      rcases List.mem_cons.1 hc with h | h
      · exact absurd h hne
      · exact List.mem_singleton.1 h
    rw [hc3, Grammar.slot?_eq help, literals] at here
    cases here
    exact ⟨rfl, by decide, by decide, by decide, by decide, by decide⟩

theorem arranges_gift : Arranges [typeStation, whatStation] [whatStation, typeStation] where
  perm := .swap _ _ _
  order := by
    apply List.pairwise_pair.2
    intro h
    cases h

/-- The switch that stands first on the path is given last on the line. -/
theorem dispatch_written_gift :
    giftTree.Built ∧
      giftGrammar.Route { env := [], limit := defaultLimit } Tree.root [typeStation, whatStation] ∧
      Arranges [typeStation, whatStation] [whatStation, typeStation] ∧
      (giftGrammar.dispatch "sword -t iron" { env := [] } []).outcome = .ok .execute ∧
      (giftGrammar.dispatch "sword -t iron" { env := [] } []).context.env =
        [.text "iron", .text "sword"] := by
  have line : written [whatStation, typeStation] = "sword -t iron" := by decide
  have types : ∀ node slot, giftGrammar.slot? node = some slot → slot.type.Basic := by
    intro node slot here
    obtain ⟨d, -, rfl⟩ := Option.map_eq_some_iff.1 here
    exact TypeTable.standard_basic d.name
  obtain ⟨-, -, call⟩ := Grammar.dispatch_written giftGrammar giftTree_built types [] defaultLimit
    [typeStation, whatStation] giftGrammar_route (by decide) [whatStation, typeStation]
    arranges_gift []
  rw [line] at call
  obtain ⟨outcome, env⟩ := call 2 _ rfl rfl
  exact ⟨giftTree_built, giftGrammar_route, arranges_gift, outcome, env⟩

end CommandTree
