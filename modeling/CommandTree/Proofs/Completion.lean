import CommandTree.Proofs.Approach
import CommandTree.Proofs.DepthFirst
import CommandTree.Proofs.PositionalDepth
import Mathlib.Data.List.Flatten
import Mathlib.Tactic.Choose

/-!
# The completions of a line

A completion explores every path of the tree and stops where the line ends; a match follows one
path to its end.  Both read the line by the same rules: the completion has its cursor on the token
of a node exactly where the rules of the match lead to the node with input left all the way, and
the token of the node uses the input up.

Each node is met on one path only, and so at most one cursor belongs to it (`StopsAt`).  What a line
is completed to is what its cursors offer, in the depth-first order of their nodes.

Results:
* `Advances.walks`: the way to a cursor is a path of the match.
* `cursors_eq`: the cursors from a node without the bound of their recursion.
* `forall_cursorsWithin`: what every step down keeps holds at every cursor.
* `exists_stops`: the cursors below a node are those of the nodes there, in depth-first order.
* `complete_stops`: the completions of a line.
-/
namespace CommandTree

variable {ε : Type}

/-- Where the line ends, one thing holds of the cursor; where it goes on, another of the rest and
the context. -/
def Approach.Meets (AtEnd : Cursor ε → Prop) (Onward : Option String → Context ε → Prop) :
    Approach ε → Prop
  | .lost _ => True
  | .at cursor => AtEnd cursor
  | .go rest ctx => Onward rest ctx

namespace Grammar

/-! ## The way to a node -/

/-- A path from one node down to another on which every node goes on by the rules of a match with
input left: the slots of the path, the node it comes to, and the line and the context there. -/
inductive Advances (g : Grammar ε) :
    Nat → String → Context ε → List (Slot ε) → Nat → String → Context ε → Prop
  | here {node : Nat} {line : String} {ctx : Context ε} : Advances g node line ctx [] node line ctx
  | down {node child last : Nat} {line line' line'' : String} {ctx ctx' ctx'' : Context ε}
      {slot : Slot ε} {chain : List (Slot ε)} (below : child ∈ g.tree.children node)
      (leads : g.Leads child line ctx slot line' ctx')
      (rest : Advances g child line' ctx' chain last line'' ctx'') :
      Advances g node line ctx (slot :: chain) last line'' ctx''

/-- The way from a node to another ends on a cursor: in front of the node or on its token, or behind
it among the pairs that follow a node without children. -/
inductive StopsAt (g : Grammar ε) (start : Nat) (line : String) (ctx : Context ε) :
    Nat → Cursor ε → Prop
  | before {above node : Nat} {chain : List (Slot ε)} {line' : String} {ctx' : Context ε}
      {cursor : Cursor ε} (walk : g.Advances start line ctx chain above line' ctx')
      (below : node ∈ g.tree.children above) (halts : g.Halts node line' ctx' cursor) :
      StopsAt g start line ctx node cursor
  | behind {node : Nat} {chain : List (Slot ε)} {line' : String} {ctx' : Context ε}
      {cursor : Cursor ε} (walk : g.Advances start line ctx chain node line' ctx')
      (leaf : g.tree.isLeaf node = true) (ends : ctx'.EndsIn (some line') cursor) :
      StopsAt g start line ctx node cursor

variable {g : Grammar ε}

/-- The way to a cursor is a path of the match. -/
theorem Advances.walks {node last : Nat} {line line' : String} {ctx ctx' : Context ε}
    {chain : List (Slot ε)} (h : g.Advances node line ctx chain last line' ctx') :
    g.Walks node (some line) ctx chain last (some line') ctx' := by
  induction h with
  | here => exact .here
  | down below leads _ ih => exact .down below leads.passes ih

/-- A way from a node ends there, or goes on by one of its children. -/
theorem stopsAt_iff {start : Nat} {line : String} {ctx : Context ε} {node : Nat}
    {cursor : Cursor ε} :
    g.StopsAt start line ctx node cursor ↔
      (node = start ∧ g.tree.isLeaf start = true ∧ ctx.EndsIn (some line) cursor) ∨
        ∃ child ∈ g.tree.children start,
          (node = child ∧ g.Halts child line ctx cursor) ∨
            ∃ slot line' ctx', g.Leads child line ctx slot line' ctx' ∧
              g.StopsAt child line' ctx' node cursor := by
  constructor
  · intro h
    cases h with
    | before walk below halts =>
      cases walk with
      | here => exact .inr ⟨node, below, .inl ⟨rfl, halts⟩⟩
      | down below' leads rest =>
        exact .inr ⟨_, below', .inr ⟨_, _, _, leads, .before rest below halts⟩⟩
    | behind walk leaf ends =>
      cases walk with
      | here => exact .inl ⟨rfl, leaf, ends⟩
      | down below' leads rest =>
        exact .inr ⟨_, below', .inr ⟨_, _, _, leads, .behind rest leaf ends⟩⟩
  · rintro (⟨rfl, leaf, ends⟩ | ⟨child, below, ⟨rfl, halts⟩ | ⟨slot, line', ctx', leads, stops⟩⟩)
    · exact .behind .here leaf ends
    · exact .before .here below halts
    · cases stops with
      | before walk below' halts => exact .before (.down below leads walk) below' halts
      | behind walk leaf ends => exact .behind (.down below leads walk) leaf ends

/-- The cursor on the token of a node lies where the rules of the match lead to the node with input
left all the way, and the token uses the input up. -/
theorem stopsAt_token_iff {start : Nat} {line : String} {ctx : Context ε} {node : Nat}
    {slot : Slot ε} {ctx' : Context ε} :
    g.StopsAt start line ctx node (.token slot ctx') ↔
      ∃ chain above line₁ ctx₁ s text taken, g.Advances start line ctx chain above line₁ ctx₁ ∧
        node ∈ g.tree.children above ∧ g.slot? node = some s ∧ s.isSwitch = false ∧
        ctx₁.Reads (some line₁) ctx' (some text) ∧
        s.type.consume s.descriptor (some text) = .ok taken ∧ taken.rest = none ∧
        slot = s.holding taken := by
  have pairs {ctx : Context ε} {line : Option String} : ¬ ctx.EndsIn line (.token slot ctx') := by
    intro h
    generalize hcursor : Cursor.token slot ctx' = cursor at h
    induction h with
    | here points => cases points <;> cases hcursor
    | pair _ _ ih => exact ih hcursor
  constructor
  · intro h
    cases h with
    | behind _ _ ends => exact absurd ends pairs
    | before walk below halts =>
      cases halts with
      | pair _ _ ends => exact absurd ends pairs
      | token here plain reads consumed last =>
        exact ⟨_, _, _, _, _, _, _, walk, below, here, plain, reads, consumed, last, rfl⟩
  · rintro ⟨_, _, _, _, _, _, _, walk, below, here, plain, reads, consumed, last, rfl⟩
    exact .before walk below (.token here plain reads consumed last)

/-! ## The cursors without their bound -/

/-- The cursors below a node that has been left with this line and this context. -/
def cursorsBelow (g : Grammar ε) (node : Nat) (line : Option String) (ctx : Context ε) :
    List (Cursor ε) :=
  if g.tree.isLeaf node then trailingCursors ctx line
  else (g.tree.children node).flatMap fun child => g.cursors child line ctx

theorem cursorsWithin_eq (a : g.tree.Arena) {levels levels' node : Nat}
    (inside : node < g.tree.size) (h : g.tree.size ≤ node + levels)
    (h' : g.tree.size ≤ node + levels') (line : Option String) (ctx : Context ε) :
    g.cursorsWithin levels node line ctx = g.cursorsWithin levels' node line ctx := by
  induction levels generalizing levels' node line ctx with
  | zero => omega
  | succ levels ih =>
    cases levels' with
    | zero => omega
    | succ levels' =>
      simp only [cursorsWithin]
      cases g.approach node line ctx with
      | lost _ => rfl
      | «at» _ => rfl
      | go rest ctx =>
        simp only
        split
        · rfl
        · refine List.flatMap_congr fun c hc => ?_
          have lt := a.lt_child node c hc
          exact ih (a.child_lt node c hc) (by omega) (by omega) rest ctx

/-- The cursors from a node are what approaching it comes to, or those below. -/
theorem cursors_eq (a : g.tree.Arena) {node : Nat} (inside : node < g.tree.size)
    (line : Option String) (ctx : Context ε) :
    g.cursors node line ctx =
      match g.approach node line ctx with
      | .lost _ => []
      | .at cursor => [cursor]
      | .go rest ctx => g.cursorsBelow node rest ctx := by
  rw [cursors, cursorsWithin_eq a inside (Nat.le_add_left _ _)
    (by omega : g.tree.size ≤ node + (g.tree.size + 1)), cursorsWithin]
  rfl

theorem cursors_root (a : g.tree.Arena) (line : Option String) (ctx : Context ε) :
    g.cursors Tree.root line ctx = g.cursorsBelow Tree.root line ctx := by
  rw [cursors_eq a a.nonempty, approach, slot?, a.descriptor_root]
  rfl

/-! ## What holds at every cursor -/

/-- What every node and every run of pairs keeps leads down to every cursor. -/
theorem forall_cursorsWithin {AtEnd : Cursor ε → Prop}
    (Onward : Option String → Context ε → Prop)
    (pairs : ∀ line ctx, Onward line ctx → (ctx.approach line).Meets AtEnd Onward)
    (nodes : ∀ node line ctx, Onward line ctx → (g.approach node line ctx).Meets AtEnd Onward)
    (levels node : Nat) {line : Option String} {ctx : Context ε} (here : Onward line ctx) :
    ∀ cursor ∈ g.cursorsWithin levels node line ctx, AtEnd cursor := by
  induction levels generalizing node line ctx with
  | zero => simp [cursorsWithin]
  | succ levels ih =>
    have entered := nodes node line ctx here
    rw [cursorsWithin]
    generalize g.approach node line ctx = entry at entered ⊢
    cases entry with
    | lost _ => simp
    | «at» cursor => exact List.forall_mem_singleton.2 entered
    | go rest ctx' =>
      simp only
      split
      · have trailed := pairs rest ctx' entered
        rw [trailingCursors]
        generalize ctx'.approach rest = trailing at trailed ⊢
        cases trailing with
        | «at» cursor => exact List.forall_mem_singleton.2 trailed
        | lost _ | go _ _ => simp
      · intro cursor hc
        obtain ⟨child, -, hc⟩ := List.mem_flatMap.1 hc
        exact ih child entered cursor hc

/-! ## Stops in depth-first order -/

theorem sublist_flatMap {α β : Type} {xs : List α} {f g : α → List β}
    (h : ∀ x ∈ xs, (f x).Sublist (g x)) : (xs.flatMap f).Sublist (xs.flatMap g) := by
  induction xs with
  | nil => exact .refl _
  | cons x xs ih =>
    rw [List.forall_mem_cons] at h
    rw [List.flatMap_cons, List.flatMap_cons]
    exact h.1.append (ih h.2)

/-- The nodes of `order` that have a cursor, as they follow each other there, each with its
cursor. -/
structure Stops (order : List Nat) (belongs : Nat → Cursor ε → Prop) (cursors : List (Cursor ε))
    (stops : List (Nat × Cursor ε)) : Prop where
  sublist : (stops.map Prod.fst).Sublist order
  mem_iff : ∀ n cursor, (n, cursor) ∈ stops ↔ belongs n cursor
  cursors_eq : cursors = stops.map Prod.snd

namespace Stops

variable {order : List Nat} {belongs belongs' : Nat → Cursor ε → Prop} {cursors : List (Cursor ε)}
  {stops : List (Nat × Cursor ε)}

theorem nil (order : List Nat) (h : ∀ n cursor, ¬ belongs n cursor) :
    Stops order belongs [] [] where
  sublist := List.nil_sublist _
  mem_iff n cursor := iff_of_false List.not_mem_nil (h n cursor)
  cursors_eq := rfl

theorem singleton {node : Nat} {cursor : Cursor ε} (mem : node ∈ order)
    (h : ∀ n other, belongs n other ↔ n = node ∧ other = cursor) :
    Stops order belongs [cursor] [(node, cursor)] where
  sublist := List.singleton_sublist.2 mem
  mem_iff n other := by rw [List.mem_singleton, Prod.mk.injEq, h]
  cursors_eq := rfl

theorem congr (h : Stops order belongs cursors stops)
    (same : ∀ n cursor, belongs n cursor ↔ belongs' n cursor) :
    Stops order belongs' cursors stops :=
  ⟨h.sublist, fun n cursor => (h.mem_iff n cursor).trans (same n cursor), h.cursors_eq⟩

theorem flatMap {children : List Nat} {orders : Nat → List Nat}
    {belongs : Nat → Nat → Cursor ε → Prop} {cursors : Nat → List (Cursor ε)}
    {stops : Nat → List (Nat × Cursor ε)}
    (h : ∀ child ∈ children, Stops (orders child) (belongs child) (cursors child) (stops child)) :
    Stops (children.flatMap orders) (fun n cursor => ∃ child ∈ children, belongs child n cursor)
      (children.flatMap cursors) (children.flatMap stops) where
  sublist := by
    rw [List.map_flatMap]
    exact sublist_flatMap fun child hc => (h child hc).sublist
  mem_iff n cursor := by
    rw [List.mem_flatMap]
    exact exists_congr fun child => and_congr_right fun hc => (h child hc).mem_iff n cursor
  cursors_eq := by
    rw [List.map_flatMap]
    exact List.flatMap_congr fun child hc => (h child hc).cursors_eq

end Stops

theorem trailing_stops (ctx : Context ε) (node : Nat) (line : String) :
    ∃ stops, Stops [node] (fun n cursor => n = node ∧ ctx.EndsIn (some line) cursor)
      (trailingCursors ctx (some line)) stops := by
  simp only [← Context.approach_eq_at_iff]
  rw [trailingCursors]
  cases ctx.approach (some line) with
  | «at» cursor =>
    refine ⟨_, .singleton List.mem_cons_self fun n other => and_congr_right fun _ => ?_⟩
    rw [Approach.at.injEq, eq_comm]
  | lost _ => exact ⟨_, .nil _ (by simp)⟩
  | go _ _ => exact ⟨_, .nil _ (by simp)⟩

theorem child_stops (a : g.tree.Arena) {node child : Nat} (below : child ∈ g.tree.children node)
    (line : String) (ctx : Context ε)
    (ih : ∀ line ctx, ∃ stops, Stops (g.tree.preorder child) (g.StopsAt child line ctx)
      (g.cursorsBelow child (some line) ctx) stops) :
    ∃ stops, Stops (g.tree.preorder child)
      (fun n cursor => (n = child ∧ g.Halts child line ctx cursor) ∨
        ∃ slot line' ctx', g.Leads child line ctx slot line' ctx' ∧
          g.StopsAt child line' ctx' n cursor)
      (g.cursors child (some line) ctx) stops := by
  have inside := a.child_lt node child below
  obtain ⟨s, here⟩ := slot?_child a below
  rw [cursors_eq a inside]
  rcases approach_node_cases here line ctx with
    ⟨cursor, halts, he⟩ | ⟨slot, rest, ctx', leads, he⟩ | ⟨ctx', he⟩
  · -- the line ends in front of the child or on its token
    rw [he]
    refine ⟨_, .singleton (a.mem_preorder_self inside) fun n other => ?_⟩
    constructor
    · rintro (⟨rfl, halts'⟩ | ⟨_, _, _, leads, -⟩)
      · have same := (approach_of_halts halts').symm.trans he
        cases same
        exact ⟨rfl, rfl⟩
      · cases (approach_of_leads leads).symm.trans he
    · rintro ⟨rfl, rfl⟩
      exact .inl ⟨rfl, halts⟩
  · -- the path goes on
    rw [he]
    obtain ⟨stops, h⟩ := ih rest ctx'
    refine ⟨stops, h.congr fun n cursor => ?_⟩
    constructor
    · exact fun h => .inr ⟨_, _, _, leads, h⟩
    · rintro (⟨-, halts⟩ | ⟨_, _, _, leads', h⟩)
      · cases (approach_of_halts halts).symm.trans he
      · have same := (approach_of_leads leads').symm.trans he
        cases same
        exact h
  · -- no cursor lies this way
    rw [he]
    refine ⟨_, .nil _ fun n cursor => ?_⟩
    rintro (⟨-, halts⟩ | ⟨_, _, _, leads, -⟩)
    · cases (approach_of_halts halts).symm.trans he
    · cases (approach_of_leads leads).symm.trans he

/-- The cursors below a node are those of the nodes there, in depth-first order. -/
theorem exists_stops (a : g.tree.Arena) {node : Nat} (inside : node < g.tree.size) (line : String)
    (ctx : Context ε) :
    ∃ stops, Stops (g.tree.preorder node) (g.StopsAt node line ctx)
      (g.cursorsBelow node (some line) ctx) stops := by
  revert line ctx
  refine a.descend (P := fun node => ∀ line ctx, ∃ stops, Stops (g.tree.preorder node)
    (g.StopsAt node line ctx) (g.cursorsBelow node (some line) ctx) stops) ?_ node inside
  intro node inside ih line ctx
  rw [a.preorder_eq inside, cursorsBelow]
  cases leaf : g.tree.isLeaf node with
  | true =>
    have childless : g.tree.children node = [] := List.isEmpty_iff.1 leaf
    obtain ⟨stops, h⟩ := trailing_stops ctx node line
    rw [childless]
    refine ⟨stops, h.congr fun n cursor => ?_⟩
    rw [stopsAt_iff, childless]
    simp [leaf]
  | false =>
    have children := fun child hc => child_stops a hc line ctx (ih child hc)
    choose! stops h using children
    have all := Stops.flatMap h
    refine ⟨_, all.sublist.cons _, fun n cursor => (all.mem_iff n cursor).trans ?_, all.cursors_eq⟩
    rw [stopsAt_iff]
    simp [leaf]

/-- **A completion reads the line as a match does.**  The cursors of a line that has not ended
belong to nodes, at most one to each, and come in the depth-first order of these.  A cursor belongs
to a node exactly when the way there, by the rules of the match and with input left behind each
value and each token, ends on it.  It is on the node's own token exactly when the rules lead to the
node, with some pairs in front of it, and its token uses the input up; the token and the context are
then those of that way.  The line is completed to what the cursors offer, one after the other. -/
theorem complete_stops (g : Grammar ε) (built : g.tree.Built) (line : String) (ctx : Context ε) :
    ∃ stops : List (Nat × Cursor ε),
      g.cursors Tree.root (some line) ctx = stops.map Prod.snd ∧
      (g.complete Tree.root (some line) ctx).texts = stops.flatMap (fun stop => stop.2.offers) ∧
      (g.tree.preorder Tree.root).Perm (List.range g.tree.size) ∧
      (stops.map Prod.fst).Sublist (g.tree.preorder Tree.root) ∧
      (∀ n cursor, (n, cursor) ∈ stops ↔ g.StopsAt Tree.root line ctx n cursor) ∧
      ∀ n slot ctx', (n, .token slot ctx') ∈ stops ↔
        ∃ chain above line₁ ctx₁ s text taken,
          g.Advances Tree.root line ctx chain above line₁ ctx₁ ∧ n ∈ g.tree.children above ∧
          g.slot? n = some s ∧ s.isSwitch = false ∧ ctx₁.Reads (some line₁) ctx' (some text) ∧
          s.type.consume s.descriptor (some text) = .ok taken ∧ taken.rest = none ∧
          slot = s.holding taken := by
  have a := built.arena
  obtain ⟨stops, sub, mem, eq⟩ := exists_stops a a.nonempty line ctx
  have cursors := (cursors_root a (some line) ctx).trans eq
  refine ⟨stops, cursors, ?_, a.preorder_perm, sub, mem,
    fun n slot ctx' => (mem _ _).trans stopsAt_token_iff⟩
  rw [complete, cursors, List.flatMap_map]

def giveTree : Tree Unit :=
  ((Tree.empty.insert Tree.root "give @int(switch=n, max=3) @int(min=7, max=9)").2.insert Tree.root
    "give @int(switch=n, max=3) all").2

theorem giveTree_built : giveTree.Built := .insert_root (.insert_root .empty _) _

theorem giveTree_eq : giveTree =
    ⟨#[⟨none, [1], none⟩, ⟨some 0, [2], some ⟨"give", {}⟩⟩,
      ⟨some 1, [3, 4], some ⟨"@int", ⟨[("switch", "n"), ("max", "3")]⟩⟩⟩,
      ⟨some 2, [], some ⟨"@int", ⟨[("min", "7"), ("max", "9")]⟩⟩⟩,
      ⟨some 2, [], some ⟨"all", {}⟩⟩], []⟩ :=
  Tree.eq_of_nodes (by decide +kernel)

/-- Behind the pair of `give -n 2 ` both nodes below the switch offer their tokens. -/
theorem complete_stops_give :
    giveTree.Built ∧
      ((⟨giveTree, .standard, {}⟩ : Grammar Unit).complete Tree.root (some "give -n 2 ")
        { env := () }).texts = ["7", "8", "9", "all"] ∧
      ∃ stops : List (Nat × Cursor Unit),
        ["7", "8", "9", "all"] = stops.flatMap (fun stop => stop.2.offers) ∧
        (stops.map Prod.fst).Sublist (giveTree.preorder Tree.root) ∧
        ∀ n cursor, (n, cursor) ∈ stops ↔ StopsAt ⟨giveTree, .standard, {}⟩ Tree.root "give -n 2 "
          { env := () } n cursor := by
  have built : giveTree.Built :=
    .insert (.insert .empty (by decide) _) (by decide +kernel) _
  have texts : ((⟨giveTree, .standard, {}⟩ : Grammar Unit).complete Tree.root (some "give -n 2 ")
      { env := () }).texts = ["7", "8", "9", "all"] := by decide +kernel
  obtain ⟨stops, -, offers, -, sub, mem, -⟩ :=
    complete_stops ⟨giveTree, .standard, {}⟩ built "give -n 2 " { env := () }
  exact ⟨built, texts, stops, texts ▸ offers, sub, mem⟩

end Grammar

end CommandTree
