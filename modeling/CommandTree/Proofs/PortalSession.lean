import CommandTree.Portal.Commands
import CommandTree.Proofs.PathValues

/-!
# Sessions of the portal network, line by line

A registry that holds the portal commands and nothing else knows two labels.  A line under one of
them is always answered: whatever the rest of the line is, a handler is called, the handler finds
its arguments where it asks for them, and it replies.  Any other line does nothing.

What one line does is `Serves`; a run is a list of events, of which lines are some, and keeps what
each of them keeps.

Results:
* `handler?_commandTree`, `mem_commandSlots`: the handlers of the commands, and what reads a line.
* `arguments_of_give`: whoever hands out a block finds its arguments.
* `served_execute`: what a line under a label of the portal commands does.
* `run_served`: every run of a session, and the next line.
-/
namespace CommandTree.Portal

open CommandTree.Tree CommandTree.Grammar

/-! ## The registry of the portal commands -/

/-- The tree of the portal commands: node 1 reloads, node 2 lists, and 3 to 5 hand out a block. -/
def commandTree : Tree Session :=
  ((((Tree.empty.bindPath "" .default help).bindPath "" .error refuse).bindPath "reload" .execute
    reload).bindPath "list" .execute list).bindPath givePath .execute give

def commandTypes : TypeTable Session :=
  (TypeTable.standard.register "player" playerType).register "portaltype" kindType

/-- The grammar of the lines under the labels. -/
def commandGrammar (settings : Settings) : Grammar Session :=
  { tree := commandTree, types := commandTypes, settings }

def commandLabels : List String := ["portalnetwork", "pn"]

theorem labelsOf_commands : labelsOf "portalnetwork|pn" = commandLabels := by decide

theorem register_eq (settings : Settings) :
    register { settings } =
      { commands := #[⟨commandLabels, commandTree⟩]
        labels := [("portalnetwork", 0), ("pn", 0)]
        types := commandTypes
        settings } := by
  simp only [register, Registry.registerType, Registry.command, Registry.place, labelsOf_commands,
    commandLabels, Registry.locate, Registry.claim]
  rfl

theorem get?_register (settings : Settings) (label : String) :
    (register { settings }).get? label =
      if Text.lower label ∈ commandLabels then some ⟨commandLabels, commandTree⟩ else none := by
  rw [register_eq, Registry.get?]
  by_cases long : Text.lower label = "portalnetwork"
  · simp [long, commandLabels]
  · by_cases short : Text.lower label = "pn"
    · simp [short, commandLabels, List.lookup_cons]
    · simp [long, short, commandLabels, List.lookup_cons, beq_false_of_ne]

theorem grammar_register (settings : Settings) :
    (register { settings }).grammar ⟨commandLabels, commandTree⟩ = commandGrammar settings := by
  rw [register_eq]
  rfl

theorem commandTree_built : commandTree.Built :=
  ((((Built.empty.bindPath _ _ _).bindPath _ _ _).bindPath _ _ _).bindPath _ _ _).bindPath _ _ _

/-- Where the handlers of the portal commands stand. -/
inductive Stands : Nat → HandlerKind → Handler Session → Prop
  | help : Stands 0 .default help
  | refuse : Stands 0 .error refuse
  | reload : Stands 1 .execute reload
  | list : Stands 2 .execute list
  | give : Stands 5 .execute give

theorem handler?_commandTree {node : Nat} {kind : HandlerKind} {h : Handler Session} :
    commandTree.handler? node kind = some h ↔ Stands node kind h := by
  have bound : ∀ {t : Tree Session} (_ : t.Built) (path : String) (kind' : HandlerKind)
      (h' : Handler Session) (ends : List Nat), (t.insert root path).1 = ends →
        (t.bindPath path kind' h').handler? node kind =
          if node ∈ ends ∧ kind = kind' then some h' else t.handler? node kind := by
    intro t built path kind' h' ends he
    rw [built.arena.handler?_bindPath, he]
  -- where each path ends is computed; what stands there is what was bound last
  have b₁ := Built.empty.bindPath "" .default help
  have b₂ := b₁.bindPath "" .error refuse
  have b₃ := b₂.bindPath "reload" .execute reload
  have b₄ := b₃.bindPath "list" .execute list
  have none : (Tree.empty : Tree Session).handler? node kind = none := rfl
  rw [commandTree, bound b₄ _ _ _ [5] (by decide +kernel), bound b₃ _ _ _ [2] (by decide +kernel),
    bound b₂ _ _ _ [1] (by decide +kernel), bound b₁ _ _ _ [0] (by decide +kernel),
    bound .empty _ _ _ [0] (by decide +kernel), none]
  simp only [List.mem_singleton]
  constructor
  · grind [Stands]
  · rintro (_ | _ | _ | _ | _) <;> simp

/-! ## The nodes and what reads them -/

def literalSlot (node : Nat) (name : String) : Slot Session :=
  { node, descriptor := ⟨name, {}⟩, type := .literal }

def kindSlot : Slot Session :=
  { node := 4
    descriptor := ⟨"@portaltype", .ofList [("switch", "type|t"), ("default", "NETHER")]⟩
    type := kindType }

def playerSlot : Slot Session :=
  { node := 5
    descriptor := ⟨"@player", .ofList [("required", "true"), ("default", "%self"),
      ("mode", "online")]⟩
    type := playerType }

def commandSlots : List (Slot Session) :=
  [literalSlot 1 "reload", literalSlot 2 "list", literalSlot 3 "give|g", kindSlot, playerSlot]

/-- The shape of the tree: nodes and names as the list of slots has them. -/
theorem commandTree_shape :
    commandTree.size = 6 ∧ commandTree.children 0 = [1, 2, 3] ∧ commandTree.children 3 = [4] ∧
      commandTree.children 4 = [5] ∧
      ∀ n < 6, ((commandTree.descriptor n).map fun d => (n, d.name, d.params)) ∈
        none :: commandSlots.map fun s =>
          some (s.node, s.descriptor.name, s.descriptor.params) := by
  decide +kernel

theorem lookup_commandTypes_literal {name : String}
    (other : ∀ key ∈ ["portaltype", "player", "double", "int", "string"],
      name ≠ TypeTable.nodeName key) : commandTypes.lookup name = .literal := by
  simp only [commandTypes, TypeTable.standard, TypeTable.lookup_register]
  rw [if_neg (other _ (by simp)), if_neg (other _ (by simp)), if_neg (other _ (by simp)),
    if_neg (other _ (by simp)), if_neg (other _ (by simp))]
  rfl

theorem commandSlots_standing : ∀ slot ∈ commandSlots,
    { node := slot.node, descriptor := slot.descriptor,
      type := commandTypes.lookup slot.descriptor.name } = slot := by
  have literal : ∀ node name, (∀ key ∈ ["portaltype", "player", "double", "int", "string"],
      name ≠ TypeTable.nodeName key) →
        { node, descriptor := ⟨name, {}⟩, type := commandTypes.lookup name } =
          literalSlot node name := by
    intro node name other
    rw [lookup_commandTypes_literal other, literalSlot]
  simp only [commandSlots, List.forall_mem_cons]
  refine ⟨?_, ?_, ?_, rfl, rfl, by simp⟩
  · exact literal 1 "reload" (by decide)
  · exact literal 2 "list" (by decide)
  · exact literal 3 "give|g" (by decide)

theorem mem_commandSlots (settings : Settings) {node : Nat} {slot : Slot Session}
    (here : (commandGrammar settings).slot? node = some slot) : slot ∈ commandSlots := by
  obtain ⟨size, -, -, -, table⟩ := commandTree_shape
  obtain ⟨d, described, rfl⟩ := Option.map_eq_some_iff.1 here
  have inside : node < 6 := by
    obtain ⟨n, hn, -⟩ := Option.bind_eq_some_iff.1 described
    have := (Array.getElem?_eq_some_iff.1 hn).1
    rwa [← size]
  have row := table node inside
  have described' : commandTree.descriptor node = some d := described
  rw [described', Option.map_some, List.mem_cons] at row
  obtain ⟨s, hs, same⟩ := List.mem_map.1 (row.resolve_left (by simp))
  simp only [Option.some.injEq, Prod.mk.injEq] at same
  obtain ⟨rfl, name, params⟩ := same
  obtain rfl : s.descriptor = d :=
    calc s.descriptor = ⟨s.descriptor.name, s.descriptor.params⟩ := rfl
      _ = d := by rw [name, params]
  have standing := commandSlots_standing s hs
  exact standing ▸ hs

/-! ## Values -/

/-- A block that may be handed out in a session: of a known kind, to a player who is online or to
the one typing, unless that is the console. -/
structure Fair (s : Session) (block : Block) : Prop where
  kind : block.kind ∈ kinds
  owner : block.owner ∈ s.online ∨ s.isConsole = false ∧ block.owner = s.name

theorem kindSlot_verdict {line : Option String} {taken : Consumed}
    (consumed : kindSlot.type.consume kindSlot.descriptor line = .ok taken)
    (around : Surroundings Session) :
    (∃ kind ∈ kinds, kindSlot.verdict around taken = .ok (.text kind)) ∨
      ∃ message, kindSlot.verdict around taken = .error (.invalid message) := by
  obtain ⟨token, he⟩ := Slot.exists_token (s := kindSlot) rfl rfl consumed
  rw [Slot.verdict, he]
  by_cases known : Text.lower token ∈ kinds
  · exact .inl ⟨_, known, if_pos known⟩
  · exact .inr ⟨_, if_neg known⟩

theorem selfResult_eq_ok {s : Session} {v : Value} (h : selfResult s = .ok v) :
    s.isConsole = false ∧ v = player s.name := by
  unfold selfResult at h
  split at h
  · cases h
  · rename_i other
    exact ⟨Bool.eq_false_iff.2 other, (Except.ok.inj h).symm⟩

theorem namedResult_online_eq_ok {s : Session} {token : String} {v : Value}
    (h : namedResult s token "online" = .ok v) : ∃ name ∈ s.online, v = player name := by
  rw [namedResult, if_pos rfl] at h
  split at h
  · rename_i name found
    exact ⟨name, List.mem_of_find?_eq_some found, (Except.ok.inj h).symm⟩
  · cases h

theorem playerSlot_verdict {line : Option String} {taken : Consumed}
    (consumed : playerSlot.type.consume playerSlot.descriptor line = .ok taken)
    {around : Surroundings Session} {v : Value} (value : playerSlot.verdict around taken = .ok v) :
    ∃ owner, v = player owner ∧ (owner ∈ around.env.online ∨
      around.env.isConsole = false ∧ owner = around.env.name) := by
  obtain ⟨token, he⟩ := Slot.exists_token (s := playerSlot) rfl rfl consumed
  have result : (if token = "%self" then selfResult around.env
      else namedResult around.env token "online") = .ok v := by
    rw [← value, Slot.verdict, he]
    rfl
  split at result
  · obtain ⟨person, rfl⟩ := selfResult_eq_ok result
    exact ⟨_, rfl, .inr ⟨person, rfl⟩⟩
  · obtain ⟨name, online, rfl⟩ := namedResult_online_eq_ok result
    exact ⟨_, rfl, .inl online⟩

theorem eq_kindSlot_of_isSwitch {slot : Slot Session} (listed : slot ∈ commandSlots)
    (switch : slot.isSwitch = true) : slot = kindSlot := by
  simp only [commandSlots, List.mem_cons, List.not_mem_nil, or_false] at listed
  rcases listed with rfl | rfl | rfl | rfl | rfl
  · exact absurd switch (by decide)
  · exact absurd switch (by decide)
  · exact absurd switch (by decide)
  · rfl
  · exact absurd switch (by decide)

variable {settings : Settings} {s : Session} {around : Surroundings Session}

/-- On the path of a line a value is refused with a message, if it is. -/
theorem worded_of_judged {slot : Slot Session}
    (judged : (commandGrammar settings).Judged s around slot) {e : ParseError}
    (fault : slot.value around = .error e) : ∃ m, e = .invalid m := by
  obtain @⟨standing, _, _, _, here, -, consumed, -, value, worded⟩ := judged
  cases switch : standing.isSwitch with
  | false => exact worded switch e fault
  | true =>
    obtain rfl := eq_kindSlot_of_isSwitch (mem_commandSlots settings here) switch
    rcases kindSlot_verdict consumed _ with ⟨kind, -, ok⟩ | ⟨message, refused⟩
    · rw [value, ok] at fault
      cases fault
    · rw [value, refused] at fault
      exact ⟨message, (Except.error.inj fault).symm⟩

theorem standing_of_judged {slot : Slot Session}
    (judged : (commandGrammar settings).Judged s around slot) :
    ∃ standing ∈ commandSlots, standing.node = slot.node ∧
      slot.isSuppressed = standing.isSuppressed ∧ ∃ line taken around',
        standing.type.consume standing.descriptor line = .ok taken ∧ around'.env = s ∧
          slot.value around = standing.verdict around' taken := by
  obtain ⟨here, suppressed, consumed, seen, value, -⟩ := judged
  exact ⟨_, mem_commandSlots settings here, slot?_node here, suppressed, _, _, _, consumed, seen,
    value⟩

theorem eq_of_node_eq {slot other : Slot Session} (hs : slot ∈ commandSlots)
    (ho : other ∈ commandSlots) (same : slot.node = other.node) : slot = other :=
  List.inj_on_of_nodup_map (f := fun s => s.node) (by decide) hs ho same

/-- The handler that hands out a block finds the kind and the player where it asks for them. -/
theorem arguments_of_give {slots : List (Slot Session)}
    (judged : ∀ slot ∈ slots, (commandGrammar settings).Judged s around slot)
    (sane : Sane around slots) (nodes : nodesOf slots = [3, 4, 5]) :
    ∃ block, Fair s block ∧
      argumentsOf around slots = [.text block.kind, player block.owner] := by
  obtain ⟨a, rest, rfl, ha, nodes⟩ := List.map_eq_cons_iff.1 nodes
  obtain ⟨b, rest, rfl, hb, nodes⟩ := List.map_eq_cons_iff.1 nodes
  obtain ⟨c, rest, rfl, hc, nodes⟩ := List.map_eq_cons_iff.1 nodes
  obtain rfl := List.map_eq_nil_iff.1 nodes
  obtain ⟨_, valueA⟩ := sane a (by simp)
  obtain ⟨_, valueB⟩ := sane b (by simp)
  obtain ⟨_, valueC⟩ := sane c (by simp)
  obtain ⟨literal, hl, node, suppressed, -⟩ := standing_of_judged (judged a (by simp))
  obtain rfl : literal = literalSlot 3 "give|g" :=
    eq_of_node_eq hl (by simp [commandSlots]) (node.trans ha)
  obtain ⟨kind, hk, node, shown, _, _, _, consumed, -, verdict⟩ :=
    standing_of_judged (judged b (by simp))
  obtain rfl : kind = kindSlot := eq_of_node_eq hk (by simp [commandSlots]) (node.trans hb)
  obtain ⟨person, hp, node, shown', _, _, _, consumed', seen, verdict'⟩ :=
    standing_of_judged (judged c (by simp))
  obtain rfl : person = playerSlot := eq_of_node_eq hp (by simp [commandSlots]) (node.trans hc)
  obtain ⟨kind, known, ok⟩ | ⟨message, refused⟩ := kindSlot_verdict consumed _
  case inr => exact absurd (valueB.symm.trans (verdict.trans refused)) (by simp)
  have valueB := verdict.trans ok
  obtain ⟨owner, rfl, allowed⟩ := playerSlot_verdict consumed' (verdict' ▸ valueC)
  rw [seen] at allowed
  refine ⟨⟨owner, kind⟩, ⟨known, allowed⟩, ?_⟩
  rw [argumentsOf_cons valueA, argumentsOf_cons valueB, argumentsOf_cons valueC, suppressed, shown,
    shown']
  rfl

/-! ## One line -/

/-- What a line under a label of the portal commands does, by the call that it makes: it replies,
and only the handler of `give` hands out a block. -/
inductive Serves (s : Session) : Option (Call Session) → Session → Prop
  | replied {call : Option (Call Session)} (messages : List String) (nonempty : messages ≠ []) :
      Serves s call (s.reply messages)
  | handed {args : List Value} (block : Block) (fair : Fair s block) (messages : List String)
      (nonempty : messages ≠ []) :
      Serves s (some ⟨5, .execute, give, args⟩) ((s.give block).reply messages)

theorem lt_size_of_judged {slot : Slot Session}
    (judged : (commandGrammar settings).Judged s around slot) :
    slot.node < commandTree.size := by
  obtain ⟨standing, listed, node, -⟩ := standing_of_judged judged
  have inside : ∀ standing ∈ commandSlots, standing.node < 6 := by decide
  rw [commandTree_shape.1, ← node]
  exact inside standing listed

theorem give_run (s : Session) (block : Block) :
    give.run s ⟨[.text block.kind, player block.owner]⟩ =
      { env := (s.give block).reply
          ["Giving " ++ block.owner ++ " a " ++ block.kind ++ " portal block."] } := by
  rfl

theorem not_nearest_none {kind : HandlerKind} {h : Handler Session} (top : Stands 0 kind h)
    {node : Nat} (inside : node < commandTree.size) : ¬ commandTree.Nearest kind node none := by
  intro nearest
  obtain ⟨n, h, found, -⟩ :=
    nearest.exists_of_root commandTree_built.arena (handler?_commandTree.2 top) inside
  cases found

theorem rootPath_give : commandTree.RootPath 5 [3, 4, 5] := by
  obtain ⟨-, top, middle, bottom, -⟩ := commandTree_shape
  have first : commandTree.RootPath 3 [3] := .child .root (by rw [root, top]; simp)
  exact (first.child (by rw [middle]; simp)).child (by rw [bottom]; simp)

/-- What the path of a line calls for replies, and ends well. -/
theorem serves_of_decides {slots : List (Slot Session)}
    (judged : ∀ slot ∈ slots, (commandGrammar settings).Judged s around slot)
    (path : List.IsChain (fun p c => c ∈ commandTree.children p) (Tree.root :: nodesOf slots))
    {call : Option (Call Session)} {outcome : Outcome}
    (decides : (commandGrammar settings).Decides around [] slots call outcome) :
    (reactionTo s call).outcome = .ok () ∧ Serves s call (reactionTo s call).env := by
  have a := commandTree_built.arena
  cases decides with
  | execute sane last_eq bound =>
    have way := rootPath_of_isChain path last_eq
    cases handler?_commandTree.1 bound with
    | reload => exact ⟨rfl, .replied _ (List.cons_ne_nil _ _)⟩
    | list => exact ⟨rfl, .replied _ (by simp)⟩
    | give =>
      -- one way leads to the node of `give`, so the path has gone through the kind and the player
      have nodes : nodesOf slots = [3, 4, 5] := way.unique a rootPath_give
      obtain ⟨block, fair, arguments⟩ := arguments_of_give judged sane nodes
      have padded_eq : padded give.arity ([] ++ argumentsOf around slots) =
          [.text block.kind, player block.owner] := by
        rw [arguments]
        rfl
      rw [padded_eq, reactionTo, give_run]
      exact ⟨rfl, .handed block fair _ (List.cons_ne_nil _ _)⟩
  | default sane last_eq unbound nearest =>
    cases handler?_commandTree.1 (nearest.bound rfl) with
    | help => exact ⟨rfl, .replied _ (List.cons_ne_nil _ _)⟩
  | idle sane last_eq unbound nearest =>
    have inside := (rootPath_of_isChain path last_eq).lt_size a
    exact absurd nearest (not_nearest_none .help inside)
  | error fault nearest =>
    cases handler?_commandTree.1 (nearest.bound rfl) with
    | refuse => exact ⟨rfl, .replied _ (List.cons_ne_nil _ _)⟩
  | unhandled fault nearest _ =>
    exact absurd nearest (not_nearest_none .refuse (lt_size_of_judged (judged _ fault.mem)))
  | dropped fault nearest _ =>
    exact absurd nearest (not_nearest_none .refuse (lt_size_of_judged (judged _ fault.mem)))
  | missing fault other =>
    have listed := fault.mem
    obtain ⟨before, after, -, -, refused⟩ := fault
    obtain ⟨m, he⟩ := worded_of_judged (judged _ listed) refused
    exact absurd he (other m)

/-- The call that a line leads to. -/
def callOf (r : Registry Session) (s : Session) (line : String) : Option (Call Session) :=
  (r.get? (splitLabel line).1).bind fun c =>
    ((r.grammar c).plan (Text.trim ((splitLabel line).2.getD ""))
      ((r.grammar c).context s) []).1.call

/-- A line under a label of the portal commands is served. -/
theorem served_execute (settings : Settings) (s : Session) {line : String}
    (known : Text.lower (splitLabel line).1 ∈ commandLabels) :
    ∃ log s', (register { settings }).execute s line = (true, log, s') ∧
      s' = (reactionTo s (callOf (register { settings }) s line)).env ∧
      Serves s (callOf (register { settings }) s line) s' := by
  have get : (register { settings }).get? (splitLabel line).1 =
      some ⟨commandLabels, commandTree⟩ := by rw [get?_register, if_pos known]
  generalize hr : (splitLabel line).2.getD "" = rest
  have call : callOf (register { settings }) s line = ((commandGrammar settings).plan
      (Text.trim rest) { env := s, limit := settings.completionLimit } []).1.call := by
    rw [callOf, get, Option.bind_some, grammar_register, hr]
    rfl
  have dispatched : (register { settings }).dispatch s line [] = some
      ((commandGrammar settings).dispatch rest { env := s, limit := settings.completionLimit }
        []) := by
    rw [Registry.dispatch]
    simp only [get, Option.map_some, grammar_register, hr]
    rfl
  have a : (commandGrammar settings).tree.Arena := commandTree_built.arena
  obtain ⟨slots, effective, -⟩ := effective_matchOf a s settings.completionLimit rest
  obtain ⟨ended, serves⟩ := serves_of_decides (judged_of_effective a effective)
    (isChain_of_effective a effective) (decides_of_effective a effective [])
  obtain ⟨outcome, env⟩ := dispatch_eq a s settings.completionLimit rest [] rfl
  rw [← call] at ended serves outcome env
  rw [ended] at outcome
  have executed : (register { settings }).execute s line =
      (true, ((commandGrammar settings).dispatch rest
        { env := s, limit := settings.completionLimit } []).log,
        (reactionTo s (callOf (register { settings }) s line)).env) := by
    rw [Registry.execute]
    simp only [dispatched, outcome, Except.map, env]
  exact ⟨_, _, executed, rfl, serves⟩

/-- A line under any other label does nothing. -/
theorem execute_of_unknown (settings : Settings) (s : Session) {line : String}
    (unknown : Text.lower (splitLabel line).1 ∉ commandLabels) :
    (register { settings }).execute s line = (false, [], s) := by
  have get : (register { settings }).get? (splitLabel line).1 = none := by
    rw [get?_register, if_neg unknown]
  rw [Registry.execute, Registry.dispatch]
  simp only [get, Option.map_none]

/-! ## Runs -/

/-- What happens to a session: a line is executed, completions are asked for, or the replies are
taken away. -/
inductive Event where
  | line (text : String)
  | complete (text : String)
  | shown

namespace Session

/-- The session after an event. -/
def after (r : Registry Session) (s : Session) : Event → Session
  | .line text => (r.execute s text).2.2
  | .complete _ => s
  | .shown => s.shown

def run (r : Registry Session) (s : Session) (events : List Event) : Session :=
  events.foldl (after r) s

end Session

theorem Fair.congr {s s' : Session} {block : Block} (fair : Fair s block) (name : s'.name = s.name)
    (online : s'.online = s.online) : Fair s' block where
  kind := fair.kind
  owner := by
    rw [Session.isConsole, name, online]
    exact fair.owner

/-- What every event keeps: who is typing, who is online, and the blocks handed out, behind which
only blocks are added that may be handed out. -/
structure Continues (s s' : Session) : Prop where
  name : s'.name = s.name
  online : s'.online = s.online
  given : ∃ more, s'.given = s.given ++ more ∧ ∀ block ∈ more, Fair s block

theorem Continues.refl (s : Session) : Continues s s := ⟨rfl, rfl, [], by simp, by simp⟩

theorem Continues.trans {s₁ s₂ s₃ : Session} (h : Continues s₁ s₂) (h' : Continues s₂ s₃) :
    Continues s₁ s₃ := by
  obtain ⟨more, given, fair⟩ := h.given
  obtain ⟨more', given', fair'⟩ := h'.given
  refine ⟨h'.name.trans h.name, h'.online.trans h.online, more ++ more', ?_, ?_⟩
  · rw [given', given, List.append_assoc]
  · intro block hb
    rcases List.mem_append.1 hb with hb | hb
    · exact fair block hb
    · exact (fair' block hb).congr h.name.symm h.online.symm

theorem Serves.continues {s s' : Session} {call : Option (Call Session)}
    (h : Serves s call s') : Continues s s' := by
  cases h with
  | replied messages _ => exact ⟨rfl, rfl, [], (List.append_nil _).symm, by simp⟩
  | handed block fair messages _ => exact ⟨rfl, rfl, [block], rfl, by simpa using fair⟩

theorem Serves.replies {s s' : Session} {call : Option (Call Session)} (h : Serves s call s') :
    ∃ messages, messages ≠ [] ∧ s'.replies = s.replies ++ messages := by
  cases h with
  | replied messages nonempty => exact ⟨messages, nonempty, rfl⟩
  | handed block fair messages nonempty => exact ⟨messages, nonempty, rfl⟩

theorem Serves.given {s s' : Session} {call : Option (Call Session)} (h : Serves s call s') :
    s'.given = s.given ∨ ∃ block args, s'.given = s.given ++ [block] ∧
      call = some ⟨5, .execute, give, args⟩ := by
  cases h with
  | replied _ _ => exact .inl rfl
  | handed block _ _ _ => exact .inr ⟨block, _, rfl, rfl⟩

theorem continues_execute (settings : Settings) (s : Session) (line : String) :
    Continues s ((register { settings }).execute s line).2.2 := by
  by_cases known : Text.lower (splitLabel line).1 ∈ commandLabels
  · obtain ⟨log, s', executed, -, serves⟩ := served_execute settings s known
    rw [executed]
    exact serves.continues
  · rw [execute_of_unknown settings s known]
    exact .refl s

theorem continues_shown (s : Session) : Continues s s.shown :=
  ⟨rfl, rfl, [], (List.append_nil _).symm, by simp⟩

theorem continues_after (settings : Settings) (s : Session) :
    ∀ event, Continues s (s.after (register { settings }) event)
  | .line text => continues_execute settings s text
  | .complete _ => .refl s
  | .shown => continues_shown s

theorem continues_run (settings : Settings) (s : Session) (events : List Event) :
    Continues s (s.run (register { settings }) events) := by
  induction events generalizing s with
  | nil => exact .refl s
  | cons event rest ih => exact (continues_after settings s event).trans (ih _)

/-- **Every run of a session, and the next line.**  Whoever types, whoever is online and whatever
the settings: all blocks that have been handed out are of a known kind and belong to someone online
or to the one typing, who is not the console then; they stay handed out.  A line under a label of
the portal commands ends well and leaves a reply, whatever else stands on it; it adds at most one
block, and only by calling the handler of `give`.  Any other line does nothing. -/
theorem run_served (settings : Settings) (name : String) (online : List String)
    (events : List Event) :
    let r := register { settings }
    let s := Session.run r { name, online } events
    (s.name = name ∧ s.online = online) ∧
    (∀ block ∈ s.given, block.kind ∈ kinds ∧
      (block.owner ∈ online ∨ s.isConsole = false ∧ block.owner = name)) ∧
    (∀ later, s.given <+: (s.run r later).given) ∧
    (∀ line, Text.lower (splitLabel line).1 ∈ ["portalnetwork", "pn"] →
      ∃ log s', r.execute s line = (true, log, s') ∧
        (∃ messages, messages ≠ [] ∧ s'.replies = s.replies ++ messages) ∧
        (s'.given = s.given ∨ ∃ block args, s'.given = s.given ++ [block] ∧
          callOf r s line = some ⟨5, .execute, give, args⟩) ∧
        s' = (reactionTo s (callOf r s line)).env) ∧
    ∀ line, Text.lower (splitLabel line).1 ∉ ["portalnetwork", "pn"] →
      r.execute s line = (false, [], s) := by
  intro r s
  have run := continues_run settings { name, online } events
  obtain ⟨more, given, fair⟩ := run.given
  refine ⟨⟨run.name, run.online⟩, ?_, ?_, ?_, ?_⟩
  · intro block hb
    rw [given, List.nil_append] at hb
    have fair := (fair block hb).congr run.name run.online
    have owner := fair.owner
    rw [run.name, run.online] at owner
    exact ⟨fair.kind, owner⟩
  · intro later
    obtain ⟨more, given, -⟩ := (continues_run settings s later).given
    exact ⟨more, given.symm⟩
  · intro line known
    obtain ⟨log, s', executed, env, serves⟩ := served_execute settings s known
    exact ⟨log, s', executed, serves.replies, serves.given, env⟩
  · exact fun line unknown => execute_of_unknown settings s unknown

/-- Two blocks handed out, then a line in capitals behind a blank that names nobody. -/
theorem run_served_steve :
    let r := register {}
    let s := Session.run r { name := "Steve", online := ["Steve", "Alex"] }
      [.line "pn give", .complete "pn g", .line "portalnetwork g alex -t END", .line "say hi"]
    s.given = [⟨"Steve", "nether"⟩, ⟨"Alex", "end"⟩] ∧
      ∃ log s', r.execute s " PN give bob" = (true, log, s') ∧
        ∃ messages, messages ≠ [] ∧ s'.replies = s.replies ++ messages := by
  intro r s
  obtain ⟨log, s', ended, replies, -⟩ := (run_served {} "Steve" ["Steve", "Alex"]
    [.line "pn give", .complete "pn g", .line "portalnetwork g alex -t END",
      .line "say hi"]).2.2.2.1 " PN give bob" (by decide)
  exact ⟨by decide +kernel, log, s', ended, replies⟩

end CommandTree.Portal
