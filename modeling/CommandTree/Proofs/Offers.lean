import CommandTree.Proofs.Completion
import CommandTree.Proofs.IntegerOffers
import CommandTree.Proofs.Ledger
import CommandTree.Proofs.Names
import CommandTree.Proofs.Spelling
import CommandTree.Proofs.Walks

/-!
# What is offered is accepted

A completion puts a text in place of the last word of a line.  Up to that word the line stays as it
is, and so does the way that it takes through the tree (`Advances.retyped`).  The node that offered
the text then accepts it, unless the text begins with a dash: there a match looks for a flag.  Only
integers are offered with a dash, and only where nothing has been typed yet.

Results:
* `Context.Reads.retyped`, `Grammar.Advances.retyped`: the way to the last word does not depend on
  that word.
* `ArgumentType.complete_accepted`: a text that a node offers is a value of the node.
* `Grammar.offered_accepted`: which of the texts offered are accepted.
* `negative_offer_refused`: a number that is offered and then taken for a flag.
-/
namespace CommandTree

variable {ε : Type}

/-! ## The last word of a line -/

namespace Text

/-- Text in front of a word: nothing, or text that ends with a space. -/
def Front (text : String) : Prop := ∀ c, text.toList.getLast? = some c → c = ' '

/-- A word holds no space, so all of it stands behind any space of its line. -/
theorem Front.behind {p w before rest : String} (front : Front p) (word : ' ' ∉ w.toList)
    (line : p ++ w = before ++ " " ++ rest) :
    ∃ p', Front p' ∧ p = before ++ " " ++ p' ∧ rest = p' ++ w := by
  have chars : p.toList ++ w.toList = (before.toList ++ [' ']) ++ rest.toList := by
    simpa using congrArg String.toList line
  have in_front : ∃ cs, p.toList = (before.toList ++ [' ']) ++ cs ∧
      rest.toList = cs ++ w.toList := by
    rcases List.append_eq_append_iff.1 chars with ⟨cs, hp, hw⟩ | h
    · rcases List.eq_nil_or_concat cs with rfl | ⟨init, c, rfl⟩
      · exact ⟨[], by simpa using hp.symm, by simpa using hw.symm⟩
      · -- the space would be one of the word
        have space : [' '] = [c] := by
          rw [List.concat_eq_append, ← List.append_assoc] at hp
          exact (List.append_inj' hp rfl).2
        exact absurd (by rw [hw, List.concat_eq_append, ← space]; simp) word
    · exact h
  obtain ⟨cs, hp, hr⟩ := in_front
  refine ⟨.ofList cs, ?_, ?_, ?_⟩
  · intro c last
    rw [String.toList_ofList] at last
    exact front c (by rw [hp, List.getLast?_append, last]; rfl)
  · rw [← String.toList_inj, hp]
    simp
  · rw [← String.toList_inj, hr]
    simp

theorem Front.eq_empty {p w : String} (front : Front p) (word : ' ' ∉ (p ++ w).toList) :
    p = "" := by
  rcases List.eq_nil_or_concat p.toList with nil | ⟨init, c, concat⟩
  · exact String.toList_inj.1 nil
  · rw [List.concat_eq_append] at concat
    have last := front c (by rw [concat, List.getLast?_concat])
    exact absurd (by simp [concat, last]) word

end Text

theorem dashed_append_iff {front : String} (nonempty : front ≠ "") (a b : String) :
    Dashed (some (front ++ a)) ↔ Dashed (some (front ++ b)) := by
  have chars : front.toList ≠ [] := fun nil => nonempty (String.toList_inj.1 nil)
  rw [dashed_some_iff, dashed_some_iff, String.toList_append, String.toList_append,
    List.head?_append_of_ne_nil _ chars, List.head?_append_of_ne_nil _ chars]

theorem consumeToken_word (d : Descriptor) {token : String} (word : ' ' ∉ token.toList) :
    consumeToken d (some token) = .ok ⟨some token, none⟩ := by
  rw [consumeToken_some, Text.cut_eq_none_iff.2 ⟨word, rfl⟩]

theorem consumeToken_line (d : Descriptor) {token : String} (word : ' ' ∉ token.toList)
    (rest : String) :
    consumeToken d (some (token ++ " " ++ rest)) = .ok ⟨some token, some rest⟩ := by
  rw [consumeToken_some, Text.cut_eq_some_iff.2 ⟨word, rfl⟩]

/-- In the standard way a line is all token, or there is a space behind the token. -/
theorem consumeToken_cases {d : Descriptor} {text : String} {taken : Consumed}
    (h : consumeToken d (some text) = .ok taken) :
    (' ' ∉ text.toList ∧ taken = ⟨some text, none⟩) ∨
      ∃ token rest, ' ' ∉ token.toList ∧ text = token ++ " " ++ rest ∧
        taken = ⟨some token, some rest⟩ := by
  rw [consumeToken_some] at h
  cases h
  cases hc : Text.cut ' ' text with
  | mk token behind =>
    cases behind with
    | none =>
      obtain ⟨word, rfl⟩ := Text.cut_eq_none_iff.1 hc
      exact .inl ⟨word, rfl⟩
    | some rest =>
      obtain ⟨word, rfl⟩ := Text.cut_eq_some_iff.1 hc
      exact .inr ⟨token, rest, word, rfl, rfl⟩

/-! ## Another last word -/

namespace Context

variable {g : Grammar ε} {ctx ctx' : Context ε} {p w : String}

theorem reads_of_takePairs_eq {line rest : Option String}
    (same : ctx.takePairs line = ctx'.takePairs rest) (undashed : ¬ Dashed rest) :
    ctx.Reads line ctx' rest :=
  takePairs_eq_through_iff.1 (same.trans (takePairs_of_not_dashed undashed))

/-- A pair in front of the last word is taken whatever that word is. -/
theorem Takes.retyped (wordwise : g.Wordwise) (sound : g.Sound ctx) (front : Text.Front p)
    (word : ' ' ∉ w.toList) {rest : String} (h : ctx.Takes (some (p ++ w)) ctx' (some rest)) :
    ∃ p', Text.Front p' ∧ rest = p' ++ w ∧
      ∀ c, ctx.Takes (some (p ++ c)) ctx' (some (p' ++ c)) := by
  generalize hline : some (p ++ w) = line at h
  generalize hrest : some rest = behind at h
  cases h with
  | @pair flag value s others taken flag_word answer consumed =>
    have standard : s.type.consume = consumeToken := wordwise _ _ (sound.answers answer).2.1
    rw [standard] at consumed
    rcases consumeToken_cases consumed with ⟨-, rfl⟩ | ⟨token, rest', token_word, rfl, rfl⟩
    · cases hrest
    · cases hrest
      have spaced : p ++ w = ("-" ++ flag ++ " " ++ token) ++ " " ++ rest := by
        rw [Option.some.inj hline]
        simp [String.append_assoc]
      obtain ⟨p', front', rfl, rfl⟩ := front.behind word spaced
      refine ⟨p', front', rfl, fun c => ?_⟩
      have again : s.type.consume s.descriptor (some (token ++ " " ++ (p' ++ c))) =
          .ok ⟨some token, some (p' ++ c)⟩ := by
        rw [standard]
        exact consumeToken_line _ token_word _
      have line : "-" ++ flag ++ " " ++ token ++ " " ++ p' ++ c =
          "-" ++ (flag ++ " " ++ (token ++ " " ++ (p' ++ c))) := by
        simp [String.append_assoc]
      rw [line]
      exact .pair flag_word answer again

theorem Reads.retyped (wordwise : g.Wordwise) (sound : g.Sound ctx) (front : Text.Front p)
    (word : ' ' ∉ w.toList) {text : String} (h : ctx.Reads (some (p ++ w)) ctx' (some text)) :
    ∃ p', Text.Front p' ∧ text = p' ++ w ∧
      ∀ c, ctx.takePairs (some (p ++ c)) = ctx'.takePairs (some (p' ++ c)) := by
  generalize hline : some (p ++ w) = line at h
  generalize htext : some text = behind at h
  induction h generalizing p with
  | none _ =>
    cases hline
    cases htext
    exact ⟨p, front, rfl, fun _ => rfl⟩
  | @pair ctx ctx₁ ctx' line line₁ behind takes rest ih =>
    subst hline htext
    obtain ⟨text₁, rfl⟩ := rest.isSome
    obtain ⟨p₁, front₁, rfl, again⟩ := takes.retyped wordwise sound front word
    obtain ⟨p', front', rfl, later⟩ :=
      ih ((Grammar.sound_keeps g).takes sound takes) front₁ rfl rfl
    exact ⟨p', front', rfl, fun c => (takePairs_of_takes (again c)).trans (later c)⟩

end Context

namespace Grammar

variable {g : Grammar ε} {p w : String}

theorem Leads.retyped (wordwise : g.Wordwise) {ctx ctx' : Context ε} (sound : g.Sound ctx)
    (front : Text.Front p) (word : ' ' ∉ w.toList) {node : Nat} {rest : String} {slot : Slot ε}
    (h : g.Leads node (p ++ w) ctx slot rest ctx') :
    ∃ p', Text.Front p' ∧ rest = p' ++ w ∧ ∀ c, g.Leads node (p ++ c) ctx slot (p' ++ c) ctx' := by
  obtain ⟨passes, left⟩ := h
  generalize hrest : some rest = behind at passes
  cases passes with
  | waits here switch =>
    cases hrest
    refine ⟨p, front, rfl, fun c => ⟨.waits here switch, ?_⟩⟩
    simp [switch]
  | @takes s ctx₁ line' taken v here plain pairs consumed value =>
    obtain ⟨ctx₂, text, reads⟩ := left plain
    obtain ⟨rfl, rfl⟩ := pairs.unique reads
    have standard : s.type.consume = consumeToken := wordwise node s here
    rw [standard] at consumed
    rcases consumeToken_cases consumed with ⟨-, rfl⟩ | ⟨token, rest', token_word, rfl, rfl⟩
    · cases hrest
    · cases hrest
      obtain ⟨p₁, front₁, split, again⟩ := reads.retyped wordwise sound front word
      obtain ⟨p', front', rfl, rfl⟩ := front₁.behind word split.symm
      refine ⟨p', front', rfl, fun c => ?_⟩
      have undashed : ¬ Dashed (some (token ++ " " ++ p' ++ c)) := by
        have same := dashed_append_iff (by simp : token ++ " " ≠ "") (p' ++ w) (p' ++ c)
        rw [String.append_assoc, ← same]
        exact reads.not_dashed
      have pairs' := Context.reads_of_takePairs_eq (again c) undashed
      have consumed' : s.type.consume s.descriptor (some (token ++ " " ++ p' ++ c)) =
          .ok ⟨some token, some (p' ++ c)⟩ := by
        rw [standard, String.append_assoc]
        exact consumeToken_line _ token_word _
      exact ⟨.takes here plain pairs' consumed' value, fun _ => ⟨ctx₁, _, pairs'⟩⟩

/-- The way to the last word is the same whatever that word is. -/
theorem Advances.retyped (wordwise : g.Wordwise) {ctx ctx' : Context ε} (sound : g.Sound ctx)
    (front : Text.Front p) (word : ' ' ∉ w.toList) {node last : Nat} {line : String}
    {chain : List (Slot ε)} (h : g.Advances node (p ++ w) ctx chain last line ctx') :
    ∃ p', Text.Front p' ∧ line = p' ++ w ∧ g.Sound ctx' ∧
      ∀ c, g.Advances node (p ++ c) ctx chain last (p' ++ c) ctx' := by
  generalize hline : p ++ w = start at h
  induction h generalizing p with
  | here =>
    subst hline
    exact ⟨p, front, rfl, sound, fun _ => .here⟩
  | down below leads _ ih =>
    subst hline
    obtain ⟨p₁, front₁, rfl, again⟩ := leads.retyped wordwise sound front word
    obtain ⟨p', front', rfl, sound', later⟩ :=
      ih ((sound_keeps g).passes sound leads.passes) front₁ rfl
    exact ⟨p', front', rfl, sound', fun c => .down below (again c) (later c)⟩

/-- The last word `w` of a line is the token of a node, and with any other word in its place the
line takes the same way to the node. -/
structure Awaits (g : Grammar ε) (p w : String) (fresh : Context ε) (slot : Slot ε)
    (ctx : Context ε) (s : Slot ε) (above : Nat) (chain : List (Slot ε)) (p' : String)
    (ctx' : Context ε) : Prop where
  here : g.slot? slot.node = some s
  plain : s.isSwitch = false
  holding : slot = s.holding ⟨some w, none⟩
  undashed : ¬ Dashed (some w)
  below : slot.node ∈ g.tree.children above
  way : ∀ c, g.Advances Tree.root (p ++ c) fresh chain above (p' ++ c) ctx'
  pairs : ∀ c, ctx'.takePairs (some (p' ++ c)) = ctx.takePairs (some c)

/-- The cursor on the token of a node is on the last word of the line. -/
theorem awaits_of_cursor (built : g.tree.Built) (wordwise : g.Wordwise) {env : ε} {limit : Nat}
    (front : Text.Front p) (word : ' ' ∉ w.toList) {slot : Slot ε} {ctx : Context ε}
    (cursor : .token slot ctx ∈ g.cursors Tree.root (some (p ++ w)) { env, limit }) :
    ∃ s above chain p' ctx', g.Awaits p w { env, limit } slot ctx s above chain p' ctx' := by
  have a := built.arena
  rw [cursors_root a] at cursor
  obtain ⟨stops, -, mem, eq⟩ := exists_stops a a.nonempty (p ++ w) { env, limit }
  rw [eq] at cursor
  obtain ⟨⟨node, stop⟩, stands, rfl⟩ := List.mem_map.1 cursor
  obtain ⟨chain, above, line₁, ctx₁, s, text, taken, way, below, here, plain, pairs, consumed, last,
    holding⟩ := stopsAt_token_iff.1 ((mem _ _).1 stands)
  obtain ⟨p', front', rfl, sound', ways⟩ :=
    way.retyped wordwise (sound_fresh g env limit) front word
  obtain ⟨p'', front'', rfl, later⟩ := pairs.retyped wordwise sound' front' word
  rw [wordwise node s here] at consumed
  rcases consumeToken_cases consumed with ⟨no_space, rfl⟩ | ⟨_, _, _, _, rfl⟩
  · obtain rfl := front''.eq_empty no_space
    simp only [String.empty_append] at holding pairs later
    have same : slot.node = node := by rw [holding, Slot.holding_node, slot?_node here]
    rw [← same] at here below
    exact ⟨s, above, chain, p', ctx₁,
      ⟨here, plain, holding, pairs.not_dashed, below, ways, later⟩⟩
  · cases last

namespace Awaits

variable {fresh ctx ctx' : Context ε} {slot s : Slot ε} {above : Nat} {chain : List (Slot ε)}
  {p' : String}

/-- A word that the node gives a value is accepted there, unless a dash leads. -/
theorem walks (h : g.Awaits p w fresh slot ctx s above chain p' ctx') (wordwise : g.Wordwise)
    {c : String} {v : Value} (word : ' ' ∉ c.toList) (undashed : ¬ Dashed (some c))
    (value : s.type.result c s.descriptor ctx.around = .ok v) :
    ∃ taken ctx'', g.Walks Tree.root (some (p ++ c)) fresh (chain ++ [taken]) slot.node none ctx'' ∧
      taken.token = some c := by
  have pairs := Context.reads_of_takePairs_eq (h.pairs c) undashed
  have consumed : s.type.consume s.descriptor (some c) = .ok ⟨some c, none⟩ := by
    rw [wordwise _ _ h.here]
    exact consumeToken_word _ word
  exact ⟨_, _, (h.way c).walks.snoc h.below (.takes h.here h.plain pairs consumed value), rfl⟩

/-- With a dash in front the word is taken for a flag, and no walk comes to the node. -/
theorem not_walks (h : g.Awaits p w fresh slot ctx s above chain p' ctx') (a : g.tree.Arena)
    {c : String} (word : ' ' ∉ c.toList) (dashed : Dashed (some c)) {other : List (Slot ε)}
    {line : Option String} {ctx'' : Context ε} :
    ¬ g.Walks Tree.root (some (p ++ c)) fresh other slot.node line ctx'' := by
  intro walk
  have nodes : nodesOf other = nodesOf chain ++ [slot.node] :=
    walk.rootPath.unique a ((h.way c).walks.rootPath.child h.below)
  have moved : other ≠ [] := by
    rintro rfl
    simp at nodes
  obtain ⟨pre, last, above', line₁, ctx₁, rfl, walk', -, passes⟩ := walk.last_step moved
  rw [nodesOf_append] at nodes
  -- the walk comes to the node as the one of the completion does
  obtain ⟨-, line_eq, ctx_eq⟩ :=
    walk'.unique_of_nodes (h.way c).walks (List.append_inj' nodes rfl).1
  subst line_eq ctx_eq
  cases passes with
  | waits here switch =>
    cases here.symm.trans h.here
    cases switch.symm.trans h.plain
  | takes here plain pairs consumed value =>
    obtain ⟨flag, he⟩ := dashed
    have flag_word : ' ' ∉ flag.toList := by
      rw [Option.some.inj he] at word
      simpa using word
    have sticks : ctx.Sticks (some ("-" ++ flag)) ctx := .unfinished flag_word
    have stuck := Context.takePairs_of_sticks sticks
    rw [← he, ← h.pairs c, Context.takePairs_of_reads pairs] at stuck
    cases stuck

end Awaits

end Grammar

/-! ## The texts that a node offers -/

namespace ArgumentType

theorem mem_literalOffer {token c : String} {aliases : List String}
    (h : c ∈ literalOffer token aliases) : c ∈ aliases ∨ ("*" ∈ aliases ∧ c = token) := by
  induction aliases with
  | nil => cases h
  | cons a as ih =>
    rw [literalOffer] at h
    split at h
    · rename_i star
      exact .inr ⟨by simp [star], List.mem_singleton.1 h⟩
    · split at h
      · exact .inl (by simp [List.mem_singleton.1 h])
      · rcases ih h with listed | ⟨star, rfl⟩
        · exact .inl (List.mem_cons_of_mem _ listed)
        · exact .inr ⟨List.mem_cons_of_mem _ star, rfl⟩

/-- A text that a node offers for a word without a dash is a word, and a value of the node.  If it
has a dash in front, it is a number and nothing has been typed. -/
theorem complete_accepted {type : ArgumentType ε} (basic : type.Basic) {d : Descriptor}
    (words : ∀ a ∈ d.aliases, ' ' ∉ a.toList)
    (spellings : type = .literal → ∀ a ∈ d.aliases, ¬ Dashed (some a)) {w c : String}
    (word : ' ' ∉ w.toList) (undashed : ¬ Dashed (some w)) {around : Surroundings ε}
    (offered : c ∈ type.complete w d around) :
    ' ' ∉ c.toList ∧ (∃ v, type.result c d around = .ok v) ∧
      (Dashed (some c) → type = .integer ∧ w = "") := by
  rcases basic with rfl | rfl | rfl | rfl
  · cases offered
  · obtain ⟨n, rfl, sign, value⟩ := integer_complete_accepted offered
    refine ⟨Decimal.space_not_mem_toString n, ⟨_, value around⟩, fun dashed => ⟨rfl, ?_⟩⟩
    rw [dashed_some_iff, Decimal.head?_toString_iff] at dashed
    by_contra typed
    exact undashed (dashed_some_iff.2 ((sign typed).1 dashed))
  · cases offered
  · have accepted (h : "*" ∈ d.aliases ∨ c ∈ d.aliases) :
        ∃ v, (literal : ArgumentType ε).result c d around = .ok v :=
      ⟨_, (literal_result_eq_ok_iff c d around _).2 ⟨h, rfl⟩⟩
    rcases mem_literalOffer offered with listed | ⟨star, rfl⟩
    · exact ⟨words c listed, accepted (.inr listed), fun h => absurd h (spellings rfl c listed)⟩
    · exact ⟨word, accepted (.inl star), fun h => absurd h undashed⟩

end ArgumentType

namespace Grammar

/-- **What is offered is accepted, unless a dash leads.**  Let the nodes be texts, integers, doubles
and literals, and let no spelling of a literal begin with a dash.  Let the last word `w` of a line
be the token of a node, and let the node offer `c`.  With `c` in place of `w` the node is reached
and takes `c`, and the match of the line is at least as long as the node is deep.  If `c` begins
with a dash, it is a number, nothing has been typed of it, and the node is not reached. -/
theorem offered_accepted (g : Grammar ε) (built : g.tree.Built)
    (basic : ∀ node slot, g.slot? node = some slot → slot.type.Basic)
    (spellings : ∀ node slot, g.slot? node = some slot → slot.type = .literal →
      ∀ a ∈ slot.descriptor.aliases, ¬ Dashed (some a))
    (env : ε) (limit : Nat) (p w : String) (front : Text.Front p) (word : ' ' ∉ w.toList)
    (slot : Slot ε) (ctx : Context ε)
    (cursor : .token slot ctx ∈ g.cursors Tree.root (some (p ++ w)) { env, limit })
    (c : String) (offered : c ∈ (Cursor.token slot ctx).offers) :
    (¬ Dashed (some c) →
      (∃ chain taken ctx', g.Walks Tree.root (some (p ++ c)) { env, limit } (chain ++ [taken])
        slot.node none ctx' ∧ taken.token = some c) ∧
      g.tree.depth slot.node ≤
        (g.resolve Tree.root (some (p ++ c)) { env, limit }).chain.length) ∧
    (Dashed (some c) → slot.type = .integer ∧ w = "" ∧
      ∀ chain line ctx',
        ¬ g.Walks Tree.root (some (p ++ c)) { env, limit } chain slot.node line ctx') := by
  have a := built.arena
  have wordwise : g.Wordwise := fun node s here => (basic node s here).consume_eq
  obtain ⟨s, above, chain, p', ctx', awaits⟩ := awaits_of_cursor built wordwise front word cursor
  have described : g.tree.descriptor slot.node = some s.descriptor := by
    obtain ⟨d, found, he⟩ := Option.map_eq_some_iff.1 awaits.here
    rw [found, ← he]
  have offers : c ∈ s.type.complete w s.descriptor ctx.around := by
    rw [awaits.holding] at offered
    exact offered
  obtain ⟨c_word, ⟨v, value⟩, dash⟩ := ArgumentType.complete_accepted (basic _ s awaits.here)
    (fun _ => built.word_of_alias described) (spellings _ s awaits.here) word awaits.undashed offers
  refine ⟨fun undashed => ?_, fun dashed => ?_⟩
  · obtain ⟨taken, ctx'', walk, token⟩ := awaits.walks wordwise c_word undashed value
    refine ⟨⟨chain, taken, ctx'', walk, token⟩, ?_⟩
    rw [walk.rootPath.depth_eq a, length_nodesOf]
    exact walk.length_le a
  · obtain ⟨integer, untyped⟩ := dash dashed
    refine ⟨?_, untyped, fun _ _ _ => awaits.not_walks a c_word dashed⟩
    rw [awaits.holding]
    exact integer

end Grammar

/-! ## A number that is offered and not accepted -/

def dialTree : Tree Unit := (Tree.empty.insert Tree.root "dial @int(min=-1, max=0)").2

def dialGrammar : Grammar Unit := ⟨dialTree, .standard, {}⟩

theorem dialTree_built : dialTree.Built := .insert_root .empty _

/-- The node whose token a cursor is on. -/
def Cursor.node? : Cursor ε → Option Nat
  | .token slot _ => some slot.node
  | .value _ _ | .flag _ _ => none

theorem dialTree_shape :
    (∃ cursor ∈ dialGrammar.cursors Tree.root (some ("dial " ++ "")) (dialGrammar.context ()),
        cursor.node? = some 2 ∧ cursor.offers = ["-1", "0"]) ∧
      dialTree.depth 2 = 2 ∧
      (∀ n ∈ dialTree.nodes, ∀ d ∈ n.descriptor, ∀ a ∈ d.aliases, a.toList.head? ≠ some '-') ∧
      nodesOf (dialGrammar.resolve Tree.root (some ("dial " ++ "-1"))
        (dialGrammar.context ())).chain = [1] := by
  decide +kernel

/-- What is typed behind `dial ` is the token of the number. -/
theorem dial_cursor :
    ∃ slot ctx, .token slot ctx ∈ dialGrammar.cursors Tree.root (some ("dial " ++ ""))
        (dialGrammar.context ()) ∧ dialTree.depth slot.node = 2 ∧
      (Cursor.token slot ctx).offers = ["-1", "0"] := by
  obtain ⟨⟨cursor, mem, node, offers⟩, depth, -, -⟩ := dialTree_shape
  cases cursor with
  | token slot ctx =>
    have second : slot.node = 2 := Option.some.inj node
    exact ⟨slot, ctx, mem, second ▸ depth, offers⟩
  | value _ _ => cases node
  | flag _ _ => cases node

/-- Behind `dial ` the number -1 is offered; the line `dial -1` is matched up to the word only. -/
theorem negative_offer_refused :
    (∃ slot ctx, .token slot ctx ∈ dialGrammar.cursors Tree.root (some ("dial " ++ ""))
        (dialGrammar.context ()) ∧ "-1" ∈ (Cursor.token slot ctx).offers ∧
      dialTree.depth slot.node = 2) ∧
      nodesOf (dialGrammar.resolve Tree.root (some ("dial " ++ "-1"))
        (dialGrammar.context ())).chain = [1] := by
  obtain ⟨slot, ctx, cursor, depth, offers⟩ := dial_cursor
  obtain ⟨-, -, -, chain⟩ := dialTree_shape
  refine ⟨⟨slot, ctx, cursor, ?_, depth⟩, chain⟩
  rw [offers]
  exact List.mem_cons_self

/-- Of the two numbers offered behind `dial ` the other one is accepted. -/
theorem offered_accepted_dial :
    ∃ slot ctx, .token slot ctx ∈ dialGrammar.cursors Tree.root (some ("dial " ++ ""))
        (dialGrammar.context ()) ∧ "0" ∈ (Cursor.token slot ctx).offers ∧ ¬ Dashed (some "0") ∧
      2 ≤ (dialGrammar.resolve Tree.root (some ("dial " ++ "0"))
        (dialGrammar.context ())).chain.length ∧
      Dashed (some "-1") ∧ ∀ chain line ctx', ¬ dialGrammar.Walks Tree.root
        (some ("dial " ++ "-1")) (dialGrammar.context ()) chain slot.node line ctx' := by
  obtain ⟨slot, ctx, cursor, depth, offers⟩ := dial_cursor
  obtain ⟨-, -, undashed_names, -⟩ := dialTree_shape
  have spellings : ∀ node slot, dialGrammar.slot? node = some slot → slot.type = .literal →
      ∀ a ∈ slot.descriptor.aliases, ¬ Dashed (some a) := by
    intro node slot here _ a listed
    obtain ⟨d, described, rfl⟩ := Option.map_eq_some_iff.1 here
    obtain ⟨n, found, hd⟩ := Option.bind_eq_some_iff.1 described
    exact mt dashed_some_iff.1 (undashed_names n (Array.mem_of_getElem? found) d hd a listed)
  have zero : "0" ∈ (Cursor.token slot ctx).offers := by simp [offers]
  have negative : "-1" ∈ (Cursor.token slot ctx).offers := by simp [offers]
  have undashed : ¬ Dashed (some "0") := mt dashed_some_iff.1 (by decide)
  have dashed : Dashed (some "-1") := dashed_some_iff.2 (by decide)
  have front : Text.Front "dial " := by
    intro c last
    exact (Option.some.inj last).symm
  have accepted (c : String) (offered : c ∈ (Cursor.token slot ctx).offers) :=
    Grammar.offered_accepted dialGrammar dialTree_built (Grammar.basic_of_standard rfl) spellings ()
      defaultLimit "dial " "" front (by decide) slot ctx cursor c offered
  obtain ⟨-, deep⟩ := (accepted "0" zero).1 undashed
  exact ⟨slot, ctx, cursor, zero, undashed, depth ▸ deep, dashed,
    ((accepted "-1" negative).2 dashed).2.2⟩

end CommandTree
