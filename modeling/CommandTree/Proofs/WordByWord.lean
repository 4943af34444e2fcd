import CommandTree.Proofs.Dispatch
import CommandTree.Proofs.Reading

/-!
# Reading a line word by word

A line is words with a space between.  A word that begins with a dash is the flag of a pair and the
next word its value; any other word is a token.  A path is followed along the words (`Follows`): a
switch waits, a pair goes to a switch that waits, and a token to the next node.

A match is lazy about pairs.  It hands them down through the switches of the path, and the next node
that takes a token takes them first.  `Pending` says how far such a match is behind the words.

Results:
* `Worded.line_concat_eq`: the line that a dispatch reads when one more word is typed.
* `Context.Past.pushSwitch`: a pair may be taken before or after a switch begins to wait.
* `Pending.takePairs_cases`: how the pairs in front of some words end.
* `Pending.resolve_aside`: no path leads through a literal that does not spell the next token.
* `Grammar.Follows.append`: what leads to a node, and on from there, leads all the way.
-/
namespace CommandTree

variable {ε : Type} {g : Grammar ε}

/-! ## Words -/

/-- The first word that belongs to no pair. -/
def tokenAhead : List String → Option String
  | [] => none
  | [word] => if word.toList.head? = some '-' then none else some word
  | word :: _ :: words =>
    if word.toList.head? = some '-' then tokenAhead words else some word

theorem tokenAhead_of_undashed {word : String} (undashed : ¬ Dashed (some word))
    (words : List String) : tokenAhead (word :: words) = some word := by
  have plain : ¬ word.toList.head? = some '-' := mt dashed_some_iff.2 undashed
  cases words <;> simp [tokenAhead, plain]

theorem tokenAhead_pair (flag value : String) (words : List String) :
    tokenAhead (("-" ++ flag) :: value :: words) = tokenAhead words := by
  simp [tokenAhead]

/-- The words that are ahead: their first token, if they hold one, is the one given. -/
structure Ahead (token : Option String) (words : List String) : Prop where
  solid : ∀ word ∈ words, ' ' ∉ word.toList
  first : ∀ t ∈ tokenAhead words, t ∈ token

namespace Ahead

variable {words : List String} {word flag value : String} {t : Option String}

theorem nil (t : Option String) : Ahead t [] where
  solid := by simp
  first := by simp [tokenAhead]

theorem token (h : Ahead t words) (solid : ' ' ∉ word.toList)
    (undashed : ¬ Dashed (some word)) : Ahead (some word) (word :: words) where
  solid := List.forall_mem_cons.2 ⟨solid, h.solid⟩
  first first hf := by rwa [tokenAhead_of_undashed undashed] at hf

theorem pair (h : Ahead t words) (flag_solid : ' ' ∉ flag.toList)
    (value_solid : ' ' ∉ value.toList) : Ahead t (("-" ++ flag) :: value :: words) where
  solid := List.forall_mem_cons.2 ⟨by simpa using flag_solid,
    List.forall_mem_cons.2 ⟨value_solid, h.solid⟩⟩
  first first hf := h.first first (by rwa [tokenAhead_pair] at hf)

end Ahead

/-! ## Another word -/

theorem Worded.concat {words : List String} (h : Worded words) {word : String}
    (last : Text.IsWord word) : Worded (words ++ [word]) where
  opens first hf := by
    cases words with
    | nil =>
      cases hf
      exact last.opens
    | cons _ _ => exact h.opens first hf
  closes final hf := by
    rw [List.getLast?_concat] at hf
    cases hf
    exact last.closes

/-- The line that a dispatch reads when a word is typed behind some others. -/
theorem Worded.line_concat_eq {words : List String} (h : Worded words) {word : String}
    (last : Text.IsWord word) :
    (if Text.trim (spaced words ++ " " ++ word) = "" then none
      else some (Text.trim (spaced words ++ " " ++ word))) = wordLine (words ++ [word]) := by
  rw [← (h.concat last).line_eq]
  have only : spaced [word] = word := by simp [spaced]
  cases words with
  | nil =>
    have blank : Text.trim (spaced [] ++ " " ++ word) = Text.trim (spaced ([] ++ [word])) := by
      rw [List.nil_append, only]
      exact Text.trim_append Text.blank_space word
    rw [blank]
  | cons first words =>
    rw [spaced_append (List.cons_ne_nil _ _) (List.cons_ne_nil _ _), only]

theorem Worded.insert {front after : List String} (h : Worded (front ++ after))
    {first last : String} (opens : Text.Opens first) (closes : Text.Closes last) :
    Worded (front ++ first :: last :: after) where
  opens word hw := by
    cases front with
    | nil =>
      cases hw
      exact opens
    | cons _ _ => exact h.opens word hw
  closes word hw := by
    cases after with
    | nil =>
      simp only [List.getLast?_append_cons, List.getLast?_cons_cons] at hw
      cases hw
      exact closes
    | cons next after =>
      apply h.closes
      simpa only [List.getLast?_append_cons, List.getLast?_cons_cons] using hw

/-! ## Pairs already taken -/

namespace Context

/-- Some pairs at the start of a line are taken; the context behind them, and what follows them. -/
inductive Past : Context ε → Option String → Context ε → Option String → Prop
  | refl {ctx : Context ε} {line : Option String} : Past ctx line ctx line
  | pair {ctx ctx' ctx'' : Context ε} {line line' line'' : Option String}
      (takes : ctx.Takes line ctx' line') (rest : Past ctx' line' ctx'' line'') :
      Past ctx line ctx'' line''

variable {ctx ctx' ctx'' : Context ε} {line line' line'' : Option String}

theorem Past.trans (h : ctx.Past line ctx' line') (h' : ctx'.Past line' ctx'' line'') :
    ctx.Past line ctx'' line'' := by
  induction h with
  | refl => exact h'
  | pair takes _ ih => exact .pair takes (ih h')

theorem Past.takePairs_eq (h : ctx.Past line ctx' line') :
    ctx.takePairs line = ctx'.takePairs line' := by
  induction h with
  | refl => rfl
  | pair takes _ ih => rw [takePairs_of_takes takes, ih]

theorem Past.takeTrailing_eq (h : ctx.Past line ctx' line') :
    Grammar.takeTrailing ctx line = Grammar.takeTrailing ctx' line' := by
  rw [Grammar.takeTrailing, Grammar.takeTrailing, h.takePairs_eq]

theorem Past.sound (h : ctx.Past line ctx' line') (sound : g.Sound ctx) : g.Sound ctx' := by
  induction h with
  | refl => exact sound
  | pair takes _ ih => exact ih ((Grammar.sound_keeps g).takes sound takes)

theorem Answers.pushSwitch {flag : String} {s : Slot ε} (h : ctx.Answers flag s ctx')
    (t : Slot ε) : (ctx.pushSwitch t).Answers flag s (ctx'.pushSwitch t) := by
  obtain @⟨before, after, s, waiting, others, answers⟩ := h
  have waiting' : (ctx.pushSwitch t).switches = before ++ s :: (after ++ [t]) := by
    simp [Context.pushSwitch, waiting]
  have first := Answers.first waiting' others answers
  rwa [← List.append_assoc] at first

/-- A pair may be taken before or after a switch begins to wait. -/
theorem Takes.pushSwitch (h : ctx.Takes line ctx' line') (s : Slot ε) :
    (ctx.pushSwitch s).Takes line (ctx'.pushSwitch s) line' := by
  obtain ⟨word, answer, consumed⟩ := h
  exact .pair word (answer.pushSwitch s) consumed

theorem Past.pushSwitch (h : ctx.Past line ctx' line') (s : Slot ε) :
    (ctx.pushSwitch s).Past line (ctx'.pushSwitch s) line' := by
  induction h with
  | refl => exact .refl
  | pair takes _ ih => exact .pair (takes.pushSwitch s) ih

end Context

/-! ## Pairs that are pending -/

theorem wordLine_pair (flag value : String) (words : List String) :
    wordLine (("-" ++ flag) :: value :: words) =
      some ("-" ++ (flag ++ " " ++ behind value (wordLine words))) := by
  simp [wordLine, behind, String.append_assoc]

/-- A match stands at the start of a line; taking the pairs there leads to some words and to a
context. -/
structure Pending (g : Grammar ε) (line : Option String) (start : Context ε)
    (words : List String) (ctx : Context ε) : Prop where
  sound : g.Sound start
  past : start.Past line ctx (wordLine words)

namespace Pending

variable {line : Option String} {start ctx others : Context ε} {words : List String}

theorem refl (sound : g.Sound ctx) (words : List String) :
    Pending g (wordLine words) ctx words ctx := ⟨sound, .refl⟩

theorem pushSwitch (h : Pending g line start words ctx) {node : Nat} {s : Slot ε}
    (here : g.slot? node = some s) (switch : s.isSwitch = true) :
    Pending g line (start.pushSwitch s) words (ctx.pushSwitch s) where
  sound := (Grammar.sound_keeps g).waits h.sound here switch
  past := h.past.pushSwitch s

theorem pair (wordwise : g.Wordwise) {flag value : String} {s : Slot ε}
    (h : Pending g line start (("-" ++ flag) :: value :: words) ctx) (word : ' ' ∉ flag.toList)
    (solid : ' ' ∉ value.toList) (answer : ctx.Answers flag s others) :
    Pending g line start words (others.consume (s.holding ⟨some value, none⟩)) where
  sound := h.sound
  past := by
    have standard : s.type.consume = consumeToken :=
      wordwise _ _ ((h.past.sound h.sound).answers answer).2.1
    have consumed : s.type.consume s.descriptor (some (behind value (wordLine words))) =
        .ok ⟨some value, wordLine words⟩ := by
      rw [standard]
      exact consumeToken_behind s.descriptor solid (wordLine words)
    have takes := Context.Takes.pair word answer consumed
    rw [← wordLine_pair] at takes
    exact h.past.trans (.pair takes .refl)

theorem takePairs_eq_of_token {word : String} (h : Pending g line start (word :: words) ctx)
    (undashed : ¬ Dashed (some word)) :
    start.takePairs line = .through (some (behind word (wordLine words))) ctx := by
  rw [h.past.takePairs_eq, wordLine]
  exact Context.takePairs_of_not_dashed (mt (dashed_behind_iff _ _).1 undashed)

theorem takePairs_eq_of_nil (h : Pending g line start [] ctx) :
    start.takePairs line = .through none ctx := by
  rw [h.past.takePairs_eq, wordLine]
  exact Context.takePairs_of_not_dashed not_dashed_none

theorem takePairs_eq_of_sticks (h : Pending g line start words ctx)
    (sticks : ctx.Sticks (wordLine words) others) : start.takePairs line = .stuck others := by
  rw [h.past.takePairs_eq, Context.takePairs_of_sticks sticks]

/-- The pairs that are pending are taken up to the end of the words or to the first token, or one
of them stands in the way. -/
theorem takePairs_cases (h : Pending g line start words ctx) (wordwise : g.Wordwise)
    (solid : ∀ word ∈ words, ' ' ∉ word.toList) :
    (∃ ctx', start.takePairs line = .stuck ctx') ∨
      (∃ ctx', start.takePairs line = .through none ctx') ∨
        ∃ token rest ctx', start.takePairs line = .through (some (behind token rest)) ctx' ∧
          ' ' ∉ token.toList ∧ tokenAhead words = some token := by
  induction words using tokenAhead.induct generalizing ctx with
  | case1 => exact .inr (.inl ⟨ctx, h.takePairs_eq_of_nil⟩)
  | case2 word dashed =>
    rw [List.forall_mem_singleton] at solid
    obtain ⟨flag, he⟩ := dashed_some_iff.2 dashed
    obtain rfl : word = "-" ++ flag := Option.some.inj he
    have flag_solid : ' ' ∉ flag.toList := fun hs => solid (by simp [hs])
    exact .inl ⟨ctx, h.takePairs_eq_of_sticks (.unfinished flag_solid)⟩
  | case3 word plain =>
    have undashed : ¬ Dashed (some word) := mt dashed_some_iff.1 plain
    exact .inr (.inr ⟨word, _, ctx, h.takePairs_eq_of_token undashed, solid word (by simp),
      tokenAhead_of_undashed undashed _⟩)
  | case4 word value words dashed ih =>
    rw [List.forall_mem_cons, List.forall_mem_cons] at solid
    obtain ⟨flag, he⟩ := dashed_some_iff.2 dashed
    obtain rfl : word = "-" ++ flag := Option.some.inj he
    have flag_solid : ' ' ∉ flag.toList := fun hs => solid.1 (by simp [hs])
    cases answer : ctx.takeSwitch flag with
    | none =>
      -- a pair that no switch answers to stands in the way
      refine .inl ⟨ctx, h.takePairs_eq_of_sticks ?_⟩
      rw [wordLine_pair]
      exact .unanswered flag_solid (Context.takeSwitch_eq_none_iff.1 answer)
    | some found =>
      have pending := h.pair wordwise flag_solid solid.2.1 (Context.takeSwitch_eq_some_iff.1 answer)
      rw [tokenAhead, if_pos dashed]
      exact ih pending solid.2.2
  | case5 word value words plain =>
    have undashed : ¬ Dashed (some word) := mt dashed_some_iff.1 plain
    exact .inr (.inr ⟨word, _, ctx, h.takePairs_eq_of_token undashed, solid word (by simp),
      tokenAhead_of_undashed undashed _⟩)

/-- No path leads through a literal that does not spell the next token. -/
theorem resolve_aside (h : Pending g line start words ctx) (a : g.tree.Arena)
    (wordwise : g.Wordwise) {token : Option String} (ahead : Ahead token words) {child : Nat}
    {slot : Slot ε} (here : g.slot? child = some slot) (inside : child < g.tree.size)
    (aside : Aside token slot) : (g.resolve child line start).chain = [] := by
  apply resolve_literal a here inside aside
  rcases h.takePairs_cases wordwise ahead.solid with
    stuck | ended | ⟨word, rest, ctx', he, solid, first⟩
  · exact .inl stuck
  · exact .inr (.inl ended)
  · exact .inr (.inr ⟨word, rest, ctx', he, solid, ahead.first word first⟩)

end Pending

/-! ## Following a path -/

namespace Grammar

/-- Whatever stands beside a child is a literal that the token does not spell. -/
def Alone (g : Grammar ε) (token : Option String) (node child : Nat) : Prop :=
  ∀ c ∈ g.tree.children node, c ≠ child → ∀ slot, g.slot? c = some slot → Aside token slot

/-- The words lead from a node down to another one, and from a context to another one.  Pairs are
for the switches that may be given, and `next` is the token that follows the words, if one does.
Whether the values are accepted is not asked. -/
inductive Follows (g : Grammar ε) (given : Nat → Prop) (next : Option String) :
    Nat → List String → Context ε → Nat → Context ε → Prop
  | done {node : Nat} {ctx : Context ε} : Follows g given next node [] ctx node ctx
  | waits {node last : Nat} {s : Slot ε} {words : List String} {ctx ctx' : Context ε}
      (below : s.node ∈ g.tree.children node) (here : g.slot? s.node = some s)
      (switch : s.isSwitch = true) (alone : g.Alone ((tokenAhead words).or next) node s.node)
      (rest : Follows g given next s.node words (ctx.pushSwitch s) last ctx') :
      Follows g given next node words ctx last ctx'
  | token {node last : Nat} {s : Slot ε} {token : String} {words : List String}
      {ctx ctx' : Context ε} (below : s.node ∈ g.tree.children node)
      (here : g.slot? s.node = some s) (plain : s.isSwitch = false)
      (alone : g.Alone (some token) node s.node) (solid : ' ' ∉ token.toList)
      (undashed : ¬ Dashed (some token))
      (rest : Follows g given next s.node words
        (ctx.pushMatched ((s.holding ⟨some token, none⟩).valued ctx.around)) last ctx') :
      Follows g given next node (token :: words) ctx last ctx'
  | pair {node last : Nat} {s : Slot ε} {flag value : String} {words : List String}
      {ctx others ctx' : Context ε} (word : ' ' ∉ flag.toList) (solid : ' ' ∉ value.toList)
      (answer : ctx.Answers flag s others) (may : given s.node)
      (rest : Follows g given next node words (others.consume (s.holding ⟨some value, none⟩)) last
        ctx') : Follows g given next node (("-" ++ flag) :: value :: words) ctx last ctx'

namespace Follows

variable {given : Nat → Prop} {next : Option String} {node last : Nat} {words : List String}
  {ctx ctx' : Context ε}

theorem ahead (h : g.Follows given next node words ctx last ctx') {rest : List String}
    (ahead : Ahead next rest) : Ahead ((tokenAhead words).or next) (words ++ rest) := by
  induction h with
  | done => exact ahead
  | waits _ _ _ _ _ ih => exact ih
  | token _ _ _ _ solid undashed _ ih =>
    rw [tokenAhead_of_undashed undashed]
    exact ih.token solid undashed
  | pair word solid _ _ _ ih =>
    rw [tokenAhead_pair]
    exact ih.pair word solid

/-- All pairs of the words are whole, so the token ahead is one of the words or the next one. -/
theorem tokenAhead_append (h : g.Follows given next node words ctx last ctx')
    (rest : List String) :
    tokenAhead (words ++ rest) = (tokenAhead words).or (tokenAhead rest) := by
  induction h with
  | done => rfl
  | waits _ _ _ _ _ ih => exact ih
  | @token _ _ _ token words _ _ _ _ _ _ _ undashed _ _ =>
    rw [tokenAhead_of_undashed undashed, List.cons_append, tokenAhead_of_undashed undashed]
    rfl
  | pair _ _ _ _ _ ih =>
    rw [List.cons_append, List.cons_append, tokenAhead_pair, tokenAhead_pair]
    exact ih

theorem sound (h : g.Follows given next node words ctx last ctx') (wordwise : g.Wordwise)
    (sound : g.Sound ctx) : g.Sound ctx' := by
  have keeps := sound_keeps g
  induction h with
  | done => exact sound
  | waits _ here switch _ _ ih => exact ih (keeps.waits sound here switch)
  | token _ here plain _ _ _ _ ih => exact ih (keeps.matched _ sound here plain)
  | @pair _ _ s flag value _ _ _ _ word solid answer _ _ ih =>
    have consumed : s.type.consume s.descriptor (some value) = .ok ⟨some value, none⟩ := by
      rw [wordwise _ _ (sound.answers answer).2.1]
      exact consumeToken_behind s.descriptor solid none
    exact ih (keeps.takes sound (.pair word answer consumed))

theorem append {words' : List String} {middle : Nat} {ctx₁ : Context ε}
    (h : g.Follows given ((tokenAhead words').or next) node words ctx middle ctx₁)
    (h' : g.Follows given next middle words' ctx₁ last ctx') :
    g.Follows given next node (words ++ words') ctx last ctx' := by
  induction h with
  | done => exact h'
  | waits below here switch alone rest ih =>
    refine .waits below here switch ?_ (ih h')
    rwa [rest.tokenAhead_append, Option.or_assoc]
  | token below here plain alone solid undashed _ ih =>
    exact .token below here plain alone solid undashed (ih h')
  | pair word solid answer may _ ih => exact .pair word solid answer may (ih h')

theorem inside (h : g.Follows given next node words ctx last ctx') (a : g.tree.Arena)
    (inside : node < g.tree.size) : last < g.tree.size := by
  induction h with
  | done => exact inside
  | waits below _ _ _ _ ih => exact ih (a.child_lt _ _ below)
  | token below _ _ _ _ _ _ ih => exact ih (a.child_lt _ _ below)
  | pair _ _ _ _ _ ih => exact ih inside

/-- A switch that may not be given is not used. -/
theorem unused (h : g.Follows given next node words ctx last ctx') {n : Nat} (not : ¬ given n)
    (unused : ctx.consumed? n = none) : ctx'.consumed? n = none := by
  induction h with
  | done => exact unused
  | waits _ _ _ _ _ ih => exact ih unused
  | token _ _ _ _ _ _ _ ih => exact ih unused
  | pair _ _ answer may _ ih =>
    apply ih
    rw [consumed?_consume, Slot.holding_node, if_neg]
    · obtain ⟨-, -, -⟩ := answer
      exact unused
    · rintro rfl
      exact not may

end Follows

end Grammar

end CommandTree
