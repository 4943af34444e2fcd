import CommandTree.Proofs.ConsoleLines
import CommandTree.Proofs.Defaults
import CommandTree.Proofs.TrailingPairs

/-!
# Naming oneself

A player who types `give` gets a block, and so does one who types `give` and a name: the player of
that name who is online.  The two ways differ in where the name comes from.  Without a name it is
the name of the session itself.  A name is looked up among the names that are online, in any case
of the letters A to Z, and the first that fits gets the block.

The session of the console has its own name among those online, but it is added behind names that
differ from it in letter case alone.  So those who name themselves get the block exactly if no such
name stands in front.

Results:
* `matchOf_give`, `plan_give`: what a line with `give` matches, and the call that it leads to.
* `answer_give`: what is printed for such a line, and the session behind it.
* `find?_session`: the player whom the own name stands for.
* `give_own_name`: the two ways beside each other, and when they are the same.
* `give_other_spelling`: a session in which they are not.
-/
namespace CommandTree

namespace Portal

/-! ## A line that hands out a block -/

/-- What stands behind the word `give`, and the player that is read from it. -/
structure Addresses (s : Session) (rest : Option String) (owner : String) : Prop where
  word : ∀ name ∈ rest, Text.IsWord name
  undashed : ¬ Dashed rest
  player : ∃ token, consumeToken playerSlot.descriptor rest = .ok ⟨some token, none⟩ ∧
    ∀ around : Surroundings Session, around.env = s →
      playerType.result token playerSlot.descriptor around = .ok (player owner)

/-- Where nobody is named, the one typing gets the block. -/
theorem addresses_self {s : Session} (person : s.isConsole = false) :
    Addresses s none s.name where
  word := by simp
  undashed := not_dashed_none
  player := by
    refine ⟨"%self", consumeToken_default (by decide), ?_⟩
    rintro around rfl
    simp [playerType, selfResult, person]

/-- A name is that of the first player online whose name it is in any case of its letters. -/
theorem addresses_named {s : Session} {name owner : String} (word : Text.IsWord name)
    (undashed : ¬ Dashed (some name)) (other : name ≠ "%self") (found : s.find? name = some owner) :
    Addresses s (some name) owner where
  word := by simpa using word
  undashed := undashed
  player := by
    refine ⟨name, consumeToken_behind _ (Text.not_mem_space word.solid) none, ?_⟩
    rintro around rfl
    have online : (playerSlot.descriptor.parameter "mode").getD "any" = "online" := by
      decide
    simp [playerType, other, online, namedResult, found]

def giveSlot : Slot Session :=
  { literalSlot 3 "give|g" with
    token := some "give", parsed := true, answer := some (.ok (.text "give")) }

def readPlayer (token owner : String) : Slot Session :=
  { playerSlot with token := some token, parsed := true, answer := some (.ok (player owner)) }

theorem undashed_give (rest : Option String) : ¬ Dashed (some (behind "give" rest)) :=
  mt (dashed_behind_iff _ _).1 (mt dashed_some_iff.1 (by decide))

variable (settings : Settings)

theorem passes_give (rest : Option String) (ctx : Context Session) :
    (commandGrammar settings).Passes 3 (some (behind "give" rest)) ctx giveSlot rest
      (ctx.pushMatched giveSlot) := by
  have here := slot?_command settings (show literalSlot 3 "give|g" ∈ commandSlots by
    simp [commandSlots])
  have consumed := consumeToken_behind (literalSlot 3 "give|g").descriptor
    (show ' ' ∉ "give".toList by decide) rest
  have value : ((literalSlot 3 "give|g").holding ⟨some "give", rest⟩).value ctx.around =
      .ok (.text "give") :=
    (ArgumentType.literal_result_eq_ok_iff "give" ⟨"give|g", {}⟩ ctx.around _).2
      ⟨.inr (by decide), rfl⟩
  have slot : ((literalSlot 3 "give|g").holding ⟨some "give", rest⟩).valued ctx.around =
      giveSlot := by
    rw [Slot.valued, value]
    rfl
  rw [← slot]
  exact .takes here (by decide) (.none (undashed_give rest)) consumed value

theorem passes_player {s : Session} {rest : Option String} {owner : String}
    (h : Addresses s rest owner) :
    ∃ token, ∀ ctx : Context Session, ctx.env = s →
      (commandGrammar settings).Passes 5 rest ctx (readPlayer token owner) none
        (ctx.pushMatched (readPlayer token owner)) := by
  have here := slot?_command settings (show playerSlot ∈ commandSlots by simp [commandSlots])
  obtain ⟨token, consumed, result⟩ := h.player
  refine ⟨token, fun ctx seen => ?_⟩
  have value : (playerSlot.holding ⟨some token, none⟩).value ctx.around = .ok (player owner) :=
    result ctx.around seen
  have slot : (playerSlot.holding ⟨some token, none⟩).valued ctx.around =
      readPlayer token owner := by
    rw [Slot.valued, value]
    rfl
  rw [← slot]
  exact .takes here (by decide) (.none h.undashed) consumed value

/-- The match of a line with `give`: the switch of the kind waits, and the player is read. -/
theorem matchOf_give {s : Session} {rest : Option String} {owner : String} (limit : Nat)
    (h : Addresses s rest owner) {line : String} (read : Text.trim line = behind "give" rest) :
    ∃ token, (commandGrammar settings).matchOf line { env := s, limit } =
      ⟨[giveSlot, kindSlot, readPlayer token owner],
        { env := s, limit, switches := [kindSlot]
          matched := [giveSlot, readPlayer token owner] }⟩ := by
  have a : (commandGrammar settings).tree.Arena := commandTree_built.arena
  obtain ⟨-, top, middle, lowest, -⟩ := commandTree_shape
  have kind := slot?_command settings (show kindSlot ∈ commandSlots by simp [commandSlots])
  obtain ⟨token, player⟩ := passes_player settings h
  have leaf : commandTree.isLeaf 5 = true := by decide +kernel
  have below : 3 ∈ commandTree.children 0 := by simp [top]
  have others : ∀ c ∈ commandTree.children 0, c ≠ 3 →
      ((commandGrammar settings).resolve c (some (behind "give" rest))
        { env := s, limit }).chain = [] := by
    intro c hc other
    obtain ⟨slot, hs⟩ := Grammar.slot?_child a hc
    exact resolve_literal a hs (a.child_lt _ c hc) (alone_give c hc other slot hs)
      (.inr (.inr ⟨"give", rest, _, Context.takePairs_of_not_dashed (undashed_give rest),
        by decide, rfl⟩))
  have nonempty : behind "give" rest ≠ "" := by
    cases rest with
    | none => decide
    | some name => simp [behind]
  -- one node at a time: the word, the switch that is left out and waits, and the player at the leaf
  have first := Grammar.below_of_passes a below others (passes_give settings rest _)
  have waits : ∀ ctx : Context Session, (commandGrammar settings).Passes 4 rest ctx kindSlot rest
      (ctx.pushSwitch kindSlot) := fun _ => .waits kind (by decide)
  have second := fun ctx : Context Session => Grammar.below_eq_of_only a middle (waits ctx)
  have third := fun (ctx : Context Session) (seen : ctx.env = s) =>
    Grammar.below_eq_of_only a lowest (player ctx seen)
  refine ⟨token, ?_⟩
  rw [Grammar.matchOf, read, if_neg nonempty, Grammar.resolve_root a]
  refine first.trans ?_
  rw [second, third _ rfl, Grammar.below_of_leaf leaf]
  rfl

/-- The line calls for the handler of `give`, with a block of the kind that is the default. -/
theorem plan_give {s : Session} {rest : Option String} {owner : String} (limit : Nat)
    (h : Addresses s rest owner) {line : String} (read : Text.trim line = behind "give" rest) :
    ((commandGrammar settings).plan (Text.trim line) { env := s, limit } []).1.call =
      some ⟨5, .execute, give, [.text "nether", player owner]⟩ := by
  obtain ⟨token, found⟩ := matchOf_give settings limit h read
  have absent : consumeToken kindSlot.descriptor none = .ok ⟨some "NETHER", none⟩ :=
    consumeToken_default (by decide)
  have effective : ((commandGrammar settings).matchOf line { env := s, limit }).context.Effective
      ((commandGrammar settings).matchOf line { env := s, limit }).chain
      [giveSlot, kindSlot.holding ⟨some "NETHER", none⟩, readPlayer token owner] := by
    rw [found]
    exact .cons (.plain rfl rfl)
      (.cons (.absent rfl (by decide) absent) (.cons (.plain rfl rfl) .nil))
  have decides := Grammar.decides_of_effective commandTree_built.arena effective []
  generalize ((commandGrammar settings).matchOf line { env := s, limit }).context.around = around
    at decides
  have word : giveSlot.value around = .ok (.text "give") := rfl
  have kind : (kindSlot.holding ⟨some "NETHER", none⟩).value around = .ok (.text "nether") :=
    (kind_result_eq_ok_iff "NETHER" kindSlot.descriptor around _).2
      ⟨by decide, congrArg Value.text (by decide)⟩
  have who : (readPlayer token owner).value around = .ok (player owner) := rfl
  have arguments : argumentsOf around [giveSlot, kindSlot.holding ⟨some "NETHER", none⟩,
      readPlayer token owner] = [.text "nether", player owner] := by
    rw [argumentsOf_cons word, argumentsOf_cons kind, argumentsOf_cons who]
    rfl
  have sane : Sane around [giveSlot, kindSlot.holding ⟨some "NETHER", none⟩,
      readPlayer token owner] := by
    intro slot hs
    simp only [List.mem_cons, List.not_mem_nil, or_false] at hs
    rcases hs with rfl | rfl | rfl
    exacts [⟨_, word⟩, ⟨_, kind⟩, ⟨_, who⟩]
  have called := decides.unique (.execute sane rfl (handler?_commandTree.2 .give))
  rw [called.1, List.nil_append, arguments]
  rfl

end Portal

/-! ## Two ways to name oneself -/

namespace Console

open Portal

/-- The line of the console that hands out a block, with what stands behind it. -/
def giveLine (rest : Option String) : String := behind "pn give" rest

theorem giveLine_toList (rest : Option String) :
    (giveLine rest).toList = 'p' :: 'n' :: ' ' :: (behind "give" rest).toList := by
  cases rest <;> simp [giveLine, behind]

theorem spoken_giveLine (rest : Option String) : Spoken (giveLine rest) where
  unasked := by simp [giveLine_toList]
  worded := by simp [giveLine_toList, show Text.isBlank 'p' = false by decide]

theorem trimLeft_giveLine (rest : Option String) :
    Text.trimLeft (giveLine rest).toList = 'p' :: 'n' :: ' ' :: (behind "give" rest).toList := by
  rw [giveLine_toList]
  exact Text.dropWhile_eq_self rfl (by decide)

theorem splitLabel_giveLine (rest : Option String) :
    splitLabel (giveLine rest) = ("pn", some (behind "give" rest)) := by
  have left : Text.trimStart (giveLine rest) = "pn" ++ " " ++ behind "give" rest := by
    rw [Text.trimStart, trimLeft_giveLine, ← String.toList_inj]
    simp
  rw [splitLabel, left]
  exact Text.cut_eq_some_iff.2 ⟨by decide, rfl⟩

theorem firstWord_giveLine (rest : Option String) : Text.firstWord (giveLine rest) = "pn" := by
  have space : Text.behindWord (giveLine rest) = ' ' :: (behind "give" rest).toList := by
    rw [Text.behindWord, trimLeft_giveLine]
    rfl
  have same := (splitLabel_fst_eq_iff (giveLine rest)).2 (by simp [space])
  rw [← same, splitLabel_giveLine]

/-- What the console prints for a line that hands out a block, and the session behind it. -/
theorem answer_give (settings : Settings) {s : Session} (quiet : s.replies = [])
    {rest : Option String} {owner : String} (h : Addresses s rest owner) :
    answer (registry settings) s (giveLine rest) =
      (["Giving " ++ owner ++ " a nether portal block."], s.give ⟨owner, "nether"⟩) := by
  have label : Text.lower "pn" ∈ commandLabels := by decide
  have found : ((registry settings).get? (Text.firstWord (giveLine rest))).isSome = true := by
    rw [firstWord_giveLine, registry, get?_register, if_pos label]
    rfl
  have trimmed : Text.trim (behind "give" rest) = behind "give" rest := by
    have opens : Text.Opens "give" := ⟨'g', rfl, by decide⟩
    cases rest with
    | none => exact Text.trim_eq_self opens ⟨'e', rfl, by decide⟩
    | some name =>
      exact Text.trim_eq_self ((opens.append " ").append name) ((h.word name rfl).closes.append _)
  have call : callOf (register { settings }) s (giveLine rest) =
      some ⟨5, .execute, give, [.text "nether", player owner]⟩ := by
    rw [callOf, splitLabel_giveLine, get?_register, if_pos label, Option.bind_some,
      grammar_register]
    exact plan_give settings settings.completionLimit h trimmed
  obtain ⟨log, s', executed, after, -⟩ := served_execute settings s
    (show Text.lower (splitLabel (giveLine rest)).1 ∈ commandLabels by
      rw [splitLabel_giveLine]; exact label)
  have reacted : s' = (s.give ⟨owner, "nether"⟩).reply
      ["Giving " ++ owner ++ " a nether portal block."] := by
    rw [after, call, reactionTo, give_run s ⟨owner, "nether"⟩]
    simp only [String.append_assoc]
    rfl
  rw [answer_of_known (spoken_giveLine rest) found, registry, executed, reacted]
  simp [Session.reply, Session.give, Session.shown, quiet]

/-- The player whom the name of the session stands for: the first name that was said to be online
and is the same in any case of its letters, or the name itself. -/
theorem find?_session (o : Options)
    (person : Text.sameUpToAsciiCase o.playerName "console" = false) :
    (session o).find? o.playerName =
      some ((o.onlineNames.find? fun name =>
        Text.sameUpToAsciiCase name o.playerName).getD o.playerName) := by
  have self : Text.sameUpToAsciiCase o.playerName o.playerName = true := by
    simp [Text.sameUpToAsciiCase]
  rw [Session.find?, session]
  simp only [person, Bool.false_or]
  split
  · rename_i listed
    have known : (o.onlineNames.find? fun name =>
        Text.sameUpToAsciiCase name o.playerName).isSome = true :=
      List.find?_isSome.2 ⟨o.playerName, List.contains_iff_mem.1 listed, self⟩
    obtain ⟨first, hfirst⟩ := Option.isSome_iff_exists.1 known
    rw [hfirst, Option.getD_some]
  · have added : [o.playerName].find? (fun name => Text.sameUpToAsciiCase name o.playerName) =
        some o.playerName := List.find?_cons_of_pos self
    rw [List.find?_append, added]
    cases o.onlineNames.find? fun name => Text.sameUpToAsciiCase name o.playerName <;> rfl

/-- **Naming oneself.**  Whatever the settings, the names online and the lines before, a player
whose name is one word, no dash before it and not `%self`, is given the block where nobody is named.
Where the player's own name is, the first name that was said to be online and is the same in any
case of its letters gets it, and the player if there is none.  The two lines print the same and do
the same exactly when this name is the player's own. -/
theorem give_own_name (settings : Settings) (o : Options) (before : List String)
    (word : Text.IsWord o.playerName) (undashed : ¬ Dashed (some o.playerName))
    (other : o.playerName ≠ "%self")
    (person : Text.sameUpToAsciiCase o.playerName "console" = false) :
    let name := o.playerName
    let owner := (o.onlineNames.find? fun online => Text.sameUpToAsciiCase online name).getD name
    let r := registry settings
    let s := heard r (session o) before
    answer r s "pn give" =
        (["Giving " ++ name ++ " a nether portal block."], s.give ⟨name, "nether"⟩) ∧
      answer r s ("pn give " ++ name) =
        (["Giving " ++ owner ++ " a nether portal block."], s.give ⟨owner, "nether"⟩) ∧
      (answer r s ("pn give " ++ name) = answer r s "pn give" ↔ owner = name) := by
  intro name owner r s
  have continues : Portal.Continues (session o) s := continues_heard settings (session o) before
  have quiet : s.replies = [] := heard_replies r rfl before
  have typing : s.name = name := continues.name
  have found : s.find? name = some owner := by
    rw [Session.find?, continues.online]
    exact find?_session o person
  have unnamed : answer r s "pn give" =
      (["Giving " ++ name ++ " a nether portal block."], s.give ⟨name, "nether"⟩) := by
    have addressed : Addresses s none s.name := addresses_self (by rwa [Session.isConsole, typing])
    rw [typing] at addressed
    exact answer_give settings quiet addressed
  have named : answer r s ("pn give " ++ name) =
      (["Giving " ++ owner ++ " a nether portal block."], s.give ⟨owner, "nether"⟩) := by
    have line : "pn give " ++ name = giveLine (some name) := by
      simp [giveLine, behind]
    rw [line]
    exact answer_give settings quiet (addresses_named word undashed other found)
  refine ⟨unnamed, named, ?_⟩
  rw [unnamed, named]
  constructor
  · intro same
    simpa [Session.give] using congrArg Prod.snd same
  · intro same
    rw [same]

/-- A player in a crowd, behind whom the same name stands in another spelling. -/
theorem give_own_name_alex :
    let o : Options := { player := some "alex", online := ["bob", "alex", "Alex"] }
    let s := heard (registry {}) (session o) ["pn give bob", "pn list"]
    parse ["--player", "alex", "--online", "bob,alex,Alex"] = .run o ∧
      answer (registry {}) s "pn give" =
        (["Giving alex a nether portal block."], s.give ⟨"alex", "nether"⟩) ∧
      answer (registry {}) s "pn give alex" = answer (registry {}) s "pn give" := by
  obtain ⟨unnamed, -, same⟩ :=
    give_own_name {} { player := some "alex", online := ["bob", "alex", "Alex"] }
      ["pn give bob", "pn list"] ⟨by decide, Text.solid_of_all (by decide)⟩
      (mt dashed_some_iff.1 (by decide)) (by decide) (by decide)
  exact ⟨by decide, unnamed, same.2 (by decide)⟩

/-- Without `--online` a player of the name `Alex` is online, and `alex` stands for that one. -/
theorem give_other_spelling :
    let o : Options := { player := some "alex" }
    let name := o.playerName
    parse ["--player", "alex"] = .run o ∧ Text.IsWord name ∧ ¬ Dashed (some name) ∧
      name ≠ "%self" ∧ Text.sameUpToAsciiCase name "console" = false ∧
      answer (registry {}) (session o) "pn give" =
        (["Giving alex a nether portal block."], (session o).give ⟨"alex", "nether"⟩) ∧
      answer (registry {}) (session o) ("pn give " ++ name) =
        (["Giving Alex a nether portal block."], (session o).give ⟨"Alex", "nether"⟩) ∧
      answer (registry {}) (session o) ("pn give " ++ name) ≠
        answer (registry {}) (session o) "pn give" :=
  ⟨by decide, ⟨by decide, Text.solid_of_all (by decide)⟩,
    mt dashed_some_iff.1 (by decide), by decide, by decide, by decide +kernel,
    by decide +kernel, by decide +kernel⟩

end Console

end CommandTree
