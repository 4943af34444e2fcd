import CommandTree.Console.Run
import CommandTree.Proofs.Lowering
import CommandTree.Proofs.PortalSession

/-!
# The lines of the console

The console looks at each line twice.  It refuses the line if its first word, up to any blank, is no
label.  Then the registry cuts off a label of its own, up to the first space, and runs the command
of that label.  Where a space follows the first word, or nothing, both are the same label and the
line is answered: the word is refused, or a command replies.  Where another blank follows, as a
tab, the registry finds no command under the longer label, and nothing is printed at all.

Between two lines the session has no replies left, so what is printed for a line belongs to it.

Results:
* `splitLabel_fst_eq_iff`: when both labels are one.
* `answered_of_label`, `answer_of_split`: a line whose first word is a label.
* `answers_append`, `heard_replies`: what is printed for a line, and that nothing is left over.
* `continues_heard`: what several lines of input keep.
* `line_answered_iff`: which lines of a run are answered.
* `line_swallowed`: a line that is not.
-/
namespace CommandTree

/-! ## Two ways to cut off a label -/

/-- What follows the first word of a line. -/
def Text.behindWord (line : String) : List Char :=
  (trimLeft line.toList).dropWhile fun c => !isBlank c

/-- What stands before the first space is the first word, or it holds another blank. -/
theorem cutChars_fst_cases (cs : List Char) :
    ((Text.cutChars ' ' cs).1 = cs.takeWhile (fun c => !Text.isBlank c) ∧
        ∀ c ∈ (cs.dropWhile fun c => !Text.isBlank c).head?, c = ' ') ∨
      (∃ c ∈ (Text.cutChars ' ' cs).1, Text.isBlank c = true) ∧
        ∃ c ∈ (cs.dropWhile fun c => !Text.isBlank c).head?, c ≠ ' ' := by
  induction cs with
  | nil => exact .inl ⟨rfl, by simp⟩
  | cons c cs ih =>
    by_cases space : c = ' '
    · subst space
      exact .inl ⟨by simp [Text.cutChars, show Text.isBlank ' ' = true by decide], by
        simp [show Text.isBlank ' ' = true by decide]⟩
    · have cut : (Text.cutChars ' ' (c :: cs)).1 = c :: (Text.cutChars ' ' cs).1 := by
        rw [Text.cutChars, if_neg space]
      cases blank : Text.isBlank c with
      | true =>
        refine .inr ⟨⟨c, by rw [cut]; exact List.mem_cons_self, blank⟩, c, ?_, space⟩
        rw [List.dropWhile_cons_of_neg (by simp [blank])]
        rfl
      | false =>
        rw [cut, List.takeWhile_cons_of_pos (by simp [blank]),
          List.dropWhile_cons_of_pos (by simp [blank])]
        refine ih.imp (fun h => ⟨by rw [h.1], h.2⟩) fun h => ⟨?_, h.2⟩
        obtain ⟨d, hd, blank'⟩ := h.1
        exact ⟨d, List.mem_cons_of_mem _ hd, blank'⟩

theorem splitLabel_fst (line : String) :
    (splitLabel line).1 = .ofList (Text.cutChars ' ' (Text.trimLeft line.toList)).1 := by
  rw [splitLabel, Text.cut, Text.trimStart, String.toList_ofList]

/-- Both labels are one where a space follows the first word, or nothing. -/
theorem splitLabel_fst_eq_iff (line : String) :
    (splitLabel line).1 = Text.firstWord line ↔ ∀ c ∈ (Text.behindWord line).head?, c = ' ' := by
  rw [splitLabel_fst, Text.firstWord, String.ofList_inj, Text.behindWord]
  rcases cutChars_fst_cases (Text.trimLeft line.toList) with ⟨same, space⟩ | ⟨⟨c, hc, blank⟩, other⟩
  · exact iff_of_true same space
  · obtain ⟨d, hd, ne⟩ := other
    refine iff_of_false (fun same => ?_) fun space => ne (space d hd)
    rw [same] at hc
    have solid := List.all_eq_true.1 List.all_takeWhile c hc
    simp [blank] at solid

theorem exists_blank_of_ne {line : String} (ne : (splitLabel line).1 ≠ Text.firstWord line) :
    ∃ c ∈ (splitLabel line).1.toList, Text.isBlank c = true := by
  rw [splitLabel_fst, String.toList_ofList]
  rw [splitLabel_fst, Text.firstWord, ne_eq, String.ofList_inj] at ne
  exact ((cutChars_fst_cases _).resolve_left fun h => ne h.1).1

namespace Console

open Portal

/-! ## One line -/

/-- A line is answered: its first word is refused, or a command is found for it and replies. -/
inductive Answered (r : Registry Session) (s : Session) (line : String) : Prop
  | refused (unknown : r.get? (Text.firstWord line) = none)
      (printed : (answer r s line).1 = ["Unknown command: " ++ Text.firstWord line])
  | replied {done : Dispatched Session} {messages : List String}
      (dispatched : r.dispatch s line [] = some done) (nonempty : messages ≠ [])
      (replies : done.context.env.replies = s.replies ++ messages)
      (printed : (answer r s line).1 = messages)

/-- A line that is no request for completions and not blank. -/
structure Spoken (line : String) : Prop where
  unasked : line.toList.head? ≠ some '?'
  worded : line.toList.all Text.isBlank = false

variable {r : Registry Session} {s : Session} {line : String}

theorem answer_of_spoken (r : Registry Session) (s : Session) (spoken : Spoken line) :
    answer r s line =
      if (r.get? (Text.firstWord line)).isSome then
        ((r.execute s line).2.2.replies, (r.execute s line).2.2.shown)
      else (["Unknown command: " ++ Text.firstWord line], s) := by
  unfold answer
  split
  · rename_i asked
    exact absurd (by rw [asked]; rfl) spoken.unasked
  · simp only [spoken.worded, Bool.false_eq_true, if_false]
    cases r.get? (Text.firstWord line) with
    | none => rfl
    | some c =>
      obtain ⟨_, _, s'⟩ := r.execute s line
      rfl

theorem answer_of_unknown (spoken : Spoken line) (unknown : r.get? (Text.firstWord line) = none) :
    answer r s line = (["Unknown command: " ++ Text.firstWord line], s) := by
  rw [answer_of_spoken r s spoken, if_neg (by simp [unknown])]

theorem answer_of_known (spoken : Spoken line)
    (known : (r.get? (Text.firstWord line)).isSome = true) :
    answer r s line = ((r.execute s line).2.2.replies, (r.execute s line).2.2.shown) := by
  rw [answer_of_spoken r s spoken, if_pos known]

/-- A line leaves the session as it was, or is executed, and what it replied is shown. -/
theorem answer_snd_cases (r : Registry Session) (s : Session) (line : String) :
    (answer r s line).2 = s ∨ (answer r s line).2 = (r.execute s line).2.2.shown := by
  unfold answer
  split
  · exact .inl rfl
  · split
    · exact .inl rfl
    · dsimp only
      split
      · exact .inl rfl
      · exact .inr rfl

/-- No reply waits to be printed once a line has been answered. -/
theorem answer_replies (r : Registry Session) (quiet : s.replies = []) (line : String) :
    (answer r s line).2.replies = [] := by
  rcases answer_snd_cases r s line with same | executed
  · rw [same]
    exact quiet
  · rw [executed]
    rfl

/-- A line that ends well has been dispatched. -/
theorem dispatch_of_execute {log : List LogEntry} {s' : Session}
    (executed : r.execute s line = (true, log, s')) :
    ∃ done, r.dispatch s line [] = some done ∧ done.context.env = s' := by
  unfold Registry.execute at executed
  split at executed
  · simp at executed
  · rename_i done dispatched
    refine ⟨done, dispatched, ?_⟩
    split at executed
    · exact congrArg (·.2.2) executed
    · simp at executed

/-! ## One line of the console -/

/-- A line whose first word is a label, the same that the registry cuts off, is answered by a
command. -/
theorem answered_of_label (settings : Settings) (quiet : s.replies = []) (spoken : Spoken line)
    (known : Text.lower (Text.firstWord line) ∈ commandLabels)
    (same : (splitLabel line).1 = Text.firstWord line) :
    Answered (registry settings) s line := by
  obtain ⟨log, s', executed, -, serves⟩ := served_execute settings s (same ▸ known)
  obtain ⟨done, dispatched, env⟩ := dispatch_of_execute executed
  obtain ⟨messages, nonempty, replies⟩ := serves.replies
  refine .replied dispatched nonempty (env ▸ replies) ?_
  have found : ((registry settings).get? (Text.firstWord line)).isSome = true := by
    rw [registry, get?_register, if_pos known]
    rfl
  rw [answer_of_known spoken found, registry, executed, replies, quiet, List.nil_append]

theorem not_mem_commandLabels {label : String}
    (blank : ∃ c ∈ label.toList, Text.isBlank c = true) : Text.lower label ∉ commandLabels := by
  obtain ⟨c, hc, blank⟩ := blank
  have solid : (commandLabels.all fun known =>
      known.toList.all fun d => !Text.isBlank d) = true := by decide
  intro known
  have unblank := List.all_eq_true.1 (List.all_eq_true.1 solid _ known) c
    (Text.mem_lower_of_isBlank blank hc)
  simp [blank] at unblank

/-- A line whose first word is a label, but not the one that the registry cuts off, does nothing
and prints nothing. -/
theorem answer_of_split (settings : Settings) (quiet : s.replies = []) (spoken : Spoken line)
    (known : Text.lower (Text.firstWord line) ∈ commandLabels)
    (other : (splitLabel line).1 ≠ Text.firstWord line) :
    (registry settings).dispatch s line [] = none ∧
      answer (registry settings) s line = ([], s) := by
  have unknown := not_mem_commandLabels (exists_blank_of_ne other)
  have found : ((registry settings).get? (Text.firstWord line)).isSome = true := by
    rw [registry, get?_register, if_pos known]
    rfl
  have shown : s.shown = s := by
    rw [Session.shown, ← quiet]
  refine ⟨?_, ?_⟩
  · simp only [Registry.dispatch, registry, get?_register, if_neg unknown, Option.map_none]
  · rw [answer_of_known spoken found, registry, execute_of_unknown settings s unknown, shown, quiet]

/-- Which lines are answered; any other one does nothing. -/
theorem answered_iff (settings : Settings) (quiet : s.replies = []) (spoken : Spoken line) :
    (Answered (registry settings) s line ↔
      (registry settings).get? (Text.firstWord line) = none ∨
        (splitLabel line).1 = Text.firstWord line) ∧
      (¬ Answered (registry settings) s line →
        (registry settings).dispatch s line [] = none ∧
          answer (registry settings) s line = ([], s)) := by
  by_cases known : Text.lower (Text.firstWord line) ∈ commandLabels
  · have found : (registry settings).get? (Text.firstWord line) ≠ none := by
      simp [registry, get?_register, known]
    by_cases same : (splitLabel line).1 = Text.firstWord line
    · have answered := answered_of_label settings quiet spoken known same
      exact ⟨iff_of_true answered (.inr same), fun not => absurd answered not⟩
    · obtain ⟨undispatched, nothing⟩ := answer_of_split settings quiet spoken known same
      refine ⟨iff_of_false (fun answered => ?_) (not_or.2 ⟨found, same⟩),
        fun _ => ⟨undispatched, nothing⟩⟩
      cases answered with
      | refused unknown _ => exact found unknown
      | replied dispatched _ _ _ => simp [undispatched] at dispatched
  · have unknown : (registry settings).get? (Text.firstWord line) = none := by
      rw [registry, get?_register, if_neg known]
    have answered : Answered (registry settings) s line :=
      .refused unknown (by rw [answer_of_unknown spoken unknown])
    exact ⟨iff_of_true answered (.inl unknown), fun not => absurd answered not⟩

/-! ## Runs -/

/-- The session after several lines of input. -/
def heard (r : Registry Session) (s : Session) (lines : List String) : Session :=
  lines.foldl (fun s line => (answer r s line).2) s

theorem answers_cons (r : Registry Session) (s : Session) (line : String) (rest : List String) :
    answers r s (line :: rest) = (answer r s line).1 ++ answers r (answer r s line).2 rest := rfl

/-- What is printed for a line stands between what is printed for the lines around it. -/
theorem answers_append (r : Registry Session) (s : Session) (before after : List String) :
    answers r s (before ++ after) = answers r s before ++ answers r (heard r s before) after := by
  induction before generalizing s with
  | nil => rfl
  | cons line rest ih =>
    rw [List.cons_append, answers_cons, answers_cons, ih, List.append_assoc]
    rfl

theorem heard_replies (r : Registry Session) (quiet : s.replies = []) (lines : List String) :
    (heard r s lines).replies = [] := by
  induction lines generalizing s with
  | nil => exact quiet
  | cons line rest ih => exact ih (answer_replies r quiet line)

theorem continues_answer (settings : Settings) (s : Session) (line : String) :
    Portal.Continues s (answer (registry settings) s line).2 := by
  rcases answer_snd_cases (registry settings) s line with same | executed
  · rw [same]
    exact .refl s
  · rw [executed, registry]
    exact (continues_execute settings s line).trans (continues_shown _)

theorem continues_heard (settings : Settings) (s : Session) (lines : List String) :
    Portal.Continues s (heard (registry settings) s lines) := by
  induction lines generalizing s with
  | nil => exact .refl s
  | cons line rest ih => exact (continues_answer settings s line).trans (ih _)

theorem run_eq {args : List String} {o : Options} {placeOf : String → Settings.Place}
    {settings : Settings} (asked : parse args = .run o)
    (loaded : (Console.settings o placeOf).1 = .ok settings) (input : String) :
    (run args placeOf input).printed =
      answers (registry settings) (session o) (linesOf input) := by
  cases hs : Console.settings o placeOf with
  | mk found place =>
    obtain rfl : found = .ok settings := (congrArg Prod.fst hs).symm.trans loaded
    simp only [run, asked, hs]

/-- **Which lines of a run are answered.**  For all options, settings and input, each line that is
not blank and begins with no question mark has its own stretch of what is printed, and this is what
a run with such options and settings prints.  The line is answered, the word refused or a command
found that replies, exactly when its first word is no label or the registry cuts off the same label:
when a space follows the first word, or nothing.  Any other line is dispatched to nobody, prints
nothing and changes nothing. -/
theorem line_answered_iff (o : Options) (settings : Settings) {input : String}
    {before after : List String} {line : String}
    (lines : linesOf input = before ++ line :: after) (spoken : Spoken line) :
    let r := registry settings
    let s := heard r (session o) before
    answers r (session o) (linesOf input) =
        answers r (session o) before ++ (answer r s line).1 ++
          answers r (answer r s line).2 after ∧
      (∀ args placeOf, parse args = .run o → (Console.settings o placeOf).1 = .ok settings →
        (run args placeOf input).printed = answers r (session o) (linesOf input)) ∧
      (Answered r s line ↔
        r.get? (Text.firstWord line) = none ∨ ∀ c ∈ (Text.behindWord line).head?, c = ' ') ∧
      (¬ Answered r s line → r.dispatch s line [] = none ∧ answer r s line = ([], s)) := by
  intro r s
  have quiet : s.replies = [] := heard_replies r rfl before
  obtain ⟨iff, swallowed⟩ := answered_iff settings quiet spoken
  refine ⟨?_, fun args placeOf asked loaded => run_eq asked loaded input, ?_, swallowed⟩
  · rw [lines, answers_append, answers_cons, List.append_assoc]
  · rw [← splitLabel_fst_eq_iff]
    exact iff

/-- Three lines typed by a player, of which the second is a label in capitals behind a tab. -/
theorem line_answered_steve :
    (run ["--player", "Steve"] (fun _ => .unreachable) "hello\n\tPN give\nsay hi\n").printed =
        answers (registry {}) (session { player := some "Steve" }) ["hello"] ++
          ["Giving Steve a nether portal block."] ++ ["Unknown command: say"] ∧
      Answered (registry {}) (heard (registry {}) (session { player := some "Steve" }) ["hello"])
        "\tPN give" := by
  obtain ⟨stretch, printed, iff, -⟩ := @line_answered_iff { player := some "Steve" } {}
    "hello\n\tPN give\nsay hi\n" ["hello"] ["say hi"] "\tPN give" (by decide)
    ⟨by decide, by decide⟩
  have behind : Text.behindWord "\tPN give" = " give".toList := by decide
  have printed := printed ["--player", "Steve"] (fun _ => .unreachable) (by decide) rfl
  refine ⟨(printed.trans stretch).trans (by decide +kernel), iff.2 (.inr ?_)⟩
  simp [behind]

/-- A tab behind the label: the console knows the word, the registry knows no such label, and
nothing is printed or done. -/
theorem line_swallowed :
    linesOf "pn\treload\n" = ["pn\treload"] ∧ Spoken "pn\treload" ∧
      ((registry {}).get? (Text.firstWord "pn\treload")).isSome = true ∧
      (registry {}).dispatch (session {}) "pn\treload" [] = none ∧
      ¬ Answered (registry {}) (session {}) "pn\treload" ∧
      (run [] (fun _ => .unreachable) "pn\treload\n").printed = [] := by
  have spoken : Spoken "pn\treload" := ⟨by decide, by decide⟩
  have known : ((registry {}).get? (Text.firstWord "pn\treload")).isSome = true := by
    decide
  obtain ⟨undispatched, nothing⟩ := answer_of_split {} (s := session {}) rfl spoken
    (by decide) (by decide)
  refine ⟨by decide, spoken, known, undispatched, fun answered => ?_, by decide⟩
  cases answered with
  | refused unknown _ => simp [unknown] at known
  | replied dispatched _ _ _ => simp [undispatched] at dispatched

end Console

end CommandTree
