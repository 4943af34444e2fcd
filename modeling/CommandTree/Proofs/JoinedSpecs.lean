import CommandTree.Proofs.CanonicalSegments
import CommandTree.Proofs.Drafts

/-!
# Specs behind one another

A spec can be put together from others.  Two texts with a space between them are read as one after
the other, if the first leaves the reader between two segments: behind a closed list of parameters,
in a name that is not blank, or with no alternative of the next segment read (`Draft.Apart`).  A
list of parameters that is still open takes in what follows, and behind a comma what follows is
one more alternative.

To speak of the state in which the first text leaves the reader, the text is read in one pass
(`readOn`), which begins a fresh draft behind each segment and ends with a draft of its own.

A draft that has no more than blanks of a first name is not quite a fresh one: the blanks stay in
front of the name that follows, where they are trimmed off (`Draft.padded`).

Results:
* `all_eq`: the one pass gives the segments of the text.
* `listed_padded`: blanks in front of a name change no segment.
* `parse_join`: which texts can be read apart from what follows them.
-/
namespace CommandTree.Segment

/-! ## One pass -/

/-- Reads a whole text, with a fresh draft behind each segment; also gives the last draft. -/
def readOn (d : Draft) : List Char → List Segment × Draft
  | [] => ([], d)
  | c :: cs =>
    match d.feed c with
    | .more d' => readOn d' cs
    | .done segment => (segment :: (readOn {} cs).1, (readOn {} cs).2)

/-- The segment that a draft gives where the text ends, if any. -/
def Draft.ending (d : Draft) : List Segment := if d.finish = [] then [] else [d.finish]

/-- The segments that a text adds to a draft. -/
def listed (d : Draft) (cs : List Char) : List Segment := (readOn d cs).1 ++ (readOn d cs).2.ending

/-- The draft in which a text leaves the reader. -/
def leftover (cs : List Char) : Draft := (readOn {} cs).2

theorem listed_nil (d : Draft) : listed d [] = d.ending := rfl

theorem listed_of_more {d d' : Draft} {c : Char} (step : d.feed c = .more d') (cs : List Char) :
    listed d (c :: cs) = listed d' cs := by
  unfold listed
  simp only [readOn, step]

theorem listed_of_done {d : Draft} {c : Char} {segment : Segment}
    (step : d.feed c = .done segment) (cs : List Char) :
    listed d (c :: cs) = segment :: listed {} cs := by
  unfold listed
  simp only [readOn, step, List.cons_append]

theorem listed_append (d : Draft) (cs rest : List Char) :
    listed d (cs ++ rest) = (readOn d cs).1 ++ listed (readOn d cs).2 rest := by
  induction cs generalizing d with
  | nil => rfl
  | cons c cs ih =>
    cases step : d.feed c with
    | more d' =>
      rw [List.cons_append, listed_of_more step, ih]
      simp only [readOn, step]
    | done segment =>
      rw [List.cons_append, listed_of_done step, ih]
      simp only [readOn, step, List.cons_append]

theorem readOn_keeps {P : Draft → Prop} (initial : P {})
    (feed : ∀ d c d', P d → d.feed c = .more d' → P d') {d : Draft} (h : P d) (cs : List Char) :
    P (readOn d cs).2 := by
  induction cs generalizing d with
  | nil => exact h
  | cons c cs ih =>
    unfold readOn
    split
    · rename_i step
      exact ih (feed d c _ h step)
    · exact ih initial

theorem Draft.Sound.of_feed {d d' : Draft} (h : d.Sound) {c : Char} (step : d.feed c = .more d') :
    d'.Sound := by
  have after := h.feed c
  rw [step] at after
  cases after with
  | more sound => exact sound

theorem leftover_sound (cs : List Char) : (leftover cs).Sound :=
  readOn_keeps .initial (fun _ _ _ h step => h.of_feed step) .initial cs

theorem listed_eq_readFrom {d : Draft} (h : d.Sound) (cs : List Char) :
    listed d cs =
      if (readFrom d cs).1 = [] then [] else (readFrom d cs).1 :: all (readFrom d cs).2 := by
  induction cs generalizing d with
  | nil => simp [listed_nil, Draft.ending, readFrom, all]
  | cons c cs ih =>
    have after := h.feed c
    cases step : d.feed c with
    | more d' =>
      rw [listed_of_more step, readFrom_of_more step, ih (h.of_feed step)]
    | done segment =>
      rw [step] at after
      cases after with
      | done canonical =>
        have rest : listed {} cs = all cs := (ih .initial).trans (all_eq_read cs).symm
        rw [listed_of_done step, readFrom_of_done step, rest, if_neg canonical.nonempty]

/-- One pass over a text gives its segments. -/
theorem all_eq (cs : List Char) : all cs = listed {} cs :=
  (all_eq_read cs).trans (listed_eq_readFrom .initial cs).symm

theorem all_eq_leftover (cs : List Char) : all cs = (readOn {} cs).1 ++ (leftover cs).ending :=
  all_eq cs

theorem all_append (cs rest : List Char) :
    all (cs ++ rest) = (readOn {} cs).1 ++ listed (leftover cs) rest :=
  (all_eq _).trans (listed_append {} cs rest)

/-! ## Blanks in front of a name -/

/-- The draft with blanks in front of its name. -/
def Draft.padded (d : Draft) (blanks : List Char) : Draft := { d with name := blanks ++ d.name }

def Step.padded (blanks : List Char) : Step → Step
  | .more d => .more (d.padded blanks)
  | .done segment => .done segment

section Padded

variable {blanks : List Char} (blank : ∀ c ∈ blanks, Text.isBlank c = true)

include blank

theorem isBlankRun_append (cs : List Char) : isBlankRun (blanks ++ cs) = isBlankRun cs := by
  rw [Bool.eq_iff_iff, isBlankRun_iff, isBlankRun_iff, trimmed_append blank]

theorem Draft.addBare_padded (d : Draft) :
    (d.padded blanks).addBare = d.addBare.padded blanks := by
  unfold Draft.addBare Draft.padded
  simp only [isBlankRun_append blank, trimmed_append blank]
  split <;> rfl

theorem Draft.close_padded (d : Draft) : (d.padded blanks).close = d.close.padded blanks := by
  simp only [Draft.close, Draft.padded, trimmed_append blank]

omit blank in
theorem Draft.setBareKey_padded (d : Draft) :
    (d.padded blanks).setBareKey = d.setBareKey.padded blanks := by
  unfold Draft.setBareKey Draft.padded
  split <;> rfl

/-- Blanks in front of a name stay there, and end with it at a comma. -/
theorem Draft.Feeds.padded {d : Draft} {c : Char} {s : Step} (fed : d.Feeds c s) :
    ∃ rest, (∀ c ∈ rest, Text.isBlank c = true) ∧ (d.padded blanks).Feeds c (s.padded rest) := by
  have name {b : Bool} (h : isBlankRun d.name = b) : isBlankRun (d.padded blanks).name = b :=
    (isBlankRun_append blank _).trans h
  -- Where the name stays, the outcome is the one behind the blanks.
  have stays {s' : Step} (fed' : (d.padded blanks).Feeds c s') (same : s' = s.padded blanks) :
      ∃ rest, (∀ c ∈ rest, Text.isBlank c = true) ∧ (d.padded blanks).Feeds c (s.padded rest) :=
    ⟨blanks, blank, same ▸ fed'⟩
  cases fed with
  | sibling phase comma =>
    have fed' : (d.padded blanks).Feeds c (.more { (d.padded blanks).addBare with name := [] }) :=
      .sibling phase comma
    rw [d.addBare_padded blank] at fed'
    exact ⟨[], by simp, fed'⟩
  | lead phase space run => exact stays (.lead phase space (name run)) rfl
  | word phase space run =>
    exact stays (.word phase space (name run)) (by rw [d.addBare_padded blank]; rfl)
  | opens phase paren => exact stays (.opens phase paren) rfl
  | inName phase other =>
    exact stays (.inName phase other) (by simp [Step.padded, Draft.padded])
  | equals phase equals => exact stays (.equals phase equals) rfl
  | bareKey phase comma =>
    exact stays (.bareKey phase comma) (congrArg Step.more d.setBareKey_padded)
  | bareKeyCloses phase paren =>
    exact stays (.bareKeyCloses phase paren)
      (by rw [d.setBareKey_padded, d.setBareKey.close_padded blank]; rfl)
  | inKey phase other => exact stays (.inKey phase other) rfl
  | param phase comma => exact stays (.param phase comma) rfl
  | paramCloses phase paren =>
    exact stays (.paramCloses phase paren)
      (congrArg Step.more (d.setParam.close_padded blank))
  | quote phase quote run => exact stays (.quote phase quote run) rfl
  | stray phase quote run => exact stays (.stray phase quote run) rfl
  | inValue phase other => exact stays (.inValue phase other) rfl
  | escape phase backslash => exact stays (.escape phase backslash) rfl
  | unquote phase straight quote => exact stays (.unquote phase straight quote) rfl
  | inQuotes phase other => exact stays (.inQuotes phase other) rfl
  | escaped phase => exact stays (.escaped phase) rfl
  | nextKey phase comma => exact stays (.nextKey phase comma) rfl
  | closes phase paren =>
    exact stays (.closes phase paren) (congrArg Step.more (d.close_padded blank))
  | behindQuotes phase other => exact stays (.behindQuotes phase other) rfl
  | list phase space => exact stays (.list phase space) rfl
  | behindList phase other => exact stays (.behindList phase other) rfl

theorem Draft.feed_padded (d : Draft) (c : Char) :
    ∃ rest, (∀ c ∈ rest, Text.isBlank c = true) ∧
      (d.padded blanks).feed c = (d.feed c).padded rest := by
  obtain ⟨rest, blank', fed⟩ := (d.feeds c).padded blank
  exact ⟨rest, blank', fed.feed_eq⟩

theorem Draft.ending_padded (d : Draft) : (d.padded blanks).ending = d.ending := by
  have finish : (d.padded blanks).finish = d.finish := by
    unfold Draft.finish
    rw [d.addBare_padded blank]
    rfl
  unfold Draft.ending
  rw [finish]

/-- Blanks in front of a name change no segment. -/
theorem listed_padded (d : Draft) (cs : List Char) : listed (d.padded blanks) cs = listed d cs := by
  induction cs generalizing d blanks with
  | nil => exact d.ending_padded blank
  | cons c cs ih =>
    obtain ⟨rest, blank', step'⟩ := d.feed_padded blank c
    cases step : d.feed c with
    | more d' =>
      rw [step] at step'
      rw [listed_of_more step', listed_of_more step, ih blank']
    | done segment =>
      rw [step] at step'
      rw [listed_of_done step', listed_of_done step]

end Padded

/-! ## Between two segments -/

/-- A draft that a space ends: behind a list of parameters, in a name that is not blank, or with no
alternative read. -/
def Draft.Apart (d : Draft) : Prop :=
  d.phase = .closed ∨ d.phase = .name ∧ (isBlankRun d.name = false ∨ d.segment = [])

instance : DecidablePred Draft.Apart := fun _ => inferInstanceAs (Decidable (_ ∨ _ ∧ (_ ∨ _)))

/-- No character leads from a list of parameters back into a name. -/
theorem Draft.phase_ne_name {d d' : Draft} {c : Char} (phase : d.phase ≠ .name)
    (step : d.feed c = .more d') : d'.phase ≠ .name := by
  have fed : d.Feeds c (.more d') := step ▸ d.feeds c
  cases fed with
  | lead here | opens here | sibling here | inName here => exact absurd here phase
  | bareKey | stray | behindQuotes | behindList => simpa using phase
  | _ => simp [Draft.close]

/-- In a name, nothing has been read of a list of parameters. -/
def Draft.Unlisted (d : Draft) : Prop :=
  d.phase = .name → d = { segment := d.segment, name := d.name }

theorem Draft.Unlisted.feed {d d' : Draft} (h : d.Unlisted) {c : Char}
    (step : d.feed c = .more d') : d'.Unlisted := by
  intro after
  have phase : d.phase = .name := by
    by_contra other
    exact Draft.phase_ne_name other step after
  have fed : d.Feeds c (.more d') := step ▸ d.feeds c
  cases fed with
  | lead => exact h phase
  | sibling =>
    rw [h phase]
    unfold Draft.addBare
    split <;> rfl
  | inName => rw [h phase]
  | _ => simp_all

theorem leftover_unlisted (cs : List Char) : (leftover cs).Unlisted :=
  readOn_keeps (fun _ => rfl) (fun _ _ _ h step => h.feed step) (fun _ => rfl) cs

/-- A space behind a draft that is apart ends its segment, if it has one. -/
theorem Draft.Apart.listed_space {d : Draft} (h : d.Apart) (sound : d.Sound)
    (unlisted : d.Unlisted) (cs : List Char) :
    listed d (' ' :: cs) = d.ending ++ listed {} cs := by
  have ended {segment : Segment} (step : d.feed ' ' = .done segment) (finish : d.finish = segment)
      (nonempty : segment ≠ []) : listed d (' ' :: cs) = d.ending ++ listed {} cs := by
    rw [listed_of_done step, Draft.ending, finish, if_neg nonempty, List.singleton_append]
  rcases sound with ⟨phase, gathering⟩ | ⟨phase, canonical⟩
  · obtain ⟨here, name⟩ := h.resolve_left phase
    cases blank : isBlankRun d.name with
    | false =>
      have finish : d.finish = d.addBare.segment := by rw [Draft.finish, if_pos here]
      refine ended ?_ finish (gathering.addBare_segment blank).nonempty
      simp only [Draft.feed, here, blank, if_true, if_neg Bool.false_ne_true]
    | true =>
      have nothing : d.segment = [] := name.resolve_left (by simp [blank])
      have ending : d.ending = [] := by
        simp [Draft.ending, Draft.finish, here, Draft.addBare, blank, nothing]
      have blanks : ∀ c ∈ d.name, Text.isBlank c = true := by
        rwa [isBlankRun, List.isEmpty_iff, Text.trimChars_nil_iff, List.all_eq_true] at blank
      have fresh : d = Draft.padded {} d.name := by
        rw [unlisted here, nothing]
        simp [Draft.padded]
      have step : d.feed ' ' = .more d := by simp only [Draft.feed, here, blank, if_true]
      rw [listed_of_more step, ending, List.nil_append]
      conv => enter [1, 1]; rw [fresh]
      exact listed_padded blanks {} cs
  · refine ended ?_ ?_ canonical.nonempty
    · simp only [Draft.feed, phase, if_true]
    · rw [Draft.finish, phase, if_neg (by decide)]

/-- Inside a list of parameters. -/
structure Draft.Inside (d : Draft) : Prop where
  name : d.phase ≠ .name
  closed : d.phase ≠ .closed

theorem Draft.setBareKey_segment (d : Draft) : d.setBareKey.segment = d.segment := by
  unfold Draft.setBareKey
  split <;> rfl

theorem Draft.Inside.feed {d : Draft} (h : d.Inside) {c : Char} (paren : c ≠ ')') :
    ∃ d', d.feed c = .more d' ∧ d'.Inside ∧ d'.segment = d.segment := by
  have step := d.feeds c
  generalize d.feed c = s at step ⊢
  cases step with
  | lead here | word here | opens here | sibling here | inName here => exact absurd here h.name
  | list here | behindList here => exact absurd here h.closed
  | bareKeyCloses _ closing | paramCloses _ closing | closes _ closing => exact absurd closing paren
  | stray | behindQuotes => exact ⟨d, rfl, h, rfl⟩
  | bareKey here =>
    exact ⟨_, rfl, ⟨by simp [here], by simp [here]⟩, d.setBareKey_segment⟩
  | equals | inKey | param | quote | inValue | escape | unquote | inQuotes | escaped | nextKey =>
    exact ⟨_, rfl, ⟨by simp, by simp⟩, rfl⟩

theorem Draft.length_ending_le (d : Draft) : d.ending.length ≤ 1 := by
  unfold Draft.ending
  split <;> simp

/-- Behind a draft that is not apart, a further word is no segment of its own. -/
theorem Draft.length_listed_of_not_apart {d : Draft} (h : ¬d.Apart) :
    (listed d [' ', 'x']).length ≤ d.ending.length := by
  by_cases name : d.phase = .name
  · have blank : isBlankRun d.name = true := by
      by_contra word
      exact h (.inr ⟨name, .inl (by simpa using word)⟩)
    have nonempty : d.segment ≠ [] := fun none => h (.inr ⟨name, .inr none⟩)
    have one : d.ending.length = 1 := by
      simp [Draft.ending, Draft.finish, name, Draft.addBare, blank, nonempty]
    have space : d.feed ' ' = .more d := by simp only [Draft.feed, name, blank, if_true]
    have letter : d.feed 'x' = .more { d with name := d.name ++ ['x'] } := by
      simp [Draft.feed, name]
    rw [listed_of_more space, listed_of_more letter, listed_nil, one]
    exact Draft.length_ending_le _
  · have inside : d.Inside := ⟨name, fun closed => h (.inl closed)⟩
    obtain ⟨d₁, space, inside₁, segment₁⟩ := inside.feed (c := ' ') (by decide)
    obtain ⟨d₂, letter, inside₂, segment₂⟩ := inside₁.feed (c := 'x') (by decide)
    have finish {e : Draft} (he : e.Inside) : e.finish = e.segment := if_neg he.name
    have same : d₂.ending = d.ending := by
      unfold Draft.ending
      rw [finish inside, finish inside₂, segment₂, segment₁]
    simp only [listed_of_more space, listed_of_more letter, listed_nil, same, Nat.le_refl]

/-- **Specs can be joined with a space exactly where the first is between two segments.**  The
segments of a text and what follows it are those of both parts, with the same parameters in the same
order, whatever follows, if and only if the text ends behind a list of parameters, in a name that is
not blank, or before the first alternative of a segment. -/
theorem parse_join (spec : String) :
    (leftover spec.toList).Apart ↔
      ∀ rest, parse (spec ++ " " ++ rest) = parse spec ++ parse rest := by
  have joined (rest : String) : parse (spec ++ " " ++ rest) =
      (readOn {} spec.toList).1 ++ listed (leftover spec.toList) (' ' :: rest.toList) := by
    rw [parse, String.toList_append, String.toList_append, List.append_assoc, all_append]
    rfl
  have parted (rest : String) : parse spec ++ parse rest = (readOn {} spec.toList).1 ++
      ((leftover spec.toList).ending ++ listed {} rest.toList) := by
    rw [parse, parse, all_eq_leftover, all_eq rest.toList, List.append_assoc]
  constructor
  · intro apart rest
    rw [joined, parted, apart.listed_space (leftover_sound _) (leftover_unlisted _)]
  · intro joins
    by_contra apart
    have lost : (listed (leftover spec.toList) (' ' :: "x".toList)).length ≤ _ :=
      Draft.length_listed_of_not_apart apart
    have kept := joins "x"
    rw [joined, parted] at kept
    have lengths := congrArg List.length (List.append_cancel_left kept)
    have word : listed {} "x".toList = [[⟨"x", {}⟩]] := by rfl
    rw [word, List.length_append, List.length_singleton] at lengths
    omega

/-- Behind a list and in a name a text ends its segments; in a list, and behind a comma, it does
not. -/
example : (leftover "a,b(x=1)junk".toList).Apart ∧ (leftover " a b,c".toList).Apart ∧
    ¬(leftover "a(x=1".toList).Apart ∧ ¬(leftover "a, ".toList).Apart := by decide

end CommandTree.Segment
