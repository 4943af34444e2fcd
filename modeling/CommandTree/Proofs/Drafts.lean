import CommandTree.Segment

/-!
# What one character does to a draft

The reader of specs takes one character at a time.  All that a character can do to a draft is listed
once, phase by phase (`Draft.Feeds`), with the condition under which it does so.  What every
character keeps is then a case for each entry of the list, and the branches of `Draft.feed` are
opened nowhere else for it.

Results:
* `Draft.feeds`: what a character does stands on the list.
* `Draft.Feeds.feed_eq`: nothing else stands there.
-/
namespace CommandTree.Segment

/-- The outcomes of one character. -/
inductive Draft.Feeds (d : Draft) (c : Char) : Step → Prop
  /-- A space in front of a name. -/
  | lead (phase : d.phase = .name) (space : c = ' ') (blank : isBlankRun d.name = true) :
      Feeds d c (.more d)
  /-- A space behind a name ends the segment. -/
  | word (phase : d.phase = .name) (space : c = ' ') (name : isBlankRun d.name = false) :
      Feeds d c (.done d.addBare.segment)
  | opens (phase : d.phase = .name) (paren : c = '(') :
      Feeds d c (.more { d with phase := .key, params := {}, key := [] })
  | sibling (phase : d.phase = .name) (comma : c = ',') :
      Feeds d c (.more { d.addBare with name := [] })
  | inName (phase : d.phase = .name) (other : c ≠ ' ' ∧ c ≠ '(' ∧ c ≠ ',') :
      Feeds d c (.more { d with phase := .name, name := d.name ++ [c] })
  | equals (phase : d.phase = .key) (equals : c = '=') :
      Feeds d c (.more { d with phase := .value, value := [] })
  | bareKey (phase : d.phase = .key) (comma : c = ',') : Feeds d c (.more d.setBareKey)
  | bareKeyCloses (phase : d.phase = .key) (paren : c = ')') : Feeds d c (.more d.setBareKey.close)
  | inKey (phase : d.phase = .key) (other : c ≠ '=' ∧ c ≠ ',' ∧ c ≠ ')') :
      Feeds d c (.more { d with phase := .key, key := d.key ++ [c] })
  | param (phase : d.phase = .value) (comma : c = ',') :
      Feeds d c (.more { d.setParam with phase := .key })
  | paramCloses (phase : d.phase = .value) (paren : c = ')') : Feeds d c (.more d.setParam.close)
  /-- A quote in front of a value. -/
  | quote (phase : d.phase = .value) (quote : c = '"' ∨ c = '\'')
      (blank : isBlankRun d.value = true) :
      Feeds d c (.more { d with phase := .quoted c, value := [] })
  /-- A quote inside a value without quotes is dropped. -/
  | stray (phase : d.phase = .value) (quote : c = '"' ∨ c = '\'')
      (value : isBlankRun d.value = false) : Feeds d c (.more d)
  | inValue (phase : d.phase = .value) (other : c ≠ ',' ∧ c ≠ ')' ∧ c ≠ '"' ∧ c ≠ '\'') :
      Feeds d c (.more { d with phase := .value, value := d.value ++ [c] })
  | escape {q : Char} (phase : d.phase = .quoted q) (backslash : c = '\\') :
      Feeds d c (.more { d with phase := .escaped q, value := d.value ++ [c] })
  | unquote {q : Char} (phase : d.phase = .quoted q) (straight : c ≠ '\\') (quote : c = q) :
      Feeds d c (.more { d.setParam with phase := .afterQuotes })
  | inQuotes {q : Char} (phase : d.phase = .quoted q) (other : c ≠ '\\' ∧ c ≠ q) :
      Feeds d c (.more { d with phase := .quoted q, value := d.value ++ [c] })
  | escaped {q : Char} (phase : d.phase = .escaped q) :
      Feeds d c (.more { d with phase := .quoted q, value := d.value ++ [c] })
  | nextKey (phase : d.phase = .afterQuotes) (comma : c = ',') :
      Feeds d c (.more { d with phase := .key })
  | closes (phase : d.phase = .afterQuotes) (paren : c = ')') : Feeds d c (.more d.close)
  /-- What stands between a closing quote and the end of its parameter is dropped. -/
  | behindQuotes (phase : d.phase = .afterQuotes) (other : c ≠ ',' ∧ c ≠ ')') :
      Feeds d c (.more d)
  /-- A space behind a list of parameters ends the segment. -/
  | list (phase : d.phase = .closed) (space : c = ' ') : Feeds d c (.done d.segment)
  /-- What stands between a list of parameters and the next space is dropped. -/
  | behindList (phase : d.phase = .closed) (other : c ≠ ' ') : Feeds d c (.more d)

theorem Draft.feeds (d : Draft) (c : Char) : d.Feeds c (d.feed c) := by
  unfold Draft.feed
  cases phase : d.phase with
  | name =>
    simp only
    split
    · cases name : isBlankRun d.name with
      | true => exact .lead phase ‹_› name
      | false => exact .word phase ‹_› name
    · split
      · exact .opens phase ‹_›
      · split
        · exact .sibling phase ‹_›
        · exact .inName phase ⟨‹_›, ‹_›, ‹_›⟩
  | key =>
    simp only
    split
    · exact .equals phase ‹_›
    · split
      · exact .bareKey phase ‹_›
      · split
        · exact .bareKeyCloses phase ‹_›
        · exact .inKey phase ⟨‹_›, ‹_›, ‹_›⟩
  | value =>
    simp only
    split
    · exact .param phase ‹_›
    · split
      · exact .paramCloses phase ‹_›
      · split
        · cases value : isBlankRun d.value with
          | true => exact .quote phase ‹_› value
          | false => exact .stray phase ‹_› value
        · rename_i comma paren quote
          exact .inValue phase ⟨comma, paren, not_or.1 quote⟩
  | quoted q =>
    simp only
    split
    · exact .escape phase ‹_›
    · split
      · exact .unquote phase ‹_› ‹_›
      · exact .inQuotes phase ⟨‹_›, ‹_›⟩
  | escaped q => exact .escaped phase
  | afterQuotes =>
    simp only
    split
    · exact .nextKey phase ‹_›
    · split
      · exact .closes phase ‹_›
      · exact .behindQuotes phase ⟨‹_›, ‹_›⟩
  | closed =>
    simp only
    split
    · exact .list phase ‹_›
    · exact .behindList phase ‹_›

theorem Draft.Feeds.feed_eq {d : Draft} {c : Char} {s : Step} (fed : d.Feeds c s) :
    d.feed c = s := by
  unfold Draft.feed
  cases fed with
  | lead phase space name | word phase space name => simp [phase, space, name]
  | opens phase key | sibling phase key | equals phase key | bareKey phase key
  | bareKeyCloses phase key | param phase key | paramCloses phase key | escape phase key
  | nextKey phase key | closes phase key | list phase key => simp [phase, key]
  | inName phase other | inKey phase other | inValue phase other | inQuotes phase other
  | behindQuotes phase other | behindList phase other => simp [phase, other]
  | quote phase quote value | stray phase quote value =>
    obtain rfl | rfl := quote <;> simp [phase, value]
  | unquote phase straight quote => simp [phase, straight, ← quote]
  | escaped phase => simp [phase]

end CommandTree.Segment
