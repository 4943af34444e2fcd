import CommandTree.Descriptor
import CommandTree.Text.Blank

/-!
# Reading specs

A spec declares a path of nodes, segment by segment:
`give|g @portaltype(switch=type|t, default=NETHER) @int(min=1)`.  Segments are separated by
spaces; the alternatives of one segment by commas, of which only the last can have parameters.
A value may stand between single or double quotes, and then holds any character; a backslash in
it stays, and keeps the next character from closing the quotes.

The reader takes one character at a time into a `Draft` of the segment.  It never fails: text
that cannot be read as meant gives other nodes, or none.

Results:
* `length_read_lt`: a segment takes at least one character.
-/
namespace CommandTree

/-- The alternatives that one step of a path may take. -/
abbrev Segment := List Descriptor

namespace Segment

/-- What the next character of a segment belongs to. -/
inductive Phase
  | name
  | key
  | value
  /-- Between the quotes `quote`. -/
  | quoted (quote : Char)
  /-- Behind a backslash between the quotes `quote`. -/
  | escaped (quote : Char)
  /-- Behind the closing quote. -/
  | afterQuotes
  /-- Behind the parameters. -/
  | closed
deriving DecidableEq, Repr

/-- A segment as far as it has been read. -/
structure Draft where
  segment : Segment := []
  name : List Char := []
  key : List Char := []
  value : List Char := []
  params : Params := {}
  phase : Phase := .name

/-- The effect of one character: reading goes on, or the segment ends. -/
inductive Step
  | more (draft : Draft)
  | done (segment : Segment)

/-- The characters as a string, without blanks at either end. -/
def trimmed (cs : List Char) : String := .ofList (Text.trimChars cs)

/-- Whether a name or key has nothing but blanks. -/
def isBlankRun (cs : List Char) : Bool := (Text.trimChars cs).isEmpty

namespace Draft

def addBare (d : Draft) : Draft :=
  if isBlankRun d.name then d else { d with segment := d.segment ++ [⟨trimmed d.name, {}⟩] }

/-- Gives the key the value read, and forgets the key. -/
def setParam (d : Draft) : Draft :=
  { d with params := d.params.set (trimmed d.key) (trimmed d.value), key := [] }

/-- Gives the key the empty value, unless it is blank, and forgets the key. -/
def setBareKey (d : Draft) : Draft :=
  if isBlankRun d.key then { d with key := [] }
  else { d with params := d.params.set (trimmed d.key) "", key := [] }

def close (d : Draft) : Draft :=
  { d with
    segment := d.segment ++ [⟨trimmed d.name, d.params⟩]
    params := {}
    phase := .closed }

/-- Takes one more character. -/
def feed (d : Draft) (c : Char) : Step :=
  match d.phase with
  | .name =>
    if c = ' ' then if isBlankRun d.name then .more d else .done d.addBare.segment
    else if c = '(' then .more { d with phase := .key, params := {}, key := [] }
    else if c = ',' then .more { d.addBare with name := [] }
    else .more { d with name := d.name ++ [c] }
  | .key =>
    if c = '=' then .more { d with phase := .value, value := [] }
    else if c = ',' then .more d.setBareKey
    else if c = ')' then .more d.setBareKey.close
    else .more { d with key := d.key ++ [c] }
  | .value =>
    if c = ',' then .more { d.setParam with phase := .key }
    else if c = ')' then .more d.setParam.close
    else if c = '"' ∨ c = '\'' then
      if isBlankRun d.value then .more { d with phase := .quoted c, value := [] } else .more d
    else .more { d with value := d.value ++ [c] }
  | .quoted q =>
    if c = '\\' then .more { d with phase := .escaped q, value := d.value ++ [c] }
    else if c = q then .more { d.setParam with phase := .afterQuotes }
    else .more { d with value := d.value ++ [c] }
  | .escaped q => .more { d with phase := .quoted q, value := d.value ++ [c] }
  | .afterQuotes =>
    if c = ',' then .more { d with phase := .key }
    else if c = ')' then .more d.close
    else .more d
  | .closed => if c = ' ' then .done d.segment else .more d

def finish (d : Draft) : Segment :=
  if d.phase = .name then d.addBare.segment else d.segment

end Draft

/-- Reads on from a draft to the end of its segment; also gives the text behind it. -/
def readFrom (d : Draft) : List Char → Segment × List Char
  | [] => (d.finish, [])
  | c :: cs =>
    match d.feed c with
    | .more d' => readFrom d' cs
    | .done segment => (segment, cs)

def read (cs : List Char) : Segment × List Char := readFrom {} cs

theorem readFrom_length_le (d : Draft) (cs : List Char) :
    (readFrom d cs).2.length ≤ cs.length := by
  induction cs generalizing d with
  | nil => simp [readFrom]
  | cons c cs ih =>
    unfold readFrom
    split
    · rename_i d' _
      exact Nat.le_succ_of_le (ih d')
    · simp

theorem length_read_lt (c : Char) (cs : List Char) :
    (read (c :: cs)).2.length < (c :: cs).length := by
  unfold read readFrom
  split
  · rename_i d _
    exact Nat.lt_succ_of_le (readFrom_length_le d cs)
  · simp

/-- The segments of a text, up to the first that is empty. -/
def all : List Char → List Segment
  | [] => []
  | c :: cs =>
    match _h : read (c :: cs) with
    | ([], _) => []
    | (segment, rest) => segment :: all rest
termination_by cs => cs.length
decreasing_by
  have := length_read_lt c cs
  rw [_h] at this
  exact this

def parse (spec : String) : List Segment := all spec.toList

/-- The first `count` segments of a text; behind its end all are empty. -/
def take (count : Nat) (cs : List Char) : List Segment :=
  match count with
  | 0 => []
  | n + 1 =>
    let (segment, rest) := read cs
    segment :: take n rest

end Segment

end CommandTree
