import CommandTree.Toml.Value

/-!
# Documents

A TOML document is kept as it is written: the items of its root table, with every blank and
comment beside what it belongs to.  Printing gives the text back, but for what a document does
not keep:
* a byte order mark, carriage returns at the ends of lines, a comma behind the last pair of an
  inline table, and a missing line end behind the last pair or header;
* a key is spelled as where it was first defined;
* the values that dotted keys put into one table stand together, where the first of them stood,
  and values put into a table that has been left stand in that table.

A pair added later stands behind the pairs of the root table, before the first header.

Results:
* `Document.addMissing_of_has`: a key that is defined is not added.
* `Document.has_addMissing`: afterwards it is defined.
-/
namespace CommandTree.Toml

structure Document where
  items : Items := []
  /-- Blanks and comments behind everything else. -/
  trailing : List Char := []

/-! ## Reading -/

/-- A document being read. -/
structure Draft where
  items : Items := []
  /-- The path of the table whose header was read last. -/
  table : List Key := []
  /-- The number of headers read. -/
  headers : Nat := 0
  /-- Blanks and comments read last, which are not yet anyone's. -/
  gap : List Char := []

/-- Reads what may follow a pair or header on its line; gives it without the line end. -/
def readTail (cs : List Char) : Option (List Char × List Char) :=
  let blanks := cs.takeWhile isGap
  match cs.dropWhile isGap with
  | [] => some (blanks, [])
  | '\n' :: rest => some (blanks, rest)
  | '\r' :: '\n' :: rest => some (blanks, rest)
  | '#' :: rest =>
    let line := rest.takeWhile (· ≠ '\n')
    let after := (rest.dropWhile (· ≠ '\n')).drop 1
    let comment := if line.getLast? = some '\r' ∧ (rest.dropWhile (· ≠ '\n')) ≠ [] then line.dropLast
      else line
    if comment.any isControl then none else some (blanks ++ '#' :: comment, after)
  | _ => none

def readHeader (d : Draft) (cs : List Char) : Option (Draft × List Char) := do
  let (isElement, cs) := match cs with
    | '[' :: rest => (true, rest)
    | _ => (false, cs)
  let (path, cs) ← readPath cs
  let cs ← readMark ']' cs
  let cs ← if isElement then readMark ']' cs else some cs
  let (behind, cs) ← readTail cs
  let header : Header := { number := d.headers + 1, isElement, before := d.gap, behind }
  let items ← if isElement then d.items.openElement path header else d.items.openTable path header
  return ({ items, table := path, headers := d.headers + 1 }, cs)

def readPair (d : Draft) (cs : List Char) : Option (Draft × List Char) := do
  let (path, cs) ← readPath cs
  let cs ← readMark '=' cs
  let (value, rest) ← readValue depthLimit (cs.dropWhile isGap)
  let (behind, rest) ← readTail rest
  let define (_ : Bool) (items : Items) : Option Items :=
    items.assign (surround d.gap [] path) (cs.takeWhile isGap ++ value.text ++ behind) value.meaning
  let items ← d.items.change false define true d.table
  return ({ d with items, gap := [] }, rest)

def readLines : Nat → Draft → List Char → Option Draft
  | 0, _, _ => none
  | fuel + 1, d, cs => do
    let (gap, cs) ← readGaps false cs
    let d := { d with gap := d.gap ++ gap }
    match cs with
    | [] => return d
    | '[' :: rest =>
      let (d, rest) ← readHeader d rest
      readLines fuel d rest
    | _ =>
      let (d, rest) ← readPair d cs
      readLines fuel d rest

/-- Reads a document; a byte order mark at its start is passed over. -/
def Document.parse (text : String) : Option Document :=
  let cs := match text.toList with
    | '\ufeff' :: rest => rest
    | cs => cs
  (readLines (cs.length + 1) {} cs).map fun d => { items := d.items, trailing := d.gap }

/-! ## Printing -/

def Document.print (doc : Document) : String := .ofList (doc.items.text ++ doc.trailing)

/-! ## Looking up and adding -/

/-- A scalar as written by default. -/
def Scalar.text : Scalar → List Char
  | .integer n => (toString n).toList
  | .boolean true => "true".toList
  | .boolean false => "false".toList
  | .other => []

/-- Whether something is defined under a name in the root table. -/
def Document.has (doc : Document) (name : String) : Bool := (doc.items.find? name).isSome

/-- What is defined under a name in the root table. -/
def Document.lookup (doc : Document) (name : String) : Option Scalar :=
  (doc.items.find? name).map fun item =>
    match item with
    | .value _ _ meaning => meaning
    | .table _ _ _ => .other

/-- Adds a pair to the root table, behind those that are there. -/
def Document.add (doc : Document) (name : String) (value : Scalar) : Document :=
  let key : Key := { name, spelling := name.toList, trail := [' '] }
  { doc with items := doc.items ++ [.value key (' ' :: value.text) value] }

/-- Adds a pair to the root table unless something is defined under its name. -/
def Document.addMissing (doc : Document) (name : String) (value : Scalar) : Document :=
  if doc.has name then doc else doc.add name value

theorem Document.addMissing_of_has {doc : Document} {name : String} (h : doc.has name = true)
    (value : Scalar) : doc.addMissing name value = doc := by
  simp [addMissing, h]

theorem Document.lookup_add (doc : Document) (name : String) (value : Scalar) :
    (doc.add name value).lookup name = some value := by
  have := Items.split?_append_singleton doc.items
    (.value { name, spelling := name.toList, trail := [' '] } (' ' :: value.text) value)
  simp only [Item.key] at this
  simp [lookup, add, Items.find?, this]

theorem Document.has_addMissing (doc : Document) (name : String) (value : Scalar) :
    (doc.addMissing name value).has name = true := by
  unfold addMissing
  split
  · assumption
  · have := doc.lookup_add name value
    unfold lookup at this
    unfold has
    cases h : (doc.add name value).items.find? name with
    | some item => rfl
    | none => rw [h] at this; cases this

end CommandTree.Toml
