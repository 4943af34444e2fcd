import CommandTree.Toml.Key

/-!
# Items of tables

A table holds items under keys: values, and tables in turn.  Items stand in the order in which
their keys were first defined, with everything needed to write them again.  The elements of an
array of tables are tables under one key, one behind the other.

What may be defined depends on how a table came to be (`Origin`):
* a value, once given, is neither replaced nor extended;
* a table that dotted keys made is not opened by a header, and a table that a header opened is
  not extended by dotted keys, unless it is an element of an array;
* a header opens a table once, unless it is an element of an array.

Results:
* `assign_defined`: a name that is defined takes no value.
* `find?_assign`: afterwards it has the value.
-/
namespace CommandTree.Toml

/-- The header that opened a table. -/
structure Header where
  /-- Headers are numbered in the order in which they stand. -/
  number : Nat
  /-- Whether it adds an element to an array of tables. -/
  isElement : Bool
  /-- Blank lines and comments before the header. -/
  before : List Char
  /-- Blanks and the comment behind the header. -/
  behind : List Char
deriving DecidableEq, Repr

/-- How a table came to be. -/
inductive Origin
  | header (h : Header)
  /-- A header named a table inside it. -/
  | implied
  /-- Dotted keys led through it. -/
  | dotted
deriving DecidableEq, Repr

/-- What stands under a key. -/
inductive Item
  /-- A value, with all that is written behind the equals sign up to the end of the pair. -/
  | value (key : Key) (text : List Char) (meaning : Scalar)
  | table (key : Key) (origin : Origin) (items : List Item)

def Item.key : Item → Key
  | .value key _ _ => key
  | .table key _ _ => key

abbrev Items := List Item

namespace Items

/-! ## Defining -/

/-- The last item under a name, with the items before it and behind it. -/
def split? (name : String) : Items → Option (Items × Item × Items)
  | [] => none
  | item :: rest =>
    match split? name rest with
    | some (before, found, behind) => some (item :: before, found, behind)
    | none => if item.key.name = name then some ([], item, rest) else none

/-- The last item under a name. -/
def find? (items : Items) (name : String) : Option Item := (items.split? name).map fun s => s.2.1

/-- Changes the table that a path leads to; missing tables on the way are made.  A path leads
through the last element of an array of tables, and through no value.  With `dotted` the tables
it makes are of dotted keys, and it leads through no table that a header opened on its own.  The
change is told whether the table was made by dotted keys, or what `made` says if the path is
empty. -/
def change (dotted : Bool) (f : Bool → Items → Option Items) (made : Bool) :
    List Key → Items → Option Items
  | [], items => f made items
  | k :: ks, items =>
    match items.split? k.name with
    | none => do
      let inner ← change dotted f dotted ks []
      return items ++ [.table k (if dotted then .dotted else .implied) inner]
    | some (before, .table key origin inner, behind) => do
      match origin with
      | .header h => if dotted && !h.isElement then none
      | _ => pure ()
      let inner ← change dotted f (decide (origin = .dotted)) ks inner
      return before ++ .table key origin inner :: behind
    | some (_, .value .., _) => none

def assign (path : List Key) (text : List Char) (meaning : Scalar) (items : Items) :
    Option Items := do
  let key ← path.getLast?
  let define (made : Bool) (inner : Items) : Option Items :=
    if made && (find? inner key.name).isNone then some (inner ++ [.value key text meaning])
    else none
  items.change true define true path.dropLast

/-- Opens the table of a header.  One that was implied is moved behind the other items. -/
def openTable (path : List Key) (h : Header) (items : Items) : Option Items := do
  let key ← path.getLast?
  let define (_ : Bool) (inner : Items) : Option Items :=
    match inner.split? key.name with
    | none => some (inner ++ [.table key (.header h) []])
    | some (before, .table _ .implied sub, behind) =>
      some (before ++ behind ++ [.table key (.header h) sub])
    | some _ => none
  items.change false define true path.dropLast

/-- Adds an element to the array of tables of a header. -/
def openElement (path : List Key) (h : Header) (items : Items) : Option Items := do
  let key ← path.getLast?
  let define (_ : Bool) (inner : Items) : Option Items :=
    match inner.split? key.name with
    | none => some (inner ++ [.table key (.header h) []])
    | some (before, .table first (.header last) sub, behind) =>
      if last.isElement then
        some (before ++ .table first (.header last) sub :: .table first (.header h) [] :: behind)
      else none
    | some _ => none
  items.change false define true path.dropLast

end Items

/-! ## Printing -/

/-- A value with the path that leads to it from the table it is written in. -/
structure Assignment where
  path : List Key
  text : List Char
deriving DecidableEq, Repr

mutual

/-- The values written under the header of the table that the item is in. -/
def Item.assignments (path : List Key) : Item → List Assignment
  | .value key text _ => [⟨path ++ [key], text⟩]
  | .table key .dotted items => Items.assignments (path ++ [key]) items
  | .table _ _ _ => []

/-- The values written under the header of a table, in order. -/
def Items.assignments (path : List Key) : List Item → List Assignment
  | [] => []
  | item :: rest => item.assignments path ++ Items.assignments path rest

end

def Assignment.written (a : Assignment) : List Char := pathText a.path ++ '=' :: a.text

/-- The pairs under a header as text, each on a line. -/
def Items.lines (items : Items) : List Char :=
  (Items.assignments [] items).flatMap fun a => a.written ++ ['\n']

/-- An inline table as text, with the gap behind its opening brace. -/
def Items.inline (gap : List Char) (items : Items) : List Char :=
  '\x7b' :: gap ++ [','].intercalate ((Items.assignments [] items).map Assignment.written) ++
    ['\x7d']

/-- The text of a table under a header, and the number of the header if it was written. -/
structure Section where
  number : Option Nat
  text : List Char

/-- A header as text, with its line end. -/
def Header.text (h : Header) (path : List Key) : List Char :=
  let brackets := if h.isElement then ("[[".toList, "]]".toList) else (['['], [']'])
  h.before ++ brackets.1 ++ pathText path ++ brackets.2 ++ h.behind ++ ['\n']

/-- An implied table as text.  It has a header, behind a blank line, only when values stand in
it. -/
def impliedText (path : List Key) (items : Items) : List Char :=
  match Items.lines items with
  | [] => []
  | lines => '\n' :: '[' :: pathText path ++ ']' :: '\n' :: lines

mutual

/-- The tables under headers that an item holds, the outer before the inner. -/
def Item.sections (path : List Key) : Item → List Section
  | .value _ _ _ => []
  | .table key .dotted items => Items.sections (path ++ [key]) items
  | .table key .implied items =>
    ⟨none, impliedText (path ++ [key]) items⟩ :: Items.sections (path ++ [key]) items
  | .table key (.header h) items =>
    ⟨some h.number, h.text (path ++ [key]) ++ Items.lines items⟩
      :: Items.sections (path ++ [key]) items

/-- The tables under headers that items hold. -/
def Items.sections (path : List Key) : List Item → List Section
  | [] => []
  | item :: rest => item.sections path ++ Items.sections path rest

end

namespace Items

/-- Numbers the sections that have no number like the one before. -/
def numbered (last : Nat) : List Section → List (Nat × List Char)
  | [] => []
  | s :: rest =>
    let number := s.number.getD last
    (number, s.text) :: numbered number rest

/-- Puts a numbered text behind those with no greater number. -/
def place (t : Nat × List Char) : List (Nat × List Char) → List (Nat × List Char)
  | [] => [t]
  | u :: rest => if t.1 < u.1 then t :: u :: rest else u :: place t rest

def sorted (texts : List (Nat × List Char)) : List (Nat × List Char) :=
  texts.foldl (fun done t => place t done) []

/-- The root table as text: its own values, then the sections in the order of their numbers. -/
def text (items : Items) : List Char :=
  items.lines ++ (sorted (numbered 0 (Items.sections [] items))).flatMap Prod.snd

/-! ## Laws -/

theorem split?_append_singleton (items : Items) (item : Item) :
    split? item.key.name (items ++ [item]) = some (items, item, []) := by
  induction items with
  | nil => simp [split?]
  | cons i rest ih => simp [split?, ih]

theorem assign_defined {items : Items} {key : Key} {item : Item}
    (h : items.find? key.name = some item) (text : List Char) (meaning : Scalar) :
    items.assign [key] text meaning = none := by
  simp [assign, change, h]

theorem find?_assign {items : Items} {key : Key} (h : items.find? key.name = none)
    (text : List Char) (meaning : Scalar) :
    (items.assign [key] text meaning).bind (find? · key.name) =
      some (.value key text meaning) := by
  have hn : items.split? key.name = none := by simpa [find?] using h
  have := split?_append_singleton items (.value key text meaning)
  simp only [Item.key] at this
  simp [assign, change, find?, hn, this]

end Items

end CommandTree.Toml
