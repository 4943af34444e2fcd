import CommandTree.Toml.Item

/-!
# Values

A value is kept as it is written, carriage returns before line feeds aside, together with its
meaning.  Arrays and inline tables nest, at most `depthLimit` deep.
-/
namespace CommandTree.Toml

/-- A value as written, and what it means. -/
structure Written where
  text : List Char
  meaning : Scalar := .other
deriving DecidableEq, Repr

/-- How deep arrays and inline tables nest. -/
def depthLimit : Nat := 80

/-- The blanks, comments and line ends at the front of a text; nothing when a comment holds a
control character. -/
def readGaps (inComment : Bool) : List Char → Option (List Char × List Char)
  | [] => some ([], [])
  | '\r' :: '\n' :: cs => (readGaps false cs).map fun (gap, rest) => ('\n' :: gap, rest)
  | '\n' :: cs => (readGaps false cs).map fun (gap, rest) => ('\n' :: gap, rest)
  | c :: cs =>
    if inComment then
      if isControl c then none else (readGaps true cs).map fun (gap, rest) => (c :: gap, rest)
    else if isGap c then (readGaps false cs).map fun (gap, rest) => (c :: gap, rest)
    else if c = '#' then (readGaps true cs).map fun (gap, rest) => (c :: gap, rest)
    else some ([], c :: cs)

/-- Reads the elements of an array and its closing bracket, each with `read`. -/
def readElements (read : List Char → Option (Written × List Char)) :
    Nat → List Char → Option (List Char × List Char)
  | 0, _ => none
  | fuel + 1, cs => do
    let (lead, cs) ← readGaps false cs
    match cs with
    | ']' :: rest => return (lead ++ [']'], rest)
    | _ =>
      let (v, cs) ← read cs
      let (trail, cs) ← readGaps false cs
      match cs with
      | ',' :: rest =>
        let (more, rest) ← readElements read fuel rest
        return (lead ++ v.text ++ trail ++ ',' :: more, rest)
      | ']' :: rest => return (lead ++ v.text ++ trail ++ [']'], rest)
      | _ => none

/-- Reads the pairs of an inline table and its closing brace, each value with `read`; `items` are
those already read.  A comma may follow the last pair; it is not kept, and the gap behind it
moves to the front. -/
def readPairs (read : List Char → Option (Written × List Char)) :
    Nat → Items → List Char → Option (List Char × List Char)
  | 0, _, _ => none
  | fuel + 1, items, cs => do
    let (lead, cs) ← readGaps false cs
    match cs with
    | '\x7d' :: rest => return (items.inline lead, rest)
    | _ =>
      let (path, cs) ← readPath cs
      let (trail, cs) ← readGaps false cs
      let cs ← readMark '=' cs
      let (before, cs) ← readGaps false cs
      let (v, cs) ← read cs
      let (behind, cs) ← readGaps false cs
      let items ← items.assign (surround lead trail path) (before ++ v.text ++ behind) v.meaning
      match cs with
      | ',' :: rest => readPairs read fuel items rest
      | '\x7d' :: rest => return (items.inline [], rest)
      | _ => none

def inScalar (c : Char) : Bool :=
  !(isGap c || c == ',' || c == ']' || c == '\x7d' || c == '#' || c == '\n' || c == '\r')

/-- Cuts an unquoted value.  A date may be followed by a time behind one space. -/
def cutScalar (cs : List Char) : List Char × List Char :=
  let head := cs.takeWhile inScalar
  match cs.dropWhile inScalar with
  | ' ' :: c :: rest =>
    if readDate head = some [] ∧ c.isDigit then
      (head ++ ' ' :: (c :: rest).takeWhile inScalar, (c :: rest).dropWhile inScalar)
    else (head, ' ' :: c :: rest)
  | rest => (head, rest)

def readPlain (cs : List Char) : Option (Written × List Char) :=
  match cs with
  | '"' :: '"' :: '"' :: cs => do
    let (inner, rest) ← cutMulti '"' true cs
    if !isMultiBasic inner then none
    return (⟨"\"\"\"".toList ++ inner ++ "\"\"\"".toList, .other⟩, rest)
  | '\'' :: '\'' :: '\'' :: cs => do
    let (inner, rest) ← cutMulti '\'' false cs
    if !isMultiLiteral inner then none
    return (⟨"'''".toList ++ inner ++ "'''".toList, .other⟩, rest)
  | '"' :: _ | '\'' :: _ => do
    let (key, rest) ← readKey cs
    return (⟨key.spelling, .other⟩, rest)
  | _ => do
    let (text, rest) := cutScalar cs
    let meaning ← readScalar text
    return (⟨text, meaning⟩, rest)

/-- Reads a value, at most `depth` levels of brackets and braces deep. -/
def readValue : Nat → List Char → Option (Written × List Char)
  | depth + 1, '[' :: cs => do
    let (text, rest) ← readElements (readValue depth) (cs.length + 1) cs
    return (⟨'[' :: text, .other⟩, rest)
  | depth + 1, '\x7b' :: cs => do
    let (text, rest) ← readPairs (readValue depth) (cs.length + 1) [] cs
    return (⟨text, .other⟩, rest)
  | _, cs => readPlain cs

end CommandTree.Toml
