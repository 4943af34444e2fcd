import CommandTree.Toml.Quote

/-!
# Keys

A key is a name and the way it is written.  Keys with dots between them are a path.  The blanks
around the dots belong to the keys beside them, and what stands around the whole path to its last
key: a path is printed from keys that may have been written in different places.

Results:
* `surround_getLast?`: what stands around a path is kept with its last key.
-/
namespace CommandTree.Toml

/-- A key as written: its spelling, the blanks around it between the dots of a path, and what
stands around the whole path when the key ends one. -/
structure Key where
  name : String
  spelling : List Char
  before : List Char := []
  behind : List Char := []
  lead : List Char := []
  trail : List Char := []
deriving DecidableEq, Repr, Inhabited

/-- The keys of a path with dots between them. -/
def dotted : List Key → List Char
  | [] => []
  | [k] => k.spelling
  | k :: next :: rest => k.spelling ++ k.behind ++ '.' :: next.before ++ dotted (next :: rest)

/-- The text of a path: around it what the last key says, inside what each key says. -/
def pathText (path : List Key) : List Char :=
  let last := path.getLast?.getD default
  last.lead ++ dotted path ++ last.trail

/-- Whether a character may stand in a key without quotes. -/
def isBare (c : Char) : Bool := c.isAlphanum || c == '_' || c == '-'

def isGap (c : Char) : Bool := c == ' ' || c == '\t'

def readKey : List Char → Option (Key × List Char)
  | '"' :: cs => do
    let (inner, rest) ← cutBasic cs
    let name ← decodeBasic inner
    return ({ name := .ofList name, spelling := '"' :: inner ++ ['"'] }, rest)
  | '\'' :: cs => do
    let (inner, rest) ← cutLiteral cs
    if inner.any isControl then none
    return ({ name := .ofList inner, spelling := '\'' :: inner ++ ['\''] }, rest)
  | cs =>
    let bare := cs.takeWhile isBare
    if bare.isEmpty then none
    else some ({ name := .ofList bare, spelling := bare }, cs.dropWhile isBare)

/-- Reads keys with dots between them and blanks around them. -/
def readKeys : Nat → List Char → Option (List Key × List Char)
  | 0, _ => none
  | fuel + 1, cs => do
    let (key, rest) ← readKey (cs.dropWhile isGap)
    let key := { key with before := cs.takeWhile isGap, behind := rest.takeWhile isGap }
    match rest.dropWhile isGap with
    | '.' :: rest =>
      let (keys, rest) ← readKeys fuel rest
      return (key :: keys, rest)
    | rest => return ([key], rest)

/-- Adds to what stands around a path. -/
def surround (before behind : List Char) (path : List Key) : List Key :=
  match path.getLast? with
  | some last =>
    path.dropLast ++ [{ last with lead := before ++ last.lead, trail := last.trail ++ behind }]
  | none => []

/-- Moves the blanks around a path to its last key. -/
def settlePath : List Key → List Key
  | [] => []
  | first :: rest =>
    let keys := { first with before := [] } :: rest
    match keys.getLast? with
    | some last => surround first.before last.behind (keys.dropLast ++ [{ last with behind := [] }])
    | none => []

/-- How many keys a path may have. -/
def pathLimit : Nat := 80

def readPath (cs : List Char) : Option (List Key × List Char) := do
  let (keys, rest) ← readKeys (cs.length + 1) cs
  if pathLimit < keys.length then none
  return (settlePath keys, rest)

theorem surround_getLast? {path : List Key} {last : Key} (h : path.getLast? = some last)
    (before behind : List Char) :
    (surround before behind path).getLast? =
      some { last with lead := before ++ last.lead, trail := last.trail ++ behind } := by
  simp [surround, h]

end CommandTree.Toml
