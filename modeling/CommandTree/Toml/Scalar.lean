import CommandTree.Decimal.Reading

/-!
# Unquoted scalars

The values of a TOML document that stand without quotes or brackets: booleans, integers, floats
and dates.  Only booleans and integers have a meaning here; of the others it matters whether they
are well formed.

Results:
* `readInteger_le`: an integer fits 64 bits.
-/
namespace CommandTree.Toml

/-- The meaning of a value. -/
inductive Scalar
  | integer (n : Int)
  | boolean (b : Bool)
  /-- Any other value. -/
  | other
deriving DecidableEq, Repr

/-- Digits with single underscores between them; gives the digits alone. -/
def digitRun (isDigit : Char → Bool) : List Char → Option (List Char)
  | [] => none
  | [c] => if isDigit c then some [c] else none
  | c :: '_' :: rest => if isDigit c then (digitRun isDigit rest).map (c :: ·) else none
  | c :: rest => if isDigit c then (digitRun isDigit rest).map (c :: ·) else none

/-- Digits whose first is no zero, unless it is the only one. -/
def plainRun (cs : List Char) : Option (List Char) :=
  (digitRun Char.isDigit cs).filter fun ds => ds.length == 1 || ds.head? != some '0'

def isHexDigit (c : Char) : Bool := c.isDigit || ('a' ≤ c && c ≤ 'f') || ('A' ≤ c && c ≤ 'F')

def hexValue (c : Char) : Nat :=
  if c.isDigit then c.toNat - '0'.toNat else c.toLower.toNat - 'a'.toNat + 10

def ofDigits (base : Nat) (ds : List Char) : Nat := ds.foldl (fun n c => base * n + hexValue c) 0

/-- An integer before its size is looked at; a sign goes with base 10 only. -/
def readUnbounded : List Char → Option Int
  | '0' :: 'x' :: cs => (digitRun isHexDigit cs).map fun ds => ofDigits 16 ds
  | '0' :: 'o' :: cs =>
    (digitRun (fun c => '0' ≤ c && c ≤ '7') cs).map fun ds => ofDigits 8 ds
  | '0' :: 'b' :: cs =>
    (digitRun (fun c => c == '0' || c == '1') cs).map fun ds => ofDigits 2 ds
  | cs =>
    let (negative, digits) := Decimal.takeSign cs
    (plainRun digits).map fun ds =>
      if negative then -(ofDigits 10 ds : Int) else (ofDigits 10 ds : Int)

def readInteger (cs : List Char) : Option Int :=
  (readUnbounded cs).filter fun n => decide (-0x8000000000000000 ≤ n ∧ n < 0x8000000000000000)

/-- The exponent behind the digits of a float; none is zero. -/
def readExponent : List Char → Option Int
  | [] => some 0
  | c :: cs =>
    if c = 'e' ∨ c = 'E' then
      let (negative, digits) := Decimal.takeSign cs
      (digitRun Char.isDigit digits).map fun ds =>
        if negative then -(ofDigits 10 ds : Int) else (ofDigits 10 ds : Int)
    else none

def inRun (c : Char) : Bool := c.isDigit || c == '_'

/-- Whether digits, a fraction and an exponent make a float that is not too large. -/
def fits (whole fraction : List Char) (exponent : Int) : Bool :=
  (Decimal.nearestDouble (ofDigits 10 (whole ++ fraction)) (exponent - fraction.length)).isFinite

/-- Whether the text is a float: infinite, no number, or digits with a fraction, an exponent or
both. -/
def isFloat (cs : List Char) : Bool :=
  let body := (Decimal.takeSign cs).2
  if body = "inf".toList ∨ body = "nan".toList then true
  else
    let rest := body.dropWhile inRun
    match plainRun (body.takeWhile inRun), rest with
    | some whole, '.' :: tail =>
      match digitRun Char.isDigit (tail.takeWhile inRun), readExponent (tail.dropWhile inRun) with
      | some fraction, some exponent => fits whole fraction exponent
      | _, _ => false
    | some whole, _ :: _ =>
      match readExponent rest with
      | some exponent => fits whole [] exponent
      | none => false
    | _, _ => false

/-- A number of `width` digits between `low` and `high`, and what follows it. -/
def readField (width low high : Nat) (cs : List Char) : Option (Nat × List Char) :=
  let ds := cs.take width
  let n := ofDigits 10 ds
  if ds.length = width ∧ ds.all Char.isDigit ∧ low ≤ n ∧ n ≤ high then some (n, cs.drop width)
  else none

/-- What follows the character `c`. -/
def readMark (c : Char) : List Char → Option (List Char)
  | d :: cs => if d = c then some cs else none
  | [] => none

def daysIn (year month : Nat) : Nat :=
  if month = 2 then if year % 4 = 0 ∧ (year % 100 ≠ 0 ∨ year % 400 = 0) then 29 else 28
  else if month = 4 ∨ month = 6 ∨ month = 9 ∨ month = 11 then 30
  else 31

def readDate (cs : List Char) : Option (List Char) := do
  let (year, cs) ← readField 4 0 9999 cs
  let cs ← readMark '-' cs
  let (month, cs) ← readField 2 1 12 cs
  let cs ← readMark '-' cs
  let (_, cs) ← readField 2 1 (daysIn year month) cs
  return cs

/-- What follows a time of day.  Seconds may be left out; a fraction of them has any number of
digits. -/
def readTime (cs : List Char) : Option (List Char) := do
  let (_, cs) ← readField 2 0 23 cs
  let cs ← readMark ':' cs
  let (_, cs) ← readField 2 0 59 cs
  match cs with
  | ':' :: cs =>
    let (_, cs) ← readField 2 0 60 cs
    match cs with
    | '.' :: tail =>
      if (tail.takeWhile Char.isDigit).isEmpty then none else some (tail.dropWhile Char.isDigit)
    | _ => some cs
  | _ => some cs

/-- Whether the text is the offset of a time, or nothing. -/
def isOffset : List Char → Bool
  | [] => true
  | [c] => c == 'Z' || c == 'z'
  | c :: cs =>
    (c == '+' || c == '-') &&
      (do
        let (_, cs) ← readField 2 0 23 cs
        let cs ← readMark ':' cs
        let (_, cs) ← readField 2 0 59 cs
        return cs) == some []

/-- Whether the text is a date, a time, or both with or without an offset. -/
def isDateTime (cs : List Char) : Bool :=
  match readDate cs with
  | none => readTime cs == some []
  | some [] => true
  | some (c :: rest) =>
    (c == 'T' || c == 't' || c == ' ') &&
      match readTime rest with
      | some tail => isOffset tail
      | none => false

/-- The meaning of an unquoted value. -/
def readScalar (cs : List Char) : Option Scalar :=
  if cs = "true".toList then some (.boolean true)
  else if cs = "false".toList then some (.boolean false)
  else
    match readInteger cs with
    | some n => some (.integer n)
    | none => if isFloat cs || isDateTime cs then some .other else none

theorem readInteger_le {cs : List Char} {n : Int} (h : readInteger cs = some n) :
    -0x8000000000000000 ≤ n ∧ n < 0x8000000000000000 := by
  unfold readInteger at h
  exact of_decide_eq_true (Option.filter_eq_some_iff.1 h).2

end CommandTree.Toml
