/-!
# Reading numbers

Numbers are written with ASCII digits.  An integer is a run of digits after at most one sign, and
must fit 32 bits; a double may have a point, an exponent, or be spelled `inf`, `infinity` or
`nan` in any letter case.  No blanks and no digit separators are allowed.

Results:
* `readNat_eq_none_iff`: a run of digits is refused only when empty or when it is none.
-/
namespace CommandTree.Decimal

def natOfDigits (cs : List Char) : Nat := cs.foldl (fun n c => 10 * n + (c.toNat - '0'.toNat)) 0

def readNat (cs : List Char) : Option Nat :=
  if cs ≠ [] ∧ cs.all Char.isDigit then some (natOfDigits cs) else none

/-- Whether a minus sign leads, and the text after the sign. -/
def takeSign : List Char → Bool × List Char
  | '-' :: cs => (true, cs)
  | '+' :: cs => (false, cs)
  | cs => (false, cs)

/-- A run of digits after at most one sign. -/
def readInt (cs : List Char) : Option Int :=
  let (negative, digits) := takeSign cs
  (readNat digits).map fun n => if negative then -n else n

def readInt32 (s : String) : Option Int32 := do
  let n ← readInt s.toList
  if -0x80000000 ≤ n ∧ n < 0x80000000 then some (.ofInt n) else none

/-- `digits * 10 ^ exponent` rounded to the nearest double, infinite when too large.  Beyond 400
places to either side of the point nothing but zero and infinity is near. -/
def nearestDouble (digits : Nat) (exponent : Int) : Float :=
  let places := (Nat.toDigits 10 digits).length
  if digits = 0 then 0.0
  else if 400 < places + exponent then 1.0 / 0.0
  else if places + exponent < -400 then 0.0
  else .ofScientific digits (exponent < 0) exponent.natAbs

/-- The exponent that may follow the digits of a double. -/
def readExponent : List Char → Option Int
  | [] => some 0
  | c :: cs => if c = 'e' ∨ c = 'E' then readInt cs else none

def readMagnitude (cs : List Char) : Option Float :=
  let word := cs.map Char.toLower
  if word = "inf".toList ∨ word = "infinity".toList then some (1.0 / 0.0)
  else if word = "nan".toList then some (.ofBits 0x7FF8000000000000)
  else
    let whole := cs.takeWhile Char.isDigit
    let rest := cs.dropWhile Char.isDigit
    let (fraction, tail) := match rest with
      | '.' :: after => (after.takeWhile Char.isDigit, after.dropWhile Char.isDigit)
      | _ => ([], rest)
    if whole = [] ∧ fraction = [] then none
    else (readExponent tail).map fun e =>
      nearestDouble (natOfDigits (whole ++ fraction)) (e - fraction.length)

def readDouble (s : String) : Option Float :=
  let (negative, cs) := takeSign s.toList
  (readMagnitude cs).map fun x => if negative then -x else x

theorem readNat_eq_none_iff (cs : List Char) :
    readNat cs = none ↔ cs = [] ∨ ∃ c ∈ cs, c.isDigit = false := by
  by_cases h : cs = []
  · simp [readNat, h]
  · by_cases hd : cs.all Char.isDigit = true
    · simp only [readNat, h, hd, ne_eq, not_false_eq_true, and_self, if_true, reduceCtorEq,
        false_or, false_iff]
      rintro ⟨c, hc, hn⟩
      rw [List.all_eq_true.1 hd c hc] at hn
      cases hn
    · simp at hd
      simp [readNat, h, hd]

end CommandTree.Decimal
