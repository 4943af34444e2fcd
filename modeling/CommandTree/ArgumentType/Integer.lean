import CommandTree.ArgumentType.Bounds
import CommandTree.Decimal.Reading

/-!
# Integers

An integer of 32 bits between the bounds of its node.  Where the upper bound is known, the
numbers whose text begins with the token are offered, shortest first: those that continue the
digits typed by no digit, by one, by two and so on form one run for each count.

Results:
* `length_candidates_le`: no more are offered than wanted.
-/
namespace CommandTree.ArgumentType

def integerKind : NumberKind Int32 where
  read := Decimal.readInt32
  less a b := decide (a < b)
  write n := toString n.toInt

/-- The first `limit` numbers from `low` to `high`. -/
def firstOf (limit : Nat) (low high : Int) : List Int :=
  (List.range (min limit (high + 1 - low).toNat)).map fun (i : Nat) => low + i

/-- The magnitudes between `low` and `high` whose digits begin with those of `from`, at most
`limit` of them.  The numbers with as many digits as wanted so far are those from `start` to
`stop`; nothing longer begins with a lone zero. -/
def magnitudes (limit : Nat) (low high start stop : Int) : List Int :=
  if _h : 0 ≤ start ∧ start ≤ high ∧ 0 < limit then
    let run := firstOf limit (max start low) (min stop high)
    if _h0 : start = 0 then run
    else run ++ magnitudes (limit - run.length) low high (10 * start) (10 * stop + 9)
  else []
termination_by (high + 1 - start).toNat
decreasing_by omega

/-- The texts of at most `limit` numbers between `low` and `high` that begin with `token`. -/
def candidates (token : String) (low high : Int) (limit : Nat) : List String :=
  let digitsOf : List Char × Bool := match token.toList with
    | '-' :: cs => (cs, true)
    | cs => (cs, false)
  let (digits, negative) := digitsOf
  if token = "" then (firstOf limit low high).map toString
  else if !digits.all Char.isDigit || (digits.length > 1 && digits.head? == some '0') then []
  else
    let n : Int := Decimal.natOfDigits digits
    let (start, stop) := if digits = [] then (1, 9) else (n, n)
    if negative then
      (magnitudes limit (max 1 (-high)) (-low) start stop).map fun n => "-" ++ toString n
    else (magnitudes limit (max 0 low) high start stop).map toString

def integer {ε : Type} : ArgumentType ε where
  result token d _ :=
    match Decimal.readInt32 token with
    | some n => (checkBounds integerKind d n).map .integer
    | none => .error (.invalid ("'" ++ token ++ "' is not a valid integer"))
  complete token d around :=
    match integerKind.bound d "max" with
    | some high =>
      let low := (integerKind.bound d "min").getD 0
      candidates token low.toInt high.toInt around.limit
    | none => []

theorem length_firstOf_le (limit : Nat) (low high : Int) :
    (firstOf limit low high).length ≤ limit := by
  simp only [firstOf, List.length_map, List.length_range]
  omega

theorem length_magnitudes_le (limit : Nat) (low high start stop : Int) :
    (magnitudes limit low high start stop).length ≤ limit := by
  fun_induction magnitudes limit low high start stop with
  | case1 limit stop => exact length_firstOf_le limit _ _
  | case2 limit start stop _ run _ ih =>
    have : run.length ≤ limit := length_firstOf_le limit (max start low) (min stop high)
    rw [List.length_append]
    omega
  | case3 => simp

theorem length_candidates_le (token : String) (low high : Int) (limit : Nat) :
    (candidates token low high limit).length ≤ limit := by
  unfold candidates
  simp only
  repeat' split
  all_goals simp [length_firstOf_le, length_magnitudes_le]

end CommandTree.ArgumentType
