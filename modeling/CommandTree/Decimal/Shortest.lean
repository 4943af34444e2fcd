/-!
# The shortest decimal of a double

A finite double other than zero stands for a cell of reals: those that round to it.  The shortest
decimal that reads back is found by trying the grids of powers of ten from the coarsest down.  On
each grid only the two neighbours of the double can lie in the cell; the first grid with a
neighbour inside wins, of two the nearer is taken, and of two equally near the larger.

Everything is compared exactly, with both sides multiplied up to natural numbers.
-/
namespace CommandTree.Decimal

/-- The reals that round to one positive double, in units of `2 ^ scale`: from `low` to `high`
around the double itself, both ends included when the cell is `closed`. -/
structure Cell where
  low : Nat
  middle : Nat
  high : Nat
  scale : Int
  closed : Bool

/-- The decimal `digits * 10 ^ exponent`. -/
structure Scaled where
  digits : Nat
  exponent : Int
deriving DecidableEq, Repr

/-- The cell of a finite double, by its bits without the sign.  Below a power of two the spacing
halves, except where the subnormal doubles begin. -/
def Cell.ofBits (bits : UInt64) : Cell :=
  let fraction := bits.toNat % 0x10000000000000
  let level := bits.toNat / 0x10000000000000 % 0x800
  let m := if level = 0 then fraction else 0x10000000000000 + fraction
  let below := if fraction = 0 ∧ 1 < level then 1 else 2
  { low := 4 * m - below
    middle := 4 * m
    high := 4 * m + 2
    scale := (max level 1 : Nat) - 1077
    closed := m % 2 == 0 }

/-- The spacing of the grid of `10 ^ g`, in the units in which `cell.at g` gives reals. -/
def Cell.spacing (cell : Cell) (g : Int) : Nat :=
  Nat.pow 10 g.toNat * Nat.pow 2 (-cell.scale).toNat

/-- The real `w * 2 ^ scale` in units shared with the grid of `10 ^ g`. -/
def Cell.at (cell : Cell) (g : Int) (w : Nat) : Nat :=
  w * Nat.pow 2 cell.scale.toNat * Nat.pow 10 (-g).toNat

/-- Whether `d * 10 ^ g` rounds to the double of the cell. -/
def Cell.contains (cell : Cell) (g : Int) (d : Nat) : Bool :=
  let x := d * cell.spacing g
  if cell.closed then cell.at g cell.low ≤ x && x ≤ cell.at g cell.high
  else cell.at g cell.low < x && x < cell.at g cell.high

/-- The multiple of `10 ^ g` in the cell that is nearest to the double, the larger on a tie. -/
def Cell.onGrid (cell : Cell) (g : Int) : Option Scaled :=
  let middle := cell.at g cell.middle
  let spacing := cell.spacing g
  let d := middle / spacing
  match cell.contains g d, cell.contains g (d + 1) with
  | true, true => some ⟨if spacing ≤ 2 * (middle % spacing) then d + 1 else d, g⟩
  | true, false => some ⟨d, g⟩
  | false, true => some ⟨d + 1, g⟩
  | false, false => none

/-- A power of ten above every real of the cell. -/
def Cell.top (cell : Cell) : Int := (cell.middle.log2 + 2 + cell.scale) * 30103 / 100000 + 1

def Cell.exact (cell : Cell) : Scaled :=
  if 0 ≤ cell.scale then ⟨cell.middle * Nat.pow 2 cell.scale.toNat, 0⟩
  else ⟨cell.middle * Nat.pow 5 (-cell.scale).toNat, cell.scale⟩

def Cell.shortest (cell : Cell) : Scaled :=
  ((List.range 24).findSome? fun (i : Nat) => cell.onGrid (cell.top - i)).getD cell.exact

theorem Cell.contains_onGrid {cell : Cell} {g : Int} {d : Scaled} (h : cell.onGrid g = some d) :
    cell.contains d.exponent d.digits = true := by
  unfold Cell.onGrid at h
  simp only at h
  split at h
  · rename_i h1 h2
    cases h
    show cell.contains g (if _ then _ else _) = true
    split
    · exact h2
    · exact h1
  · cases h; assumption
  · cases h; assumption
  · cases h

end CommandTree.Decimal
