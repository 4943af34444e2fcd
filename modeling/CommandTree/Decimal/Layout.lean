import CommandTree.Decimal.Shortest

/-!
# Writing doubles

A double is written with its shortest digits.  What differs between the places where one is
written is a `Layout`: which magnitudes are written positionally, and what follows the digits of
a whole number.
-/
namespace CommandTree.Decimal

/-- How doubles are laid out. -/
structure Layout where
  /-- The exponents of the leading digit that are written positionally; all without a window. -/
  window : Option (Int × Int)
  /-- What follows the last digit of a whole number written positionally. -/
  wholeEnd : String

def zeros (n : Nat) : List Char := List.replicate n '0'

/-- The digits with the point where it belongs. -/
def positional (wholeEnd : String) (d : Scaled) : List Char :=
  let ds := Nat.toDigits 10 d.digits
  if 0 ≤ d.exponent then ds ++ zeros d.exponent.toNat ++ wholeEnd.toList
  else
    let places := (-d.exponent).toNat
    if places < ds.length then
      ds.take (ds.length - places) ++ '.' :: ds.drop (ds.length - places)
    else '0' :: '.' :: zeros (places - ds.length) ++ ds

/-- The exponent of the leading digit. -/
def Scaled.leading (d : Scaled) : Int := (Nat.toDigits 10 d.digits).length - 1 + d.exponent

/-- One digit before the point, and the power of ten after an `e`. -/
def exponential (d : Scaled) : List Char :=
  match Nat.toDigits 10 d.digits with
  | [] => []
  | [c] => c :: 'e' :: (toString d.leading).toList
  | c :: cs => c :: '.' :: cs ++ 'e' :: (toString d.leading).toList

def Layout.magnitude (l : Layout) (d : Scaled) : List Char :=
  match l.window with
  | none => positional l.wholeEnd d
  | some (first, last) =>
    if first ≤ d.leading ∧ d.leading ≤ last then positional l.wholeEnd d else exponential d

def Layout.ofBits (l : Layout) (bits : UInt64) : String :=
  let size := bits.toNat % 0x8000000000000000
  let sign := if bits.toNat < 0x8000000000000000 then "" else "-"
  if 0x7FF0000000000000 < size then "NaN"
  else if size = 0x7FF0000000000000 then sign ++ "inf"
  else if size = 0 then sign ++ "0" ++ l.wholeEnd
  else sign ++ .ofList (l.magnitude (Cell.ofBits bits).shortest)

def Layout.write (l : Layout) (x : Float) : String := l.ofBits x.toBits

end CommandTree.Decimal
