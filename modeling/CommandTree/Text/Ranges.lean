/-!
# Ranges of characters

A property of characters given by a standard is a table of ranges of code points, both ends
included.
-/
namespace CommandTree.Text

/-- Whether the code point of `c` lies in one of the ranges. -/
def inRanges (table : Array (Nat × Nat)) (c : Char) : Bool :=
  table.any fun (first, last) => first ≤ c.toNat && c.toNat ≤ last

end CommandTree.Text
