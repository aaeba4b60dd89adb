/-! # Ranges of characters

A class of characters is given by ranges, each with its first and last code point. -/

namespace AbiBridge.Text

def inRanges (ranges : List (Nat × Nat)) (c : Char) : Bool :=
  ranges.any fun r => r.1 ≤ c.toNat && c.toNat ≤ r.2

end AbiBridge.Text
