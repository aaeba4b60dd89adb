import AbiBridge.Text.Ranges

/-! # White space

The characters with the Unicode property White_Space. -/

namespace AbiBridge.Text

def blankRanges : List (Nat × Nat) :=
  [(0x09, 0x0D), (0x20, 0x20), (0x85, 0x85), (0xA0, 0xA0), (0x1680, 0x1680), (0x2000, 0x200A),
   (0x2028, 0x2029), (0x202F, 0x202F), (0x205F, 0x205F), (0x3000, 0x3000)]

def isBlank (c : Char) : Bool := inRanges blankRanges c

/-- A text of white space only. -/
def isBlankText (s : String) : Bool := s.toList.all isBlank

end AbiBridge.Text
