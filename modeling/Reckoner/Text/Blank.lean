/-!
# Blank Characters

The characters with the Unicode property `White_Space`. Blanks separate the tokens of a formula
and carry no meaning of their own.
-/

namespace Reckoner

/-- The ranges of code points with the property `White_Space`: tabs and line ends, the space, the
next-line control, the no-break space, the Ogham space mark, the spaces of various widths, the
line and paragraph separators, and the narrow, mathematical and ideographic spaces. -/
def blankRanges : List (Nat × Nat) :=
  [(0x09, 0x0d), (0x20, 0x20), (0x85, 0x85), (0xa0, 0xa0), (0x1680, 0x1680), (0x2000, 0x200a),
    (0x2028, 0x2029), (0x202f, 0x202f), (0x205f, 0x205f), (0x3000, 0x3000)]

/-- Whether a character is blank. -/
def isBlank (c : Char) : Bool :=
  blankRanges.any fun (first, last) => first ≤ c.toNat && c.toNat ≤ last

end Reckoner
