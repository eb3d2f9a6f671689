/-!
The characters that a quoted text shows by number because they cannot be seen or would change the
character before them: controls, format characters, separators other than the space, private use,
noncharacters, and the combining marks of the blocks for diacritics and variation selectors.
-/

namespace LeasePool.Text

/-- Ranges of code points, both ends included. -/
def unprintableRanges : List (Nat × Nat) :=
  [ -- controls
    (0x0, 0x1f), (0x7f, 0x9f),
    -- separators
    (0xa0, 0xa0), (0x1680, 0x1680), (0x2000, 0x200a), (0x2028, 0x2029), (0x202f, 0x202f),
    (0x205f, 0x205f), (0x3000, 0x3000),
    -- format characters
    (0xad, 0xad), (0x600, 0x605), (0x61c, 0x61c), (0x6dd, 0x6dd), (0x70f, 0x70f),
    (0x890, 0x891), (0x8e2, 0x8e2), (0x180e, 0x180e), (0x200b, 0x200f), (0x202a, 0x202e),
    (0x2060, 0x206f), (0xfeff, 0xfeff), (0xfff9, 0xfffb), (0x110bd, 0x110bd),
    (0x110cd, 0x110cd), (0x13430, 0x1343f), (0x1bca0, 0x1bca3), (0x1d173, 0x1d17a),
    (0xe0001, 0xe0001), (0xe0020, 0xe007f),
    -- combining marks and variation selectors
    (0x300, 0x36f), (0x483, 0x489), (0x1ab0, 0x1ace), (0x1dc0, 0x1dff), (0x20d0, 0x20f0),
    (0x302a, 0x302f), (0x3099, 0x309a), (0xfe00, 0xfe0f), (0xfe20, 0xfe2f),
    (0xe0100, 0xe01ef),
    -- private use
    (0xe000, 0xf8ff), (0xf0000, 0xffffd), (0x100000, 0x10fffd),
    -- noncharacters outside the last two places of each plane
    (0xfdd0, 0xfdef) ]

/-- The last two code points of a plane are never characters. -/
def isPlaneEnd (code : Nat) : Bool := 0xfffe ≤ code % 0x10000

/-- The character cannot be shown on its own. -/
def isUnprintable (c : Char) : Bool :=
  isPlaneEnd c.toNat || unprintableRanges.any fun (first, last) => first ≤ c.toNat && c.toNat ≤ last

end LeasePool.Text
