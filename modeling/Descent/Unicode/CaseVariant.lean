namespace Descent.Unicode

-- `count` code points from `first` on in steps of `step`, each of which is the case variant of
-- the code point `distance` below it.
structure FoldRow where
  first : Nat
  count : Nat
  step : Nat
  distance : Nat

namespace FoldRow

def covers (row : FoldRow) (n : Nat) : Bool :=
  row.first ≤ n && (n - row.first) % row.step = 0 && (n - row.first) / row.step < row.count

end FoldRow

-- Simple case folding, written from each character to the lowest of its variants.
def foldRows : List FoldRow :=
  [⟨0x61, 26, 1, 0x20⟩, ⟨0xe0, 23, 1, 0x20⟩, ⟨0xf8, 7, 1, 0x20⟩, ⟨0x101, 24, 2, 0x1⟩,
   ⟨0x133, 3, 2, 0x1⟩, ⟨0x13a, 8, 2, 0x1⟩, ⟨0x14b, 23, 2, 0x1⟩, ⟨0x178, 1, 1, 0x79⟩,
   ⟨0x17a, 3, 2, 0x1⟩, ⟨0x17f, 1, 1, 0x12c⟩, ⟨0x183, 2, 2, 0x1⟩, ⟨0x188, 1, 1, 0x1⟩,
   ⟨0x18c, 1, 1, 0x1⟩, ⟨0x192, 1, 1, 0x1⟩, ⟨0x199, 1, 1, 0x1⟩, ⟨0x1a1, 3, 2, 0x1⟩,
   ⟨0x1a8, 1, 1, 0x1⟩, ⟨0x1ad, 1, 1, 0x1⟩, ⟨0x1b0, 1, 1, 0x1⟩, ⟨0x1b4, 2, 2, 0x1⟩,
   ⟨0x1b9, 1, 1, 0x1⟩, ⟨0x1bd, 1, 1, 0x1⟩, ⟨0x1c5, 1, 1, 0x1⟩, ⟨0x1c6, 1, 1, 0x2⟩,
   ⟨0x1c8, 1, 1, 0x1⟩, ⟨0x1c9, 1, 1, 0x2⟩, ⟨0x1cb, 1, 1, 0x1⟩, ⟨0x1cc, 1, 1, 0x2⟩,
   ⟨0x1ce, 8, 2, 0x1⟩, ⟨0x1dd, 1, 1, 0x4f⟩, ⟨0x1df, 9, 2, 0x1⟩, ⟨0x1f2, 1, 1, 0x1⟩,
   ⟨0x1f3, 1, 1, 0x2⟩, ⟨0x1f5, 1, 1, 0x1⟩, ⟨0x1f6, 1, 1, 0x61⟩, ⟨0x1f7, 1, 1, 0x38⟩,
   ⟨0x1f9, 20, 2, 0x1⟩, ⟨0x220, 1, 1, 0x82⟩, ⟨0x223, 9, 2, 0x1⟩, ⟨0x23c, 1, 1, 0x1⟩,
   ⟨0x23d, 1, 1, 0xa3⟩, ⟨0x242, 1, 1, 0x1⟩, ⟨0x243, 1, 1, 0xc3⟩, ⟨0x247, 5, 2, 0x1⟩,
   ⟨0x253, 1, 1, 0xd2⟩, ⟨0x254, 1, 1, 0xce⟩, ⟨0x256, 2, 1, 0xcd⟩, ⟨0x259, 1, 1, 0xca⟩,
   ⟨0x25b, 1, 1, 0xcb⟩, ⟨0x260, 1, 1, 0xcd⟩, ⟨0x263, 1, 1, 0xcf⟩, ⟨0x268, 1, 1, 0xd1⟩,
   ⟨0x269, 1, 1, 0xd3⟩, ⟨0x26f, 1, 1, 0xd3⟩, ⟨0x272, 1, 1, 0xd5⟩, ⟨0x275, 1, 1, 0xd6⟩,
   ⟨0x280, 1, 1, 0xda⟩, ⟨0x283, 1, 1, 0xda⟩, ⟨0x288, 1, 1, 0xda⟩, ⟨0x289, 1, 1, 0x45⟩,
   ⟨0x28a, 2, 1, 0xd9⟩, ⟨0x28c, 1, 1, 0x47⟩, ⟨0x292, 1, 1, 0xdb⟩, ⟨0x371, 2, 2, 0x1⟩,
   ⟨0x377, 1, 1, 0x1⟩, ⟨0x399, 1, 1, 0x54⟩, ⟨0x39c, 1, 1, 0x2e7⟩, ⟨0x3ac, 1, 1, 0x26⟩,
   ⟨0x3ad, 3, 1, 0x25⟩, ⟨0x3b1, 8, 1, 0x20⟩, ⟨0x3b9, 1, 1, 0x74⟩, ⟨0x3ba, 2, 1, 0x20⟩,
   ⟨0x3bc, 1, 1, 0x307⟩, ⟨0x3bd, 5, 1, 0x20⟩, ⟨0x3c2, 1, 1, 0x1f⟩, ⟨0x3c3, 9, 1, 0x20⟩,
   ⟨0x3cc, 1, 1, 0x40⟩, ⟨0x3cd, 2, 1, 0x3f⟩, ⟨0x3d0, 1, 1, 0x3e⟩, ⟨0x3d1, 1, 1, 0x39⟩,
   ⟨0x3d5, 1, 1, 0x2f⟩, ⟨0x3d6, 1, 1, 0x36⟩, ⟨0x3d7, 1, 1, 0x8⟩, ⟨0x3d9, 12, 2, 0x1⟩,
   ⟨0x3f0, 1, 1, 0x56⟩, ⟨0x3f1, 1, 1, 0x50⟩, ⟨0x3f3, 1, 1, 0x74⟩, ⟨0x3f4, 1, 1, 0x5c⟩,
   ⟨0x3f5, 1, 1, 0x60⟩, ⟨0x3f8, 1, 1, 0x1⟩, ⟨0x3f9, 1, 1, 0x7⟩, ⟨0x3fb, 1, 1, 0x1⟩,
   ⟨0x3fd, 3, 1, 0x82⟩, ⟨0x430, 32, 1, 0x20⟩, ⟨0x450, 16, 1, 0x50⟩, ⟨0x461, 17, 2, 0x1⟩,
   ⟨0x48b, 27, 2, 0x1⟩, ⟨0x4c2, 7, 2, 0x1⟩, ⟨0x4cf, 1, 1, 0xf⟩, ⟨0x4d1, 48, 2, 0x1⟩,
   ⟨0x561, 38, 1, 0x30⟩, ⟨0x13f8, 6, 1, 0x8⟩, ⟨0x1c80, 1, 1, 0x186e⟩, ⟨0x1c81, 1, 1, 0x186d⟩,
   ⟨0x1c82, 1, 1, 0x1864⟩, ⟨0x1c83, 2, 1, 0x1862⟩, ⟨0x1c85, 1, 1, 0x1863⟩, ⟨0x1c86, 1, 1, 0x185c⟩,
   ⟨0x1c87, 1, 1, 0x1825⟩, ⟨0x1c8a, 1, 1, 0x1⟩, ⟨0x1c90, 43, 1, 0xbc0⟩, ⟨0x1cbd, 3, 1, 0xbc0⟩,
   ⟨0x1e01, 75, 2, 0x1⟩, ⟨0x1e9b, 1, 1, 0x3b⟩, ⟨0x1e9e, 1, 1, 0x1dbf⟩, ⟨0x1ea1, 48, 2, 0x1⟩,
   ⟨0x1f08, 8, 1, 0x8⟩, ⟨0x1f18, 6, 1, 0x8⟩, ⟨0x1f28, 8, 1, 0x8⟩, ⟨0x1f38, 8, 1, 0x8⟩,
   ⟨0x1f48, 6, 1, 0x8⟩, ⟨0x1f59, 4, 2, 0x8⟩, ⟨0x1f68, 8, 1, 0x8⟩, ⟨0x1f88, 8, 1, 0x8⟩,
   ⟨0x1f98, 8, 1, 0x8⟩, ⟨0x1fa8, 8, 1, 0x8⟩, ⟨0x1fb8, 2, 1, 0x8⟩, ⟨0x1fba, 2, 1, 0x4a⟩,
   ⟨0x1fbc, 1, 1, 0x9⟩, ⟨0x1fbe, 1, 1, 0x1c79⟩, ⟨0x1fc8, 4, 1, 0x56⟩, ⟨0x1fcc, 1, 1, 0x9⟩,
   ⟨0x1fd3, 1, 1, 0x1c43⟩, ⟨0x1fd8, 2, 1, 0x8⟩, ⟨0x1fda, 2, 1, 0x64⟩, ⟨0x1fe3, 1, 1, 0x1c33⟩,
   ⟨0x1fe8, 2, 1, 0x8⟩, ⟨0x1fea, 2, 1, 0x70⟩, ⟨0x1fec, 1, 1, 0x7⟩, ⟨0x1ff8, 2, 1, 0x80⟩,
   ⟨0x1ffa, 2, 1, 0x7e⟩, ⟨0x1ffc, 1, 1, 0x9⟩, ⟨0x2126, 1, 1, 0x1d7d⟩, ⟨0x212a, 1, 1, 0x20df⟩,
   ⟨0x212b, 1, 1, 0x2066⟩, ⟨0x214e, 1, 1, 0x1c⟩, ⟨0x2170, 16, 1, 0x10⟩, ⟨0x2184, 1, 1, 0x1⟩,
   ⟨0x24d0, 26, 1, 0x1a⟩, ⟨0x2c30, 48, 1, 0x30⟩, ⟨0x2c61, 1, 1, 0x1⟩, ⟨0x2c62, 1, 1, 0x29f7⟩,
   ⟨0x2c63, 1, 1, 0xee6⟩, ⟨0x2c64, 1, 1, 0x29e7⟩, ⟨0x2c65, 1, 1, 0x2a2b⟩, ⟨0x2c66, 1, 1, 0x2a28⟩,
   ⟨0x2c68, 3, 2, 0x1⟩, ⟨0x2c6d, 1, 1, 0x2a1c⟩, ⟨0x2c6e, 1, 1, 0x29fd⟩, ⟨0x2c6f, 1, 1, 0x2a1f⟩,
   ⟨0x2c70, 1, 1, 0x2a1e⟩, ⟨0x2c73, 1, 1, 0x1⟩, ⟨0x2c76, 1, 1, 0x1⟩, ⟨0x2c7e, 2, 1, 0x2a3f⟩,
   ⟨0x2c81, 50, 2, 0x1⟩, ⟨0x2cec, 2, 2, 0x1⟩, ⟨0x2cf3, 1, 1, 0x1⟩, ⟨0x2d00, 38, 1, 0x1c60⟩,
   ⟨0x2d27, 1, 1, 0x1c60⟩, ⟨0x2d2d, 1, 1, 0x1c60⟩, ⟨0xa641, 5, 2, 0x1⟩, ⟨0xa64a, 1, 1, 0x89c2⟩,
   ⟨0xa64b, 1, 1, 0x89c3⟩, ⟨0xa64d, 17, 2, 0x1⟩, ⟨0xa681, 14, 2, 0x1⟩, ⟨0xa723, 7, 2, 0x1⟩,
   ⟨0xa733, 31, 2, 0x1⟩, ⟨0xa77a, 2, 2, 0x1⟩, ⟨0xa77d, 1, 1, 0x8a04⟩, ⟨0xa77f, 5, 2, 0x1⟩,
   ⟨0xa78c, 1, 1, 0x1⟩, ⟨0xa78d, 1, 1, 0xa528⟩, ⟨0xa791, 2, 2, 0x1⟩, ⟨0xa797, 10, 2, 0x1⟩,
   ⟨0xa7aa, 1, 1, 0xa544⟩, ⟨0xa7ab, 1, 1, 0xa54f⟩, ⟨0xa7ac, 1, 1, 0xa54b⟩, ⟨0xa7ad, 1, 1, 0xa541⟩,
   ⟨0xa7ae, 1, 1, 0xa544⟩, ⟨0xa7b0, 1, 1, 0xa512⟩, ⟨0xa7b1, 1, 1, 0xa52a⟩, ⟨0xa7b2, 1, 1, 0xa515⟩,
   ⟨0xa7b5, 8, 2, 0x1⟩, ⟨0xa7c4, 1, 1, 0x30⟩, ⟨0xa7c5, 1, 1, 0xa543⟩, ⟨0xa7c6, 1, 1, 0x8a38⟩,
   ⟨0xa7c8, 2, 2, 0x1⟩, ⟨0xa7cb, 1, 1, 0xa567⟩, ⟨0xa7cd, 8, 2, 0x1⟩, ⟨0xa7dc, 1, 1, 0xa641⟩,
   ⟨0xa7f6, 1, 1, 0x1⟩, ⟨0xab53, 1, 1, 0x3a0⟩, ⟨0xab70, 80, 1, 0x97d0⟩, ⟨0xfb06, 1, 1, 0x1⟩,
   ⟨0xff41, 26, 1, 0x20⟩, ⟨0x10428, 40, 1, 0x28⟩, ⟨0x104d8, 36, 1, 0x28⟩, ⟨0x10597, 11, 1, 0x27⟩,
   ⟨0x105a3, 15, 1, 0x27⟩, ⟨0x105b3, 7, 1, 0x27⟩, ⟨0x105bb, 2, 1, 0x27⟩, ⟨0x10cc0, 51, 1, 0x40⟩,
   ⟨0x10d70, 22, 1, 0x20⟩, ⟨0x118c0, 32, 1, 0x20⟩, ⟨0x16e60, 32, 1, 0x20⟩, ⟨0x16ebb, 25, 1, 0x1b⟩,
   ⟨0x1e922, 34, 1, 0x22⟩]

-- The lowest case variant of a character. Two characters are case variants of each other when
-- this is the same for both.
def caseFold (c : Char) : Char :=
  match foldRows.find? (fun row => row.covers c.toNat) with
  | some row => Char.ofNat (c.toNat - row.distance)
  | none => c

-- A character and all its case variants.
def caseVariants (c : Char) : List Char :=
  let lowest := caseFold c
  lowest :: foldRows.filterMap fun row =>
    if row.covers (lowest.toNat + row.distance) then some (Char.ofNat (lowest.toNat + row.distance))
    else none

end Descent.Unicode
