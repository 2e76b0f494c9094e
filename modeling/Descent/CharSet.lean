namespace Descent

-- A set of characters: single members and ranges with both ends in it.
structure CharSet where
  members : List Char
  ranges : List (Char × Char)
  deriving DecidableEq, Repr

namespace CharSet

-- The parts of the compact notation `a-zA-Z0-9_\-`.
inductive Item where
  | single (c : Char)
  -- a backslash takes the meaning from the character behind it
  | escaped (c : Char)
  | range (a b : Char)
  deriving DecidableEq, Repr

namespace Item

def text : Item → List Char
  | single c => [c]
  | escaped c => ['\\', c]
  | range a b => [a, '-', b]

end Item

-- Reads the notation from left to right. A backslash at the end and a hyphen that joins no two
-- characters are members.
def readItems : List Char → List Item
  | '\\' :: c :: rest => .escaped c :: readItems rest
  | a :: '-' :: b :: rest => .range a b :: readItems rest
  | c :: rest => .single c :: readItems rest
  | [] => []

-- The ends of a range may stand in either order.
def ofItems (items : List Item) : CharSet where
  members := items.filterMap fun
    | .single c | .escaped c => some c
    | .range _ _ => none
  ranges := items.filterMap fun
    | .range a b => some (if a ≤ b then (a, b) else (b, a))
    | .single _ | .escaped _ => none

def ofString (matcher : String) : CharSet := ofItems (readItems matcher.toList)

def contains (set : CharSet) (c : Char) : Bool :=
  set.members.contains c || set.ranges.any fun (first, last) => first ≤ c && c ≤ last

-- Reading loses nothing: the parts as they are written make up the notation again.
theorem flatMap_text_readItems (text : List Char) : (readItems text).flatMap Item.text = text := by
  fun_induction readItems text with
  | case1 c rest ih => simp [Item.text, ih]
  | case2 a b rest _ ih => simp [Item.text, ih]
  | case3 c rest _ _ ih => simp [Item.text, ih]
  | case4 => rfl

end CharSet

end Descent
