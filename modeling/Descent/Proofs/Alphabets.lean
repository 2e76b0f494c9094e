import Descent.CharSet
import Mathlib.Data.Char
import Mathlib.Order.Lattice

namespace Descent.CharSet

namespace Item

-- The character that the part adds to the members.
def member? : Item → Option Char
  | single c | escaped c => some c
  | range _ _ => none

-- The lower and the upper end of the range that the part adds.
def bounds? : Item → Option (Char × Char)
  | single _ | escaped _ => none
  | range a b => some (min a b, max a b)

-- The part stands for this character.
def Covers (c : Char) : Item → Prop
  | single d | escaped d => c = d
  | range a b => min a b ≤ c ∧ c ≤ max a b

-- The part tells by itself where it ends: a character behind a backslash, or a range that does not
-- start with a backslash.
def Explicit : Item → Prop
  | single _ => False
  | escaped _ => True
  | range a _ => a ≠ '\\'

-- What follows the part does not change how it is read. A bare backslash stands at the very end,
-- and behind any other bare character there is no hyphen that joins it to the next one.
def Fits (rest : List Char) : Item → Prop
  | single c => if c = '\\' then rest = [] else ∀ d more, rest ≠ '-' :: d :: more
  | escaped _ => True
  | range a _ => a ≠ '\\'

variable {item : Item} {c : Char} {rest : List Char}

theorem Explicit.fits (h : item.Explicit) : item.Fits rest := by
  cases item with
  | single c => exact False.elim h
  | escaped c => trivial
  | range a b => exact h

theorem covers_iff :
    item.Covers c ↔ item.member? = some c ∨
      ∃ ends, item.bounds? = some ends ∧ ends.1 ≤ c ∧ c ≤ ends.2 := by
  cases item with
  | single d => simp [Covers, member?, bounds?, eq_comm]
  | escaped d => simp [Covers, member?, bounds?, eq_comm]
  | range a b => simp [Covers, member?, bounds?]

end Item

-- Each part is followed by what does not change how it is read.
def Settled : List Item → Prop
  | [] => True
  | item :: items => item.Fits (items.flatMap Item.text) ∧ Settled items

variable {items : List Item} {text : List Char}

theorem settled_of_explicit (h : ∀ item ∈ items, item.Explicit) : Settled items := by
  induction items with
  | nil => trivial
  | cons item items ih =>
      obtain ⟨hitem, hitems⟩ := List.forall_mem_cons.mp h
      exact ⟨hitem.fits, ih hitems⟩

theorem readItems_text_append {item : Item} {rest : List Char} (h : item.Fits rest) :
    readItems (item.text ++ rest) = item :: readItems rest := by
  cases item with
  | escaped c => rfl
  | range a b =>
      have ha : a ≠ '\\' := h
      simp [Item.text, readItems]
  | single c =>
      by_cases hc : c = '\\'
      · have hrest : rest = [] := by simpa [Item.Fits, hc] using h
        rw [hrest, hc]
        rfl
      · have hrest : ∀ d more, rest ≠ '-' :: d :: more := by simpa [Item.Fits, hc] using h
        rw [Item.text, List.singleton_append, readItems]
        · intro _ _ heq _
          exact hc heq
        · exact hrest

theorem settled_readItems (text : List Char) : Settled (readItems text) := by
  fun_induction readItems text with
  | case1 c rest ih => exact ⟨trivial, ih⟩
  | case2 a b rest hescape ih => exact ⟨hescape, ih⟩
  | case3 c rest hescape hrange ih =>
      refine ⟨?_, ih⟩
      rw [flatMap_text_readItems]
      by_cases hc : c = '\\'
      · cases rest with
        | nil => simp [Item.Fits, hc]
        | cons d more => exact False.elim (hescape d more hc rfl)
      · simpa [Item.Fits, hc] using hrange
  | case4 => trivial

-- The parts that are read are the only ones which make up the text and do not run into each other.
theorem readItems_eq_iff :
    readItems text = items ↔ items.flatMap Item.text = text ∧ Settled items := by
  constructor
  · intro h
    rw [← h]
    exact ⟨flatMap_text_readItems text, settled_readItems text⟩
  · intro ⟨htext, hsettled⟩
    rw [← htext]
    clear htext
    induction items with
    | nil => rfl
    | cons item items ih =>
        obtain ⟨hitem, hitems⟩ := hsettled
        rw [List.flatMap_cons, readItems_text_append hitem, ih hitems]

theorem members_ofItems (items : List Item) :
    (ofItems items).members = items.filterMap Item.member? := by
  unfold ofItems
  congr 1

theorem ranges_ofItems (items : List Item) :
    (ofItems items).ranges = items.filterMap Item.bounds? := by
  apply congrArg fun f => items.filterMap f
  funext item
  cases item with
  | single c => rfl
  | escaped c => rfl
  | range a b =>
      by_cases h : a ≤ b
      · simp [Item.bounds?, h]
      · simp [Item.bounds?, h, le_of_not_ge h]

theorem contains_iff {set : CharSet} {c : Char} :
    set.contains c ↔ c ∈ set.members ∨ ∃ ends ∈ set.ranges, ends.1 ≤ c ∧ c ≤ ends.2 := by
  simp [contains]

theorem contains_ofItems_iff {c : Char} :
    (ofItems items).contains c ↔ ∃ item ∈ items, item.Covers c := by
  simp only [contains_iff, members_ofItems, ranges_ofItems, List.mem_filterMap, Item.covers_iff,
    and_or_left, exists_or]
  apply or_congr_right
  constructor
  · intro ⟨ends, ⟨item, hmem, hends⟩, hc⟩
    exact ⟨item, hmem, ends, hends, hc⟩
  · intro ⟨item, hmem, ends, hends, hc⟩
    exact ⟨ends, ⟨item, hmem, hends⟩, hc⟩

-- Each part adds either a member or a range.
theorem length_members_add_length_ranges (items : List Item) :
    (ofItems items).members.length + (ofItems items).ranges.length = items.length := by
  rw [members_ofItems, ranges_ofItems]
  induction items with
  | nil => rfl
  | cons item items ih =>
      cases item <;> simp [Item.member?, Item.bounds?, List.filterMap_cons] <;> omega

-- The notation is read back part by part: what is written as parts that tell where they end comes to
-- the members and ranges of these parts in order, and any other text is the text of parts, too, which
-- it determines, each of them adding one member or one range.
theorem ofString_decodes_items :
    (∀ items : List Item, (∀ item ∈ items, item.Explicit) →
      let set := ofString (String.ofList (items.flatMap Item.text))
      set.members = items.filterMap Item.member? ∧ set.ranges = items.filterMap Item.bounds? ∧
        ∀ c, set.contains c ↔ ∃ item ∈ items, item.Covers c) ∧
    ∀ matcher : String, ∃ items : List Item,
      (items.flatMap Item.text = matcher.toList ∧ Settled items) ∧
      (∀ other : List Item, other.flatMap Item.text = matcher.toList ∧ Settled other →
        other = items) ∧
      let set := ofString matcher
      set.members = items.filterMap Item.member? ∧ set.ranges = items.filterMap Item.bounds? ∧
        set.members.length + set.ranges.length = items.length := by
  constructor
  · intro items hexplicit
    have hread : readItems (items.flatMap Item.text) = items :=
      readItems_eq_iff.mpr ⟨rfl, settled_of_explicit hexplicit⟩
    have hset : ofString (String.ofList (items.flatMap Item.text)) = ofItems items := by
      rw [ofString, String.toList_ofList, hread]
    simp only [hset]
    exact ⟨members_ofItems items, ranges_ofItems items, fun c => contains_ofItems_iff⟩
  · intro matcher
    refine ⟨readItems matcher.toList, readItems_eq_iff.mp rfl, ?_, ?_, ?_, ?_⟩
    · intro other hother
      exact (readItems_eq_iff.mpr hother).symm
    · exact members_ofItems _
    · exact ranges_ofItems _
    · exact length_members_add_length_ranges _

-- A hyphen that is a range of its own, one that is escaped, and a range down to a backslash.
theorem ofString_decodes_hyphens_and_backslashes :
    let items : List Item := [.range '-' '-', .escaped '-', .range 'a' '\\', .escaped '\\']
    (∀ item ∈ items, item.Explicit) ∧ items.flatMap Item.text = "---\\-a-\\\\\\".toList ∧
      (ofString "---\\-a-\\\\\\").members = ['-', '\\'] ∧
      (ofString "---\\-a-\\\\\\").ranges = [('-', '-'), ('\\', 'a')] := by
  intro items
  have hexplicit : ∀ item ∈ items, item.Explicit := by simp [items, Item.Explicit]
  obtain ⟨hmembers, hranges, -⟩ := ofString_decodes_items.1 items hexplicit
  exact ⟨hexplicit, rfl, hmembers, hranges⟩

end Descent.CharSet
