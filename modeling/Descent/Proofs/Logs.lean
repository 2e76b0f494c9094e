import Descent.Trace
import Mathlib.Data.List.Induction

namespace Descent

namespace Event

-- A line of a log with so many parts around it.
def line (depth : Nat) (event : Event) : String :=
  String.ofList (List.replicate (2 * depth) ' ') ++ event.describe

-- The events of a log, each with the number of parts that are being tried around it.
def placed (depth : Nat) : List Event → List (Nat × Event)
  | [] => []
  | entered name ahead :: rest => (depth, entered name ahead) :: placed (depth + 1) rest
  | matched name ahead :: rest => (depth - 1, matched name ahead) :: placed (depth - 1) rest
  | failed name failure :: rest => (depth - 1, failed name failure) :: placed (depth - 1) rest

def name : Event → String
  | entered name _ | matched name _ | failed name _ => name

def leaves (name : String) : Event → Bool
  | entered _ _ => false
  | matched other _ | failed other _ => other = name

-- Groups of events one after the other: a part is entered, there are groups of parts inside of it,
-- and it is left.
inductive Groups : Nat → List (Nat × Event) → Prop
  | nil {depth} : Groups depth []
  | group {depth name ahead inner leaving rest} :
      Groups (depth + 1) inner → leaving.leaves name → Groups depth rest →
      Groups depth ((depth, .entered name ahead) :: (inner ++ (depth, leaving) :: rest))

theorem placed_leaving {name : String} {leaving : Event} (h : leaving.leaves name) (depth : Nat)
    (rest : List Event) :
    placed (depth + 1) (leaving :: rest) = (depth, leaving) :: placed depth rest := by
  cases leaving with
  | entered _ _ => cases h
  | matched _ _ | failed _ _ => rfl

theorem Groups.append {depth : Nat} {first rest : List (Nat × Event)} (h : Groups depth first)
    (hrest : Groups depth rest) : Groups depth (first ++ rest) := by
  induction h with
  | nil => exact hrest
  | group hinner hleaving _ _ ih =>
      rw [List.cons_append, List.append_assoc, List.cons_append]
      exact .group hinner hleaving (ih hrest)

-- Events that make up groups wherever they stand in a log. What follows them stands as deep as they
-- do.
def Balanced (events : List Event) : Prop :=
  ∀ depth rest, ∃ groups, Groups depth groups ∧
    placed depth (events ++ rest) = groups ++ placed depth rest

theorem Balanced.append {first rest : List Event} (hfirst : Balanced first)
    (hrest : Balanced rest) : Balanced (first ++ rest) := by
  intro depth later
  obtain ⟨groups, hgroups, hplaced⟩ := hfirst depth (rest ++ later)
  obtain ⟨others, hothers, hplaced'⟩ := hrest depth later
  refine ⟨groups ++ others, hgroups.append hothers, ?_⟩
  rw [List.append_assoc, hplaced, hplaced', List.append_assoc]

theorem Balanced.enclose {inner : List Event} {name : String} {leaving : Event}
    (h : Balanced inner) (ahead : List Char) (hleaving : leaving.leaves name) :
    Balanced (.entered name ahead :: (inner ++ [leaving])) := by
  intro depth rest
  obtain ⟨groups, hgroups, hplaced⟩ := h (depth + 1) (leaving :: rest)
  refine ⟨(depth, .entered name ahead) :: (groups ++ [(depth, leaving)]),
    .group hgroups hleaving .nil, ?_⟩
  rw [List.cons_append, List.append_assoc, List.singleton_append, placed, hplaced,
    placed_leaving hleaving, List.cons_append, List.append_assoc, List.cons_append,
    List.nil_append]

theorem Balanced.groups {events : List Event} (h : Balanced events) (depth : Nat) :
    Groups depth (placed depth events) := by
  obtain ⟨groups, hgroups, hplaced⟩ := h depth []
  rw [List.append_nil] at hplaced
  rw [hplaced]
  exact hgroups.append .nil

end Event

namespace Profile

open SortedMap

variable {profile : Profile} {name other : String} {calls failures : Nat}

end Profile

end Descent
