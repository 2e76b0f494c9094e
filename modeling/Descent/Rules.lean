import Descent.Failure
import Descent.Grammar

namespace Descent

-- The definitions of named rules. A grammar mentions rules by name, so a rule can be used before
-- it is defined and inside its own definition.
structure Rules (α : Type) where
  definitions : List (String × Grammar α) := []

namespace Rules

variable {α : Type}

def definition? (rules : Rules α) (name : String) : Option (Grammar α) :=
  SortedMap.find? name rules.definitions

def isDefined (rules : Rules α) (name : String) : Bool := (rules.definition? name).isSome

-- A rule is defined once; its definition stays.
def define (rules : Rules α) (name : String) (grammar : Grammar α) :
    Except GrammarError (Rules α) :=
  if rules.isDefined name then .error (.ruleRedefined name)
  else .ok ⟨rules.definitions ++ [(name, grammar)]⟩

def describe (rules : Rules α) (name : String) : String :=
  "Rule \x7b name: " ++ Text.quoted name.toList ++ ", defined: " ++
    toString (rules.isDefined name) ++ " \x7d"

-- How deep the definitions nest.
def depth (rules : Rules α) : Nat :=
  (rules.definitions.map fun (_, grammar) => grammar.depth).foldl max 0

private theorem le_foldl_max {depths : List Nat} {start depth : Nat}
    (h : depth ≤ start ∨ depth ∈ depths) : depth ≤ depths.foldl max start := by
  induction depths generalizing start with
  | nil =>
      cases h with
      | inl hle => exact hle
      | inr hmem => cases hmem
  | cons first rest ih =>
      refine ih ?_
      cases h with
      | inl hle => exact .inl (Nat.le_trans hle (Nat.le_max_left _ _))
      | inr hmem =>
          refine (List.mem_cons.mp hmem).imp (fun heq => ?_) id
          rw [heq]
          exact Nat.le_max_right _ _

theorem depth_le_of_definition? {rules : Rules α} {name : String} {definition : Grammar α}
    (h : rules.definition? name = some definition) : definition.depth ≤ rules.depth := by
  refine le_foldl_max (.inr (List.mem_map.mpr ?_))
  exact ⟨_, SortedMap.mem_of_find? h, rfl⟩

end Rules

end Descent
