import Descent.Node
import Descent.Scanner

namespace Descent

-- Grammars over texts. Alternatives are tried in order, and a cut commits to the one that is
-- being tried.
inductive Grammar (α : Type) where
  | scan (scanner : Scanner)
  -- commits to the place reached
  | cut
  -- all parts, one after the other
  | seq (parts : List (Grammar α))
  -- the first alternative that matches
  | any (alternatives : List (Grammar α))
  -- as many items as there are, with a separator between them if one is given
  | many (item : Grammar α) (separator : Option (Grammar α)) (min : Nat)
  -- the part, or nothing
  | maybe (part : Grammar α)
  -- the part, expected under this name
  | label (name : String) (part : Grammar α)
  -- the part, traced under this name
  | named (name : String) (part : Grammar α)
  | map (f : Node α → Node α) (part : Grammar α)
  | bind (value : Value α) (part : Grammar α)
  -- the text of all tokens of the part as one token
  | merge (part : Grammar α)
  -- the part, with nothing skipped between its tokens
  | tight (part : Grammar α)
  -- whatever the rule of this name is defined to be
  | rule (name : String)

namespace Grammar

variable {α : Type}

instance : Inhabited (Grammar α) := ⟨cut⟩

def exact (literal : String) : Grammar α := scan (.exact literal)

def chars (matcher : String) : Grammar α := scan (.run matcher false 1 none)

def notChars (matcher : String) : Grammar α := scan (.run matcher true 1 none)

def quoted (quotes : String) : Grammar α := scan (.quoted quotes)

def number : Grammar α := scan .number

mutual

-- How deep the term nests.
def depth : Grammar α → Nat
  | scan _ | cut | rule _ => 1
  | seq parts => depthAll parts + 1
  | any alternatives => depthAll alternatives + 1
  | many item separator _ => max item.depth (depthOption separator) + 1
  | maybe part | label _ part | named _ part | map _ part | bind _ part | merge part
  | tight part => part.depth + 1

def depthAll : List (Grammar α) → Nat
  | [] => 0
  | part :: rest => max part.depth (depthAll rest)

def depthOption : Option (Grammar α) → Nat
  | none => 0
  | some part => part.depth

end

theorem depth_pos (grammar : Grammar α) : 0 < grammar.depth := by
  cases grammar <;> simp [depth]

theorem depth_le_depthAll {part : Grammar α} {parts : List (Grammar α)} (h : part ∈ parts) :
    part.depth ≤ depthAll parts := by
  induction parts with
  | nil => cases h
  | cons first rest ih =>
      simp only [depthAll]
      cases List.mem_cons.mp h with
      | inl heq =>
          rw [heq]
          exact Nat.le_max_left _ _
      | inr hmem => exact Nat.le_trans (ih hmem) (Nat.le_max_right _ _)

end Grammar

end Descent
