import Descent.Calc
import Descent.Proofs.Dialects

-- The texts that are arithmetic expressions, and what they come to.
namespace Descent.Calc

open Scanner
open Grammar (Row)
open Json (Blank Token)

-- The operation that a character stands for.
def operation : Char → Float → Float → Float
  | '+', left, right => left + right
  | '-', left, right => left - right
  | '*', left, right => left * right
  | '/', left, right => left / right
  | _, left, _ => left

-- Applies operations to what has been worked out so far, each with an operand of its own.
def workOff (first : Float) (steps : List (Char × Float)) : Float :=
  steps.foldl (fun left step => operation step.1 left step.2) first

section Chains

-- `Operand text x` says that the text is an operand, with the blanks before it, and comes to `x`.
variable (operators : String) (Operand : List Char → Float → Prop)

-- An operator and the operand behind it.
inductive Step : List Char → Char × Float → Prop
  | mk {operator literal text x} :
      operator ∈ operators.toList → Token [operator] literal → Operand text x →
      Step (literal ++ text) (operator, x)

-- An operand and any number of steps behind it, worked off from left to right.
inductive Chain : List Char → Float → Prop
  | mk {text first rest steps} :
      Operand text first → Row (Step operators Operand) rest steps →
      Chain (text ++ rest) (workOff first steps)

end Chains

-- A number, or a sum of products in parentheses.
inductive Operand : List Char → Float → Prop
  | number {numeral : Numeral} {value : Value Empty} {text x} :
      numeral.WellFormed → numeral.Denotes value → value.float? = some x →
      Token numeral.text text → Operand text x
  | group {opener body closer x} :
      Token ['('] opener → Chain "+-" (Chain "*/" Operand) body x → Token [')'] closer →
      Operand (opener ++ (body ++ closer)) x

def Product : List Char → Float → Prop := Chain "*/" Operand

def Sum : List Char → Float → Prop := Chain "+-" Product

-- A whole text, with blanks around the sum.
def IsExpression (text : List Char) (x : Float) : Prop :=
  ∃ body blank, text = body ++ blank ∧ Sum body x ∧ Blank blank

end Descent.Calc
