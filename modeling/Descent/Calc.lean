import Descent.Answer

-- Arithmetic on floats: `+ - * /` with the usual precedence, signed numbers and parentheses.
namespace Descent.Calc

abbrev Expression := Grammar Empty

-- What an operand stands for.
def operand (node : Node Empty) : Float := (node.value?.bind Value.float?).getD 0

-- Applies an operator, known by its character.
def apply (operator : Option String) (left right : Float) : Float :=
  match operator with
  | some "+" => left + right
  | some "-" => left - right
  | some "*" => left * right
  | some "/" => left / right
  | _ => left

-- Works off an operand and the operators with their operands behind it, from left to right.
def fold (node : Node Empty) : Node Empty :=
  let steps := (node.child 1).toChildren
  .value (.float (steps.foldl
    (fun left step => apply (step.child 0).token? left (operand (step.child 1)))
    (operand (node.child 0))))

-- One of the characters of a set.
def oneOf (matcher : String) : Expression := .scan (.run matcher false 1 (some 1))

-- An operand, and any number of times an operator and another operand.
def chain (operators : String) (name : String) : Expression :=
  .map fold (.seq [.rule name, .many (.seq [oneOf operators, .rule name]) none 0])

-- A number, or a sum in parentheses.
def value : Expression :=
  .any [.map Node.widen .number,
    .map (·.child 1) (.seq [.exact "(", .rule "sum", .exact ")"])]

def rules : Rules Empty :=
  ⟨[("value", value), ("prod", chain "*/" "value"), ("sum", chain "+-" "prod")]⟩

def eval (input : String) : Except ParseError Float :=
  (Grammar.parseAll rules (.rule "sum") input.toList).map operand

end Descent.Calc
