import Descent.Value

namespace Descent

-- What a grammar yields where it matches.
inductive Node (α : Type) where
  -- a match without content, such as an option that was not taken
  | empty
  -- text that a scanner matched
  | token (text : String)
  -- what the parts yielded, in order
  | children (nodes : List (Node α))
  -- a meaning given to the match
  | value (value : Value α)

namespace Node

variable {α : Type}

instance : Inhabited (Node α) := ⟨empty⟩

def token? : Node α → Option String
  | token text => some text
  | _ => none

def value? : Node α → Option (Value α)
  | value v => some v
  | _ => none

-- The parts of a node; only `children` has any.
def toChildren : Node α → List (Node α)
  | children nodes => nodes
  | _ => []

-- The part at an index, empty if there is none.
def child (node : Node α) (index : Nat) : Node α := node.toChildren.getD index empty

def isEmpty : Node α → Bool
  | empty => true
  | _ => false

mutual

-- The text of all tokens below a node, in order. Values have no text.
def flatten : Node α → String
  | token text => text
  | children nodes => flattenAll nodes
  | empty | value _ => ""

def flattenAll : List (Node α) → String
  | [] => ""
  | node :: rest => node.flatten ++ flattenAll rest

end

mutual

def display : Node α → String
  | empty => ""
  | token text => text
  | children nodes => "[" ++ String.intercalate "," (displayAll nodes) ++ "]"
  | value v => v.display

def displayAll : List (Node α) → List String
  | [] => []
  | node :: rest => node.display :: displayAll rest

end

mutual

def equal [BEq α] : Node α → Node α → Bool
  | empty, empty => true
  | token a, token b => a == b
  | children a, children b => equalAll a b
  | value a, value b => a == b
  | _, _ => false

def equalAll [BEq α] : List (Node α) → List (Node α) → Bool
  | [], [] => true
  | a :: as, b :: bs => a.equal b && equalAll as bs
  | _, _ => false

end

instance [BEq α] : BEq (Node α) := ⟨equal⟩

-- What a node stands for as an item of a list: its value, or else its text.
def item : Node α → Value α
  | value v => v
  | node => .str node.flatten

-- The items of the parts of a node.
def itemList (node : Node α) : Value α := .list (node.toChildren.map item)

-- The parts of a node as properties, each a node whose first part is the key and whose third part
-- is the item.
def itemMap (node : Node α) : Value α :=
  .ofEntries (node.toChildren.map fun part => ((part.child 0).display, (part.child 2).item))

-- Numbers as floats; every other node stays as it is.
def widen (node : Node α) : Node α :=
  match node.value?.bind Value.float? with
  | some x => value (.float x)
  | none => node

end Node

end Descent
