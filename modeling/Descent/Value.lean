import Descent.Decimal.Nearest
import Descent.Decimal.Shortest
import Descent.SortedMap
import Descent.Text.Quoted

namespace Descent

-- What a grammar can make of a text. Maps are sorted by their keys; `custom` holds whatever a
-- grammar has of its own.
inductive Value (α : Type) where
  | null
  | bool (b : Bool)
  | int (n : Int)
  | float (x : Float)
  | str (text : String)
  | list (items : List (Value α))
  | map (entries : List (String × Value α))
  | custom (payload : α)

namespace Value

variable {α : Type}

instance : Inhabited (Value α) := ⟨null⟩

def ofEntries (entries : List (String × Value α)) : Value α := map (SortedMap.ofEntries entries)

def bool? : Value α → Option Bool
  | bool b => some b
  | _ => none

def int? : Value α → Option Int
  | int n => some n
  | _ => none

-- A float as it is, an integer as the float nearest to it.
def float? : Value α → Option Float
  | float x => some x
  | int n => some (Decimal.ofInt n)
  | _ => none

def str? : Value α → Option String
  | str text => some text
  | _ => none

def items? : Value α → Option (List (Value α))
  | list items => some items
  | _ => none

def entries? : Value α → Option (List (String × Value α))
  | map entries => some entries
  | _ => none

def payload? : Value α → Option α
  | custom payload => some payload
  | _ => none

mutual

-- Floats are compared as numbers, payloads as their type says.
def equal [BEq α] : Value α → Value α → Bool
  | null, null => true
  | bool a, bool b => a == b
  | int a, int b => a == b
  | float a, float b => a == b
  | str a, str b => a == b
  | list a, list b => equalItems a b
  | map a, map b => equalEntries a b
  | custom a, custom b => a == b
  | _, _ => false

def equalItems [BEq α] : List (Value α) → List (Value α) → Bool
  | [], [] => true
  | a :: as, b :: bs => a.equal b && equalItems as bs
  | _, _ => false

def equalEntries [BEq α] : List (String × Value α) → List (String × Value α) → Bool
  | [], [] => true
  | (j, a) :: as, (k, b) :: bs => j == k && a.equal b && equalEntries as bs
  | _, _ => false

end

instance [BEq α] : BEq (Value α) := ⟨equal⟩

mutual

-- The text of a value as a reader expects it, without quotes and tags.
def display : Value α → String
  | null => "null"
  | bool b => toString b
  | int n => toString n
  | float x => Decimal.plain.write x
  | str text => text
  | list items => "[" ++ String.intercalate "," (displayItems items) ++ "]"
  | map entries => "\x7b" ++ String.intercalate "," (displayEntries entries) ++ "\x7d"
  | custom _ => "<custom>"

def displayItems : List (Value α) → List String
  | [] => []
  | item :: rest => item.display :: displayItems rest

def displayEntries : List (String × Value α) → List String
  | [] => []
  | (key, value) :: rest => (key ++ ":" ++ value.display) :: displayEntries rest

end

mutual

-- The text of a value with its kind and with quotes, so that different values read differently.
def tagged : Value α → String
  | null => "Null"
  | bool b => "Bool(" ++ toString b ++ ")"
  | int n => "Int(" ++ toString n ++ ")"
  | float x => "Float(" ++ Decimal.tagged.write x ++ ")"
  | str text => "Str(" ++ Text.quoted text.toList ++ ")"
  | list items => "List([" ++ String.intercalate ", " (taggedItems items) ++ "])"
  | map entries => "Map(\x7b" ++ String.intercalate ", " (taggedEntries entries) ++ "\x7d)"
  | custom _ => "Custom(..)"

def taggedItems : List (Value α) → List String
  | [] => []
  | item :: rest => item.tagged :: taggedItems rest

def taggedEntries : List (String × Value α) → List String
  | [] => []
  | (key, value) :: rest =>
    (Text.quoted key.toList ++ ": " ++ value.tagged) :: taggedEntries rest

end

end Value

end Descent
