import Descent.Answer

-- Documents of nulls, booleans, numbers, strings, arrays and objects. An array or an object may
-- have a comma behind its last item.
namespace Descent.Json

abbrev Document := Grammar Empty

def valueOf (node : Node Empty) : Value Empty := node.value?.getD .null

-- The items stand between the brackets, behind the cut.
def listOf (node : Node Empty) : Node Empty :=
  .value (.list ((node.child 2).toChildren.map valueOf))

-- Of two properties with the same key the later one counts.
def mapOf (node : Node Empty) : Node Empty :=
  .value (.ofEntries ((node.child 2).toChildren.filterMap fun property =>
    ((property.child 0).value?.bind Value.str?).map fun key => (key, valueOf (property.child 3))))

def comma : Document := .exact ","

def array : Document :=
  .map listOf (.seq [.exact "[", .cut, .many (.rule "value") (some comma) 0, .exact "]"])

def property : Document := .seq [.quoted "\"", .cut, .exact ":", .rule "value"]

def object : Document :=
  .map mapOf (.seq [.exact "\x7b", .cut, .many property (some comma) 0, .exact "\x7d"])

def value : Document :=
  .any [.bind .null (.exact "null"), .bind (.bool true) (.exact "true"),
    .bind (.bool false) (.exact "false"), .quoted "\"", .number, array, object]

def rules : Rules Empty := ⟨[("value", value)]⟩

def decode (input : String) : Except ParseError (Value Empty) :=
  (Grammar.parseAll rules (.rule "value") input.toList).map valueOf

end Descent.Json
