import Descent.CharSet
import Descent.Regex
import Descent.Scanner.Number
import Descent.Scanner.Quoted
import Descent.Whitespace

namespace Descent

-- The parts of a grammar that look at the text itself.
inductive Scanner where
  -- a text that has to stand there
  | exact (literal : String)
  -- a run of characters in a set, or outside of it, of a least and perhaps a greatest length
  | run (matcher : String) (negated : Bool) (min : Nat) (max : Option Nat)
  -- the longest match of a regular expression, unless it is empty
  | regex (pattern : Regex)
  -- a literal between quotes, one of those given
  | quoted (quotes : String)
  -- an integer or a decimal number
  | number
  -- everything up to the first of some terminators, unless that is nothing
  | upTo (terminators : List String)
  -- characters of a policy, of the cursor's own if none is given
  | blank (policy : Option Whitespace)

namespace Scanner

-- The longest beginning of a text, of at most `max` characters, all of which are accepted.
def prefixOf (accepts : Char → Bool) (max : Option Nat) (text : List Char) : List Char :=
  (match max with
    | some n => text.take n
    | none => text).takeWhile accepts

-- The text before the first place where one of the terminators starts.
def before (terminators : List (List Char)) : List Char → List Char
  | [] => []
  | c :: rest =>
    if terminators.any (·.isPrefixOf (c :: rest)) then [] else c :: before terminators rest

-- An empty terminator never ends anything.
def proper (terminators : List String) : List String := terminators.filter (· ≠ "")

def untilExpected (terminators : List String) : String :=
  "anything until " ++ String.intercalate " or " (proper terminators)

-- Recognises a scanner's lexeme at the start of a text. What precedes the text makes no
-- difference, and neither does anything else but the policy of the cursor.
def lex {α : Type} (policy : Whitespace) (text : List Char) : Scanner → Except Miss (Lexeme α)
  | exact literal =>
    if literal.toList.isPrefixOf text then
      .ok (.token literal.toList (text.drop literal.toList.length))
    else .error ⟨0, literal⟩
  | run matcher negated min max =>
    let set := CharSet.ofString matcher
    let found := prefixOf (fun c => set.contains c != negated) max text
    if found.length < min then .error ⟨0, matcher⟩
    else .ok (.token found (text.drop found.length))
  | regex pattern =>
    match pattern.expr.longest text with
    | some (n + 1) => .ok (.token (text.take (n + 1)) (text.drop (n + 1)))
    | _ => .error ⟨0, pattern.source⟩
  | quoted quotes => Quoted.scan quotes text
  | number =>
    let (numeral, rest) := Numeral.read text
    match numeral.value? with
    | some value => .ok ⟨numeral.text, rest, .value value⟩
    | none => .error ⟨0, "number"⟩
  | upTo terminators =>
    match before ((proper terminators).map String.toList) text with
    | [] => .error ⟨0, untilExpected terminators⟩
    | found => .ok (.token found (text.drop found.length))
  | blank chosen =>
    let accepts := (chosen.getD policy).accepts
    .ok (.token (text.takeWhile accepts) (text.dropWhile accepts))

-- Whether blanks before the lexeme are left alone: they are the scanner's own business, or the
-- literal itself starts with a character that would be skipped.
def keepsBlank (skips : Char → Bool) : Scanner → Bool
  | exact literal =>
    match literal.toList.head? with
    | some c => skips c
    | none => false
  | blank _ => true
  | _ => false

theorem prefixOf_isPrefix (accepts : Char → Bool) (max : Option Nat) (text : List Char) :
    prefixOf accepts max text <+: text := by
  cases max with
  | none => exact List.takeWhile_prefix accepts
  | some n => exact (List.takeWhile_prefix accepts).trans (List.take_prefix n text)

theorem before_isPrefix (terminators : List (List Char)) (text : List Char) :
    before terminators text <+: text := by
  induction text with
  | nil => exact List.prefix_rfl
  | cons c rest ih =>
    unfold before
    split
    · exact List.nil_prefix
    · exact (List.prefix_cons_inj c).mpr ih

-- What a scanner consumed and what follows it make up the text.
theorem consumed_append_of_lex {α : Type} {policy : Whitespace} {text : List Char}
    {scanner : Scanner} {lexeme : Lexeme α} (h : lex policy text scanner = .ok lexeme) :
    lexeme.consumed ++ lexeme.rest = text := by
  cases scanner with
  | exact literal =>
    simp only [lex] at h
    split at h
    · rename_i hprefix
      obtain rfl := Except.ok.inj h
      exact List.prefix_iff_eq_append.mp (List.isPrefixOf_iff_prefix.mp hprefix)
    · simp at h
  | run matcher negated min max =>
    simp only [lex] at h
    split at h
    · simp at h
    · obtain rfl := Except.ok.inj h
      exact List.prefix_iff_eq_append.mp (prefixOf_isPrefix _ max text)
  | regex pattern =>
    simp only [lex] at h
    split at h
    · obtain rfl := Except.ok.inj h
      exact List.take_append_drop _ text
    · simp at h
  | quoted quotes => exact Quoted.consumed_append_of_scan h
  | number =>
    simp only [lex] at h
    split at h
    · obtain rfl := Except.ok.inj h
      exact Numeral.text_append_of_read rfl
    · simp at h
  | upTo terminators =>
    simp only [lex] at h
    split at h
    · simp at h
    · obtain rfl := Except.ok.inj h
      exact List.prefix_iff_eq_append.mp (before_isPrefix _ text)
  | blank chosen =>
    simp only [lex] at h
    obtain rfl := Except.ok.inj h
    exact List.takeWhile_append_dropWhile

end Scanner

end Descent
