import Descent.Regex.CharClass

namespace Descent.Regex

-- A condition on a place between two characters. At either end of the text there is none.
inductive Assertion where
  | textStart
  | textEnd
  | lineStart
  | lineEnd
  -- the same where a carriage return, alone or before a line feed, ends a line too
  | returnLineStart
  | returnLineEnd
  | wordBoundary (ascii negated : Bool)
  | wordStart (ascii : Bool)
  | wordEnd (ascii : Bool)
  | noWordBefore (ascii : Bool)
  | noWordAfter (ascii : Bool)
  deriving DecidableEq

namespace Assertion

def isWord (ascii : Bool) : Option Char → Bool
  | some c => if ascii then CharClass.asciiWord.contains c else CharClass.word.contains c
  | none => false

def holds (before after : Option Char) : Assertion → Bool
  | textStart => before = none
  | textEnd => after = none
  | lineStart => before = none || before = some '\n'
  | lineEnd => after = none || after = some '\n'
  | returnLineStart =>
    before = none || before = some '\n' || (before = some '\r' && after ≠ some '\n')
  | returnLineEnd =>
    after = none || after = some '\r' || (after = some '\n' && before ≠ some '\r')
  | wordBoundary ascii negated => (isWord ascii before != isWord ascii after) != negated
  | wordStart ascii => !isWord ascii before && isWord ascii after
  | wordEnd ascii => isWord ascii before && !isWord ascii after
  | noWordBefore ascii => !isWord ascii before
  | noWordAfter ascii => !isWord ascii after

end Assertion

inductive Expr where
  | empty
  | one (chars : CharClass)
  | look (assertion : Assertion)
  | seq (first second : Expr)
  | alt (first second : Expr)
  -- from `least` to `most` times, without an upper bound if that is missing; `lazy` asks for as
  -- few times as possible, which only a search for the first match would respect
  | rep (body : Expr) (least : Nat) (most : Option Nat) (lazy : Bool)
  deriving DecidableEq

namespace Expr

-- Whether the expression matches the empty text between two characters.
def nullable (before after : Option Char) : Expr → Bool
  | empty => true
  | one _ => false
  | look assertion => assertion.holds before after
  | seq a b => a.nullable before after && b.nullable before after
  | alt a b => a.nullable before after || b.nullable before after
  | rep body least _ _ => least = 0 || body.nullable before after

-- What is left of the expression once it has matched the character `c`, which stands behind
-- `before`. A repetition whose body matches nothing here can spend on nothing as many of the
-- repetitions it still needs as it likes.
def step (before : Option Char) (c : Char) : Expr → List Expr
  | empty => []
  | one chars => if chars.contains c then [empty] else []
  | look _ => []
  | seq a b =>
    let left := (a.step before c).map (seq · b)
    if a.nullable before (some c) then left ++ b.step before c else left
  | alt a b => a.step before c ++ b.step before c
  | rep body least most lazy =>
    if most = some 0 then []
    else
      let needed := if body.nullable before (some c) then 0 else least - 1
      (body.step before c).map (seq · (rep body needed (most.map (· - 1)) lazy))

-- The length of the longest beginning of a text that one of the expressions matches, where
-- `length` characters have been matched already and `best` is the longest match among them.
def longestFrom (states : List Expr) (before : Option Char) (text : List Char) (length : Nat)
    (best : Option Nat) : Option Nat :=
  let best := if states.any (·.nullable before text.head?) then some length else best
  match text with
  | [] => best
  | c :: rest =>
    match (states.flatMap (·.step before c)).eraseDups with
    | [] => best
    | next => longestFrom next (some c) rest (length + 1) best

-- The length in characters of the longest beginning of a text that the expression matches. The
-- text stands alone: nothing precedes it.
def longest (expr : Expr) (text : List Char) : Option Nat :=
  longestFrom [expr] none text 0 none

theorem longestFrom_le {states : List Expr} {before : Option Char} {text : List Char}
    {length : Nat} {best : Option Nat} (hbest : ∀ n ∈ best, n ≤ length + text.length) :
    ∀ n ∈ longestFrom states before text length best, n ≤ length + text.length := by
  induction text generalizing states before length best with
  | nil =>
    intro n hn
    simp only [longestFrom] at hn
    split at hn
    · cases hn
      exact Nat.le_refl _
    · exact hbest n hn
  | cons c rest ih =>
    have hhere : ∀ n ∈ (if states.any (·.nullable before (c :: rest).head?) then some length
        else best), n ≤ length + (c :: rest).length := by
      intro n hn
      split at hn
      · cases hn
        exact Nat.le_add_right _ _
      · exact hbest n hn
    intro n hn
    simp only [longestFrom] at hn
    split at hn
    · exact hhere n hn
    · have hshift : length + 1 + rest.length = length + (c :: rest).length := by
        rw [List.length_cons]
        omega
      rw [← hshift] at hhere ⊢
      exact ih hhere n hn

-- A match is no longer than the text.
theorem longest_le {expr : Expr} {text : List Char} {n : Nat} (h : expr.longest text = some n) :
    n ≤ text.length := by
  have hfound : n ∈ longestFrom [expr] none text 0 none := h
  have hle := longestFrom_le (by simp) n hfound
  omega

-- The number of states an automaton for the expression has, roughly.
def size : Expr → Nat
  | empty | one _ | look _ => 1
  | seq a b | alt a b => a.size + b.size
  | rep body least most _ => body.size * max 1 (most.getD (least + 1))

def seqAll : List Expr → Expr
  | [] => empty
  | [a] => a
  | a :: rest => seq a (seqAll rest)

def altAll : List Expr → Expr
  | [] => empty
  | [a] => a
  | a :: rest => alt a (altAll rest)

end Expr

end Descent.Regex
