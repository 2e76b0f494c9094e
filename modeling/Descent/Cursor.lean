import Descent.Failure
import Descent.Text.Bytes
import Descent.Whitespace

namespace Descent

-- A byte offset into a text and what follows it there.
structure Place where
  pos : Nat
  rest : List Char
  deriving DecidableEq, Repr

namespace Place

-- The place behind `text`, which follows this one.
def after (place : Place) (text : List Char) (rest : List Char) : Place :=
  ⟨place.pos + Text.byteSize text, rest⟩

end Place

-- How far a text has been read, and under which rules: `mark` is the last place that was
-- committed to, and while `autoSkip` is on the characters of `policy` are insignificant.
structure Cursor extends Place where
  input : List Char
  mark : Nat
  policy : Whitespace
  autoSkip : Bool

namespace Cursor

def ofInput (input : List Char) (policy : Whitespace) : Cursor :=
  ⟨⟨0, input⟩, input, 0, policy, true⟩

-- Moves to a place that has been seen before.
def rewind (cursor : Cursor) (place : Place) : Cursor := { cursor with toPlace := place }

-- Moves to a byte offset.
def moveTo (cursor : Cursor) (pos : Nat) : Cursor :=
  cursor.rewind ⟨pos, Text.dropBytes cursor.input pos⟩

-- Moves on by a number of bytes, at most to the end of the input.
def advance (cursor : Cursor) (n : Nat) : Cursor :=
  cursor.moveTo (min (cursor.pos + n) (Text.byteSize cursor.input))

def atEnd (cursor : Cursor) : Bool := cursor.rest.isEmpty

def peek? (cursor : Cursor) : Option Char := cursor.rest.head?

-- The next `n` characters, or as many as there are.
def preview (cursor : Cursor) (n : Nat) : List Char := cursor.rest.take n

-- The input between two byte offsets.
def slice (cursor : Cursor) (start stop : Nat) : List Char :=
  Text.takeBytes (Text.dropBytes cursor.input start) (stop - start)

-- Commits to the place reached: nothing before it will be tried again.
def commit (cursor : Cursor) : Cursor := { cursor with mark := max cursor.mark cursor.pos }

-- Whether a commitment was made behind `start`, so that going back to it is out of the question.
def committedPast (cursor : Cursor) (start : Nat) : Bool := start < cursor.mark

-- Whether a character is insignificant here and now.
def skips (cursor : Cursor) (c : Char) : Bool := cursor.autoSkip && cursor.policy.accepts c

def skipWhile (cursor : Cursor) (accepts : Char → Bool) : Cursor :=
  let skipped := cursor.rest.takeWhile accepts
  cursor.rewind (cursor.toPlace.after skipped (cursor.rest.dropWhile accepts))

-- Skips characters of a policy, whatever the cursor's own.
def skipWith (cursor : Cursor) (policy : Whitespace) : Cursor := cursor.skipWhile policy.accepts

-- Skips what is insignificant.
def skipBlank (cursor : Cursor) : Cursor := cursor.skipWhile cursor.skips

def withAutoSkip (cursor : Cursor) (on : Bool) : Cursor := { cursor with autoSkip := on }

-- A failure at the place reached.
def fail (cursor : Cursor) (expected : String) : Failure := ⟨cursor.pos, expected⟩

end Cursor

end Descent
