import Descent.Failure
import Descent.Text.Bytes

namespace Descent

-- A line, counted from one, and a byte offset within it. Offsets are told instead of columns
-- because a column depends on the width of tabs and on the font.
structure LinePosition where
  line : Nat
  byteOffset : Nat
  deriving DecidableEq, Repr

-- A byte offset into a text, at most its length. It may fall inside a character.
structure Location where
  text : List Char
  offset : Nat

namespace Location

def ofOffset (text : List Char) (offset : Nat) : Location :=
  ⟨text, min offset (Text.byteSize text)⟩

-- Walks `n` bytes on from a line position. Only a line break that lies wholly before the end of
-- the walk starts a new line.
def advance (start : LinePosition) : List Char → Nat → LinePosition
  | c :: rest, n =>
    if c.utf8Size ≤ n then
      let next := if c = '\n' then ⟨start.line + 1, 0⟩
        else ⟨start.line, start.byteOffset + c.utf8Size⟩
      advance next rest (n - c.utf8Size)
    else ⟨start.line, start.byteOffset + n⟩
  | [], n => ⟨start.line, start.byteOffset + n⟩

def linePosition (location : Location) : LinePosition :=
  advance ⟨1, 0⟩ location.text location.offset

-- A line of the text as it is shown, and the pointer below the line of the location. The pointer
-- is set in by as many blanks as there are bytes before the location in the line shown.
def shownLine (position : LinePosition) (number : Nat) (content : List Char) : List String :=
  if number = position.line then
    let margin := s!"  > {number} | "
    [margin ++ String.ofList content,
      String.ofList (List.replicate (margin.utf8ByteSize + position.byteOffset) ' ') ++
        "^--- here"]
  else [s!"    {number} | " ++ String.ofList content]

-- The line of the location and up to two lines on either side of it.
def context (location : Location) : List String :=
  let position := location.linePosition
  let first := max (position.line - 2) 1
  let numbered := (Text.lines location.text).zipIdx 1
  let shown := numbered.filter fun (_, number) => first ≤ number && number ≤ position.line + 2
  shown.flatMap fun (content, number) => shownLine position number content

end Location

-- The error with its line and the lines around it.
def ParseError.report (error : ParseError) (text : List Char) : String :=
  let location := Location.ofOffset text error.pos
  let position := location.linePosition
  s!"error at line {position.line}, byte offset {position.byteOffset}: {error.message}\n\n" ++
    String.join (location.context.map (· ++ "\n"))

end Descent
