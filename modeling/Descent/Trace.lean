import Descent.Failure
import Descent.SortedMap
import Descent.Text.Quoted

namespace Descent

-- What happens to a named part of a grammar: it is entered, and later it is left where it
-- matched or with the failure it ran into.
inductive Event where
  | entered (name : String) (ahead : List Char)
  | matched (name : String) (ahead : List Char)
  | failed (name : String) (failure : Failure)
  deriving DecidableEq, Repr

namespace Event

-- So many characters of what lies ahead are shown.
def previewLength : Nat := 15

def preview (ahead : List Char) : String := Text.quoted (ahead.take previewLength)

def describe : Event → String
  | entered name ahead => name ++ " > " ++ preview ahead
  | matched name ahead => name ++ " ok, next " ++ preview ahead
  | failed name failure => name ++ " failed: " ++ failure.message

-- The lines of a log, each set in by two blanks for every part that is being tried around it.
def lines (depth : Nat) : List Event → List String
  | [] => []
  | event :: rest =>
    let margin (depth : Nat) := String.ofList (List.replicate (2 * depth) ' ')
    match event with
    | entered _ _ => (margin depth ++ event.describe) :: lines (depth + 1) rest
    | matched _ _ | failed _ _ => (margin (depth - 1) ++ event.describe) :: lines (depth - 1) rest

end Event

-- How often a named part was tried, and how often it failed.
structure Tally where
  calls : Nat
  failures : Nat
  deriving DecidableEq, Repr

-- The counts by name.
abbrev Profile := List (String × Tally)

namespace Profile

def record (profile : Profile) (name : String) (failed : Bool) : Profile :=
  let tally := (SortedMap.find? name profile).getD ⟨0, 0⟩
  SortedMap.insert name ⟨tally.calls + 1, if failed then tally.failures + 1 else tally.failures⟩
    profile

-- Every part is counted when it is left.
def ofEvents (events : List Event) : Profile :=
  events.foldl (fun profile event =>
    match event with
    | .entered _ _ => profile
    | .matched name _ => profile.record name false
    | .failed name _ => profile.record name true) []

def padRight (width : Nat) (text : String) : String :=
  text ++ String.ofList (List.replicate (width - text.length) ' ')

def padLeft (width : Nat) (text : String) : String :=
  String.ofList (List.replicate (width - text.length) ' ') ++ text

def reportLine (name calls failures : String) : String :=
  padRight 30 name ++ " " ++ padLeft 10 calls ++ " " ++ padLeft 10 failures

-- A table of the counts, with a head line.
def report (profile : Profile) : List String :=
  let line : String × Tally → String := fun (name, tally) =>
    reportLine name (toString tally.calls) (toString tally.failures)
  reportLine "parser" "calls" "failures" :: (profile.map line).mergeSort

end Profile

end Descent
