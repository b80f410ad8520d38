import Conditional.Fault

/-!
# Conditional.LogicalLine

Joining physical lines into statements.  A statement goes on on the next line
as long as more parentheses are opened in it than closed; the count is over
all its characters, before anything else about it is known.  A blank line
between statements is no statement.

A statement is numbered with its first line.
-/

namespace Conditional

/-- A statement with the number of the line on which it begins. -/
structure LogicalLine where
  text : Text
  number : Int
deriving DecidableEq, Repr

namespace LogicalLine

/-- More parentheses are opened in the text than closed. -/
def isOpen (t : Text) : Bool := t.count ')' < t.count '('

/-- Joins a further line to the text of a statement. -/
def continued (t line : Text) : Text := t ++ ' ' :: Text.trim line

/-- Takes in one physical line after the statements so far.  If the last of
them goes on, the line is joined to it; otherwise the line begins a statement
of its own, unless it is blank.  Beside the statements, this answers with the
text that the line has become part of. -/
def take (statements : List LogicalLine) (goesOn : Bool) (line : Text) (number : Int) :
    Except Fault (List LogicalLine × Text) :=
  let line := Text.trimEnd line
  if goesOn then
    match statements.getLast? with
    | none => .error .emptyList
    | some last =>
      let text := continued last.text line
      .ok (statements.dropLast ++ [⟨text, last.number⟩], text)
  else if line.isEmpty then .ok (statements, line)
  else .ok (statements ++ [⟨line, number⟩], line)

/-- The statements that physical lines add up to, where `number` is the
number of the first of the lines. -/
def assembleFrom (statements : List LogicalLine) (goesOn : Bool) (number : Int) :
    List Text → Except Fault (List LogicalLine)
  | [] => .ok statements
  | line :: lines => do
    let (statements, text) ← take statements goesOn line number
    assembleFrom statements (isOpen text) (number + 1) lines

/-- The statements of a text that is given by its lines. -/
def assemble (lines : List Text) : Except Fault (List LogicalLine) :=
  assembleFrom [] false 1 lines

end LogicalLine

end Conditional
