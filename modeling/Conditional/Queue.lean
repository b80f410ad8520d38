import Conditional.Term

/-!
# Conditional.Queue

The statements that wait to be run, in ascending order of their line numbers.
There is at most one for each number: a later statement with the same number
takes the place of an earlier one.
-/

namespace Conditional

/-- Terms by line number, in ascending order. -/
abbrev Queue := List (Int × Term)

namespace Queue

/-- Puts a term under a line number. -/
def insert (number : Int) (t : Term) : Queue → Queue
  | [] => [(number, t)]
  | (n, u) :: rest =>
    if number < n then (number, t) :: (n, u) :: rest
    else if number = n then (number, t) :: rest
    else (n, u) :: insert number t rest

/-- Takes out the term under a line number. -/
def erase (number : Int) (q : Queue) : Queue := q.filter fun entry => entry.1 ≠ number

/-- The term under a line number. -/
def get? (number : Int) (q : Queue) : Option Term := q.lookup number

end Queue

end Conditional
