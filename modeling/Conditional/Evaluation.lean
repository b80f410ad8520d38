import Conditional.Term

/-!
# Conditional.Evaluation

The value of a term, in big-step style.

    true ⇓ true        false ⇓ false

    c ⇓ true    a ⇓ v                      c ⇓ false    b ⇓ v
    -----------------------------          -----------------------------
    if c then a else b ⇓ v                 if c then a else b ⇓ v

The condition comes first, and then exactly one branch; the other branch is
not looked at, so nothing in it can matter.  `Evaluates` states these rules
as a relation.  `evaluate` computes the value, and `record` computes it while
writing down a judgment for every subterm whose evaluation is finished.
Foreign nodes have no rule, and `evaluate` fails at the first one it meets.
-/

namespace Conditional

/-! ## The rules -/

/-- The big-step relation between terms and truth values. -/
inductive Evaluates : Term → Bool → Prop where
  | lit (value : Bool) : Evaluates (.lit value) value
  | ifTrue {c a b : Term} {v : Bool} :
      Evaluates c true → Evaluates a v → Evaluates (.ite c a b) v
  | ifFalse {c a b : Term} {v : Bool} :
      Evaluates c false → Evaluates b v → Evaluates (.ite c a b) v

namespace Term

/-- The value of a term. -/
def evaluate : Term → Except Fault Bool
  | lit value => .ok value
  | ite c a b => do
    if ← c.evaluate then a.evaluate else b.evaluate
  | foreign node => .error (.notEvaluable node.form)

end Term

/-! ## Judgments -/

/-- One fact of a derivation: the term has the value, and stands `depth`
levels below the root. -/
structure Judgment where
  term : Term
  value : Bool
  depth : Int
deriving DecidableEq, Repr

namespace Judgment

/-- A judgment in writing. -/
def text (j : Judgment) : Except Fault Text := do
  return (← j.term.text) ++ " ⇓ " ++ spellBool j.value

/-- A judgment in writing, indented by two columns for each level. -/
def line (j : Judgment) : Except Fault Text := do
  return Text.fill ' ' (2 * j.depth) ++ (← j.text)

end Judgment

/-- The judgments of a derivation in writing, a line for each.  Premises come
before their conclusion and are indented one level more. -/
def derivation (judgments : List Judgment) : Except Fault Text := do
  return Text.join ['\n'] (← judgments.mapM Judgment.line)

/-! ## Evaluation on record -/

/-- A computation that adds judgments to a record.  What is on record stays
there if the computation fails. -/
abbrev Recording := EStateM Fault (List Judgment)

/-- Puts a judgment at the end of the record and gives its value. -/
def conclude (term : Term) (value : Bool) (depth : Int) : Recording Bool := fun judgments =>
  .ok value (judgments ++ [⟨term, value, depth⟩])

namespace Term

/-- The value of a term `depth` levels below the root, with a judgment for
each subterm as soon as its value is known. -/
def recordAt (depth : Int) : Term → Recording Bool
  | lit value => conclude (lit value) value depth
  | ite c a b => do
    let value ←
      if ← c.recordAt (depth + 1) then a.recordAt (depth + 1) else b.recordAt (depth + 1)
    conclude (ite c a b) value depth
  | foreign node => throw (.notEvaluable node.form)

/-- The value of a term, with the judgments of its derivation. -/
def record : Term → Recording Bool := recordAt 0

end Term

end Conditional
