import Conditional.Fault

/-!
# Conditional.Term

Terms of the language: the two literals and the conditional.  Parentheses
only group, so they leave no trace in a term.

A term may also hold *foreign* nodes, which are no part of the language: a
caller can put them into a term by hand, and no text denotes one.  An
extension node has a text of its own and can be rendered; a datum cannot even
do that.  Neither has a value.  `Term.Native` singles out the terms without
foreign nodes, which are the ones that can be written.
-/

namespace Conditional

/-- A node that is no part of the language. -/
inductive Foreign where
  /-- A node of a form of its own, which renders as the given text. -/
  | extension (form text : Text)
  /-- A value that is no term at all. -/
  | datum (form : Text)
deriving DecidableEq, Repr

namespace Foreign

/-- The name of a foreign node's form. -/
def form : Foreign → Text
  | extension form _ => form
  | datum form => form

/-- The text of a foreign node. -/
def text : Foreign → Except Fault Text
  | extension _ text => .ok text
  | datum form => .error (.notRenderable form)

end Foreign

/-- A term. -/
inductive Term where
  | lit (value : Bool)
  | ite (condition thenBranch elseBranch : Term)
  | foreign (node : Foreign)
deriving DecidableEq, Repr

/-- How a truth value is written, in results as in the language. -/
def spellBool : Bool → Text
  | true => ['t', 'r', 'u', 'e']
  | false => ['f', 'a', 'l', 's', 'e']

namespace Term

/-- No node of the term is foreign. -/
def Native : Term → Prop
  | lit _ => True
  | ite c a b => c.Native ∧ a.Native ∧ b.Native
  | foreign _ => False

theorem native_ite {c a b : Term} :
    (ite c a b).Native ↔ c.Native ∧ a.Native ∧ b.Native := Iff.rfl

/-- The subterms directly below a term, in the order of writing. -/
def children : Term → List Term
  | ite c a b => [c, a, b]
  | _ => []

/-- The name of a term's form. -/
def form : Term → Text
  | lit true => "TrueExpr"
  | lit false => "FalseExpr"
  | ite _ _ _ => "IfExpr"
  | foreign node => node.form

/-! ## Text -/

/-- The canonical text of a conditional.  The keywords delimit all three
parts, so it needs no parentheses. -/
def conditional (c a b : Text) : Text := "if " ++ c ++ " then " ++ a ++ " else " ++ b

/-- The canonical text of a term.  The first part that cannot be rendered is
the fault of the whole. -/
def text : Term → Except Fault Text
  | lit value => .ok (spellBool value)
  | ite c a b => do
    let c ← c.text
    let a ← a.text
    let b ← b.text
    return conditional c a b
  | foreign node => node.text

/-- A term's form with its canonical text in quotes. -/
def brief (t : Term) : Except Fault Text := do
  return t.form ++ "('" ++ (← t.text) ++ "')"

/-! ## Display as a tree -/

/-- The indentation of a nesting level, four columns for each. -/
def indentation (level : Int) : Text := Text.fill ' ' (4 * level)

/-- The beginning of a node's display: its form and its canonical text. -/
def header (level : Int) (t : Term) : Except Fault Text := do
  return indentation level ++ t.form ++ "(expr='" ++ (← t.text) ++ "'"

/-- A term as an indented listing of its nodes, each with its canonical text.
The children of a conditional stand one level deeper, with commas between
them, and a line of its own closes their list. -/
def display (level : Int) : Term → Except Fault Text
  | ite c a b => do
    let head ← header level (ite c a b)
    let c ← c.display (level + 1)
    let a ← a.display (level + 1)
    let b ← b.display (level + 1)
    return head ++ ", nodes=[\n" ++ c ++ ",\n" ++ a ++ ",\n" ++ b ++
      "\n" ++ indentation level ++ "])"
  | t => do
    return (← header level t) ++ ")"

end Term

end Conditional
