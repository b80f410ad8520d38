import Conditional.Problem

/-!
# Conditional.Source

From source text to a term.  A source is first cut into lexemes and then
read as an expression, so a character that begins no token is reported before
any misplaced token, wherever the two stand.
-/

namespace Conditional

/-- Why a source text is not an expression. -/
inductive SourceError where
  | lexical (e : LexError)
  | grammatical (e : ParseError)
deriving DecidableEq, Repr

/-- The term that a source text denotes. -/
def parse (source : Text) : Except SourceError Term :=
  match tokenize source with
  | .error e => .error (.lexical e)
  | .ok lexemes =>
    match parseLexemes lexemes with
    | .error e => .error (.grammatical e)
    | .ok t => .ok t

/-- An error in a source text as a problem with that text. -/
def SourceError.problem (source : Text) : SourceError → Except Fault Problem
  | .lexical e => e.problem source
  | .grammatical e => e.problem source

end Conditional
