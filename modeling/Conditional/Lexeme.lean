import Conditional.Token

/-!
# Conditional.Lexeme

A token together with the stretch of source text it was read from.
-/

namespace Conditional

/-- A token and its span: `start` is the offset of its first character and
`stop` the offset after its last one.  The span of a lexeme that was read from
a source lies within that source; one that was put together by hand may have
any span. -/
structure Lexeme where
  token : Token
  start : Int
  stop : Int
deriving DecidableEq, Repr

namespace Lexeme

/-- The lexeme that stands for the end of an input of the given length. -/
def endAt (offset : Int) : Lexeme := ⟨.endOfInput, offset, offset⟩

/-- A bare token in a stream: its index stands in for a source span. -/
def ofToken (index : Nat) (t : Token) : Lexeme := ⟨t, index, index + 1⟩

/-- The rendering of a lexeme, by the name of its token and its span. -/
def render (l : Lexeme) : Text :=
  "Lexeme(" ++ l.token.symbol ++ ", " ++ Text.ofInt l.start ++ ":" ++ Text.ofInt l.stop ++ ")"

end Lexeme

/-- The tokens of a list of lexemes. -/
abbrev tokensOf (lexemes : List Lexeme) : List Token := lexemes.map Lexeme.token

theorem tokensOf_append (lexemes more : List Lexeme) :
    tokensOf (lexemes ++ more) = tokensOf lexemes ++ tokensOf more := List.map_append

theorem tokensOf_append_endAt (lexemes : List Lexeme) (offset : Int) :
    tokensOf (lexemes ++ [.endAt offset]) = tokensOf lexemes ++ [.endOfInput] :=
  tokensOf_append ..

end Conditional
