import Conditional.Lexeme
import Conditional.Term

/-!
# Conditional.Parser

Reading a token stream as a term.

    program ::= expr endOfInput
    expr    ::= true | false
              | if expr then expr else expr
              | ( expr )

The first token of an expression decides its production, so one token of
lookahead is enough and nothing is ever read twice.  The first token that
fits nowhere is the error, and the error lists every token that would have
fitted.

The parser works on a cursor, which is part of the public interface: a
caller may read one expression after another from one stream.  A failed step
leaves the cursor at the token that failed.

Nesting is bounded.  Each open parenthesis and each unfinished part of a
conditional counts as one level, and a stream that goes beyond
`nestingLimit` is rejected at the token where that happens, whatever follows.
-/

namespace Conditional

/-- Why a token stream is not an expression. -/
inductive ParseError where
  /-- None of the expected tokens was found. -/
  | unexpected (expected : List Token) (found : Lexeme)
  /-- An expression begins too many levels deep. -/
  | tooDeep (found : Lexeme)
deriving DecidableEq, Repr

/-- A place in a token stream.  `position` counts the steps taken from the
beginning of the stream, including steps beyond its end, and `finish` is
where the last lexeme of the whole stream stops. -/
structure Cursor where
  rest : List Lexeme
  position : Nat
  finish : Int
deriving DecidableEq, Repr

/-- A step that reads from a cursor. -/
abbrev Parser := EStateM ParseError Cursor

/-- The number of levels that may be open at once. -/
def nestingLimit : Nat := 1000

/-- The tokens that can begin an expression. -/
def Token.exprStart : List Token := [.litTrue, .litFalse, .kwIf, .lparen]

namespace Cursor

/-- The cursor at the beginning of a stream. -/
def ofLexemes (lexemes : List Lexeme) : Cursor :=
  ⟨lexemes, 0, (lexemes.getLast?.map Lexeme.stop).getD 0⟩

/-- The lookahead.  A stream that stops without an end of the input is read
as if it had one. -/
def peek (c : Cursor) : Lexeme :=
  match c.rest with
  | [] => .endAt c.finish
  | l :: _ => l

end Cursor

namespace Parser

/-- Passes over the lookahead. -/
def advance : Parser Lexeme := fun c =>
  .ok c.peek { c with rest := c.rest.tail, position := c.position + 1 }

/-- Rejects the lookahead. -/
def reject {α : Type} (expected : List Token) : Parser α := fun c =>
  .error (.unexpected expected c.peek) c

/-- Passes over the lookahead if it is the given token. -/
def expect (t : Token) : Parser Lexeme := fun c =>
  if c.peek.token = t then advance c else reject [t] c

/-- Reads one expression with at most the given number of levels. -/
def expr : Nat → Parser Term
  | 0 => fun c => .error (.tooDeep c.peek) c
  | levels + 1 => do
    match (← get).peek.token with
    | .litTrue =>
      let _ ← advance
      return .lit true
    | .litFalse =>
      let _ ← advance
      return .lit false
    | .kwIf =>
      let _ ← advance
      let condition ← expr levels
      let _ ← expect .kwThen
      let thenBranch ← expr levels
      let _ ← expect .kwElse
      let elseBranch ← expr levels
      return .ite condition thenBranch elseBranch
    | .lparen =>
      let _ ← advance
      let inner ← expr levels
      let _ ← expect .rparen
      return inner
    | _ => reject Token.exprStart

/-- Reads one expression within the nesting limit. -/
def expression : Parser Term := expr (nestingLimit + 1)

/-- Reads one expression, the end of the input, and nothing more. -/
def program : Parser Term := do
  let t ← expression
  let _ ← expect .endOfInput
  if (← get).rest.isEmpty then return t else reject [.endOfInput]

end Parser

/-- The term that a stream of lexemes denotes. -/
def parseLexemes (lexemes : List Lexeme) : Except ParseError Term :=
  match Parser.program (.ofLexemes lexemes) with
  | .ok t _ => .ok t
  | .error e _ => .error e

/-! ## Streams of mixed items -/

/-- An item of a token stream that was put together by hand. -/
inductive StreamItem where
  | token (t : Token)
  | lexeme (l : Lexeme)
  | foreign (form : Text)
deriving DecidableEq, Repr

namespace StreamItem

/-- The lexeme that an item stands for at an index of the stream. -/
def toLexeme (index : Nat) : StreamItem → Except Fault Lexeme
  | token t => .ok (.ofToken index t)
  | lexeme l => .ok l
  | foreign form => .error (.notAToken form)

/-- The lexemes that items stand for, the first of them at the given index. -/
def toLexemes (index : Nat) : List StreamItem → Except Fault (List Lexeme)
  | [] => .ok []
  | item :: items => do
    let l ← item.toLexeme index
    let ls ← toLexemes (index + 1) items
    return l :: ls

end StreamItem

end Conditional
