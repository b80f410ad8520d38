import Conditional.Scanner
import Conditional.Parser
import Conditional.Template

/-!
# Conditional.Problem

What is wrong with the user's text, and where.  A problem is made from a
notice: a template, the snippets that go into it, and the span of the first
snippet that is to be pointed at.  The first snippet is the subject of the
problem.  Lexical and grammatical errors have notices of their own; their
subject is the source text, and they point at the offending part of it unless
there is no source text to show.
-/

namespace Conditional

/-- What kind of mistake a problem reports. -/
inductive Cause where
  | general
  /-- A character that begins no token. -/
  | unrecognized (character : Text) (position : Int)
  /-- A token where others were expected. -/
  | unexpected (expected : List Token) (found : Token) (position : Int)
deriving DecidableEq, Repr

/-- A mistake in the user's text, ready to be reported.  `pointed` says that
the span from `start` to `stop` of the subject is to be shown, and `internal`
that the program, and not the user, is to blame. -/
structure Problem where
  cause : Cause
  message : Doc
  subject : Text
  start : Int
  stop : Int
  pointed : Bool
  internal : Bool
deriving DecidableEq, Repr

/-- What a problem is made from.  A stop of -1 means the end of the subject. -/
structure Notice where
  template : Text
  snippets : List Text := [[]]
  start : Int := 0
  stop : Int := -1
  pointed : Bool := true
  internal : Bool := false
deriving DecidableEq, Repr

namespace Notice

/-- The problem that a notice with the given cause announces.  The message is
made first; then the first snippet becomes the subject. -/
def problem (n : Notice) (cause : Cause) : Except Fault Problem := do
  let message ← Template.fill n.template n.snippets
  match n.snippets with
  | [] => .error .noSubject
  | subject :: _ =>
    return {
      cause := cause
      message := message
      subject := subject
      start := n.start
      stop := if n.stop = -1 then subject.length else n.stop
      pointed := n.pointed
      internal := n.internal }

/-- A notice about one quoted snippet of text, without a diagnosis. -/
def about (snippet rest : Text) : Notice :=
  { template := Template.quotedHole ++ rest, snippets := [snippet], pointed := false }

end Notice

namespace Problem

/-- A character of `source` that begins no token. -/
def unrecognized (character : Text) (position : Int) (source : Text) : Except Fault Problem :=
  Notice.problem
    { template :=
        Template.quotedHole ++ " contains unrecognized character " ++ Template.quotedHole
      snippets := [source, character]
      start := position
      stop := position + 1
      pointed := !source.isEmpty }
    (.unrecognized character position)

/-- What a message says about an unexpected token. -/
def expectation (expected : List Token) (found : Token) : Text :=
  "expected " ++ Token.describe (Token.toSet expected) ++ ", found " ++ found.label

/-- A token of `source` where others were expected.  The span has at least
one character, also where nothing stands in the source. -/
def unexpected (expected : List Token) (found : Token) (position : Int) (source : Text)
    (stop : Option Int) (template : Option Text) : Except Fault Problem :=
  Notice.problem
    { template := template.getD (expectation expected found)
      snippets := [source]
      start := position
      stop := match stop with
        | some stop => if stop ≤ position then position + 1 else stop
        | none => position + 1
      pointed := !source.isEmpty }
    (.unexpected (Token.toSet expected) found position)

end Problem

/-- What a message says about an expression that is nested too deeply. -/
def tooDeepMessage : Text := "expression is nested too deeply"

/-- A lexical error as a problem with its source. -/
def LexError.problem (source : Text) (e : LexError) : Except Fault Problem :=
  Problem.unrecognized [e.character] e.position source

/-- A problem with the lookahead `found`. -/
def Lexeme.problem (source : Text) (expected : List Token) (found : Lexeme)
    (template : Option Text) : Except Fault Problem :=
  Problem.unexpected expected found.token found.start source (some found.stop) template

/-- A grammatical error as a problem with its source. -/
def ParseError.problem (source : Text) : ParseError → Except Fault Problem
  | .unexpected expected found => found.problem source expected none
  | .tooDeep found => found.problem source Token.exprStart (some tooDeepMessage)

end Conditional
