import Conditional.Text

/-!
# Conditional.Fault

What can go wrong that is no mistake of the user.  A fault comes from a value
in a place where it has no business (a foreign node in a term, a stray item
in a token stream) or from an operation that has nothing to work on.  It is
told apart from a problem with the user's text, which has a place in that
text and is reported with it; a fault is reported by its kind and detail.
-/

namespace Conditional

/-- A failure that no source text explains. -/
inductive Fault where
  /-- A node of the named form was to be evaluated. -/
  | notEvaluable (form : Text)
  /-- A node of the named form was to be rendered. -/
  | notRenderable (form : Text)
  /-- An item of the named form stood in a token stream. -/
  | notAToken (form : Text)
  /-- A template has more holes than snippets; the index of the first hole
  that stays empty. -/
  | missingSnippet (index : Nat)
  /-- A template has a brace that is neither doubled nor part of a hole. -/
  | strayBrace (brace : Char)
  /-- A problem has no snippets, so there is no text that it is about. -/
  | noSubject
  /-- The last or the first entry of an empty list was to be taken. -/
  | emptyList
  /-- A file name holds the character U+0000. -/
  | nulInPath
  /-- A failure from outside this library. -/
  | outside (kind detail : Text)
deriving DecidableEq, Repr

namespace Fault

/-- The kind of a fault, as reports name it. -/
def kind : Fault → Text
  | notEvaluable _ => "TypeError"
  | notRenderable _ => "AttributeError"
  | notAToken _ => "TypeError"
  | missingSnippet _ => "IndexError"
  | strayBrace _ => "ValueError"
  | noSubject => "IndexError"
  | emptyList => "IndexError"
  | nulInPath => "ValueError"
  | outside kind _ => kind

/-- What a report says about a fault after its kind. -/
def detail : Fault → Text
  | notEvaluable form => "cannot evaluate " ++ form ++ ", expected an Expr"
  | notRenderable form => "'" ++ form ++ "' object has no attribute 'expr'"
  | notAToken form => "expected Token or Lexeme, got " ++ form
  | missingSnippet index =>
    "Replacement index " ++ Text.ofNat index ++ " out of range for positional args tuple"
  | strayBrace brace => "Single '" ++ [brace] ++ "' encountered in format string"
  | noSubject => "list index out of range"
  | emptyList => "pop from empty list"
  | nulInPath => "embedded null byte"
  | outside _ detail => detail

end Fault

end Conditional
