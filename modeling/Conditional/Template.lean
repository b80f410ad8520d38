import Conditional.Fault
import Conditional.Style

/-!
# Conditional.Template

Message templates.  A template is text in which `{}` is a hole for a snippet
of the user's text, and `{{` and `}}` stand for single braces; any other brace
is a fault.  Snippets are put in as they are and are not read again, so braces
in them mean nothing.  Text that is to be part of a template, and not a
snippet, has to be escaped first.

Filling a template gives a document, because snippets are emphasised.
-/

namespace Conditional

namespace Template

/-- The hole of a template. -/
def hole : Text := ['{', '}']

/-- A hole between quotes, the usual place of a snippet. -/
def quotedHole : Text := '\'' :: (hole ++ ['\''])

/-- One unit of a template. -/
inductive Piece where
  | char (c : Char)
  | hole
  /-- A brace that is neither doubled nor part of a hole. -/
  | stray (brace : Char)
deriving DecidableEq, Repr

/-- The units of a template, from left to right. -/
def pieces : Text → List Piece
  | '{' :: '{' :: rest => .char '{' :: pieces rest
  | '}' :: '}' :: rest => .char '}' :: pieces rest
  | '{' :: '}' :: rest => .hole :: pieces rest
  | c :: rest => (if c = '{' ∨ c = '}' then .stray c else .char c) :: pieces rest
  | [] => []

/-- Text that stands for the given text in a template: each brace is doubled. -/
def escape (t : Text) : Text := t.flatMap fun c => if c = '{' ∨ c = '}' then [c, c] else [c]

/-- Puts a character in front of a document, in the plain face. -/
def consPlain (c : Char) : Doc → Doc
  | ⟨.plain, t⟩ :: d => ⟨.plain, c :: t⟩ :: d
  | d => ⟨.plain, [c]⟩ :: d

/-- Fills holes with snippets in turn, `used` of them being used up before.
Snippets that no hole asks for are left out. -/
def fillPieces (used : Nat) : List Piece → List Text → Except Fault Doc
  | [], _ => .ok []
  | .char c :: ps, snippets => do return consPlain c (← fillPieces used ps snippets)
  | .stray brace :: _, _ => .error (.strayBrace brace)
  | .hole :: _, [] => .error (.missingSnippet used)
  | .hole :: ps, s :: snippets => do return ⟨.bold, s⟩ :: (← fillPieces (used + 1) ps snippets)

/-- The message that a template and its snippets make. -/
def fill (template : Text) (snippets : List Text) : Except Fault Doc :=
  fillPieces 0 (pieces template) snippets

end Template

end Conditional
