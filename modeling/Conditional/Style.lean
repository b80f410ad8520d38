import Conditional.Text

/-!
# Conditional.Style

Text for a terminal: a sequence of spans, each with a face.  A document says
which parts are emphasised; whether that shows is decided once, when it is
rendered.  So nothing that builds a document depends on colour, and colour
can change nothing but the escape sequences around the emphasised spans.
-/

namespace Conditional

/-- How a span is set. -/
inductive Face where
  | plain
  | bold
  | error
  | warning
deriving DecidableEq, Repr

/-- A stretch of text in one face. -/
structure Span where
  face : Face
  text : Text
deriving DecidableEq, Repr

/-- Text with emphasis. -/
abbrev Doc := List Span

namespace Face

/-- The escape character, which starts a control sequence. -/
def escape : Char := '\x1b'

/-- A control sequence that selects a graphic rendition. -/
def select (parameter : Text) : Text := escape :: '[' :: (parameter ++ ['m'])

/-- The control sequences in front of a span: all faces but the plain one are
bold, errors are red and warnings magenta. -/
def opening : Face → Text
  | .plain => []
  | .bold => select "1"
  | .error => select "1" ++ select "31"
  | .warning => select "1" ++ select "35"

/-- The control sequence after a span. -/
def closing : Face → Text
  | .plain => []
  | _ => select "0"

end Face

namespace Span

/-- A span as the terminal gets it.  An emphasised span has its control
sequences even if it is empty. -/
def render (colour : Bool) (s : Span) : Text :=
  if colour then s.face.opening ++ s.text ++ s.face.closing else s.text

end Span

namespace Doc

/-- Text without emphasis. -/
def plain (t : Text) : Doc := [⟨.plain, t⟩]

/-- Text in one face. -/
def styled (face : Face) (t : Text) : Doc := [⟨face, t⟩]

/-- A document as the terminal gets it. -/
def render (colour : Bool) (d : Doc) : Text := d.flatMap (Span.render colour)

/-- The characters of a document. -/
def text (d : Doc) : Text := d.flatMap Span.text

/-- Without colour a document is its characters. -/
theorem render_false (d : Doc) : d.render false = d.text := rfl

end Doc

end Conditional
