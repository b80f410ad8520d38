import Conditional.Text

/-!
# Conditional.Token

The tokens of the language.  Seven of them are written, each in one way; the
eighth marks the end of the input.  The order of `Token.all` is the order in
which tokens are listed in messages.
-/

namespace Conditional

/-- A token of the language. -/
inductive Token where
  | litTrue
  | litFalse
  | kwIf
  | kwThen
  | kwElse
  | lparen
  | rparen
  | endOfInput
deriving DecidableEq, Repr

namespace Token

/-- The tokens in grammar order. -/
def all : List Token :=
  [litTrue, litFalse, kwIf, kwThen, kwElse, lparen, rparen, endOfInput]

/-- The tokens that are written in a source text. -/
def written : List Token := [litTrue, litFalse, kwIf, kwThen, kwElse, lparen, rparen]

/-- How a token is written.  The end of the input is not; its entry is the
phrase that stands for it in messages. -/
def spelling : Token → Text
  | litTrue => ['t', 'r', 'u', 'e']
  | litFalse => ['f', 'a', 'l', 's', 'e']
  | kwIf => ['i', 'f']
  | kwThen => ['t', 'h', 'e', 'n']
  | kwElse => ['e', 'l', 's', 'e']
  | lparen => ['(']
  | rparen => [')']
  | endOfInput => "end of input"

/-- The name of a token in the rendering of a lexeme. -/
def symbol : Token → Text
  | litTrue => "TRUE"
  | litFalse => "FALSE"
  | kwIf => "IF"
  | kwThen => "THEN"
  | kwElse => "ELSE"
  | lparen => "LPAREN"
  | rparen => "RPAREN"
  | endOfInput => "END_OF_INPUT"

/-- The place of a token in grammar order. -/
def rank : Token → Nat
  | litTrue => 0
  | litFalse => 1
  | kwIf => 2
  | kwThen => 3
  | kwElse => 4
  | lparen => 5
  | rparen => 6
  | endOfInput => 7

/-- How a message refers to a token: by its spelling in quotes, or by the
phrase for the end of the input. -/
def label : Token → Text
  | endOfInput => endOfInput.spelling
  | t => '\'' :: (t.spelling ++ ['\''])

/-- Tokens in grammar order, repetitions kept. -/
def inOrder (tokens : List Token) : List Token :=
  all.flatMap fun t => tokens.filter (· == t)

/-- The set of tokens in a list, in grammar order and without repetitions. -/
def toSet (tokens : List Token) : List Token := all.filter (tokens.contains ·)

/-- A readable listing of tokens in grammar order.  One token stands for
itself; any other number is announced as a choice. -/
def describe (tokens : List Token) : Text :=
  match inOrder tokens with
  | [t] => t.label
  | ts => "one of " ++ Text.join ", " (ts.map label)

/-- The token whose spelling begins a text, with what follows the spelling.
No spelling begins another, so at most one token qualifies. -/
def read? (t : Text) : Option (Token × Text) :=
  written.findSome? fun token => (Text.after? token.spelling t).map (token, ·)

/-! ## Small facts -/

theorem mem_all (t : Token) : t ∈ all := by cases t <;> decide

theorem mem_written {t : Token} : t ∈ written ↔ t ≠ endOfInput := by cases t <;> decide

theorem rank_eq_idxOf (t : Token) : t.rank = all.idxOf t := by cases t <;> decide

@[simp] theorem mem_inOrder {t : Token} {ts : List Token} : t ∈ inOrder ts ↔ t ∈ ts := by
  simp [inOrder, mem_all]

@[simp] theorem mem_toSet {t : Token} {ts : List Token} : t ∈ toSet ts ↔ t ∈ ts := by
  simp [toSet, mem_all]

/-- What `read?` finds is a written token with its spelling at the front. -/
theorem eq_append_of_read? {t rest : Text} {token : Token}
    (h : read? t = some (token, rest)) :
    token ≠ endOfInput ∧ t = token.spelling ++ rest := by
  obtain ⟨k, hk, h⟩ := List.exists_of_findSome?_eq_some h
  obtain ⟨r, hr, heq⟩ := Option.map_eq_some_iff.1 h
  cases heq
  exact ⟨mem_written.1 hk, Text.after?_eq_some_iff.1 hr⟩

theorem spelling_ne_nil (t : Token) : t.spelling ≠ [] := by cases t <;> decide

theorem length_lt_of_read? {t rest : Text} {token : Token}
    (h : read? t = some (token, rest)) : rest.length < t.length := by
  have hlen := List.length_pos_iff.2 token.spelling_ne_nil
  rw [(eq_append_of_read? h).2, List.length_append]
  omega

end Token

end Conditional
