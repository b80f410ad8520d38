import Conditional.Text.Digit
import Conditional.Text.Quoted

/-!
# Conditional.CommandLine

The arguments of the program: at most one file, options with short and long
names, and values for the options that take one.

Reading goes in two passes.  The first decides for each argument by itself
whether it is an option, the separator `--`, or plain; after the separator
everything is plain.  The second takes the options and the file from left to
right.  An ambiguous option is reported by the first pass, and so before
anything else takes effect.
-/

namespace Conditional

namespace CommandLine

/-! ## Options -/

/-- An option of the program. -/
inductive Flag where
  | help
  | expression
  | tree
  | trace
deriving DecidableEq, Repr

/-- The names of the options. -/
def names : List (Text × Flag) :=
  [("-h", .help), ("--help", .help), ("-e", .expression), ("--expr", .expression),
    ("--tree", .tree), ("--trace", .trace)]

/-- How a message refers to an option, by all of its names. -/
def Flag.label (flag : Flag) : Text :=
  Text.join ['/'] ((names.filter fun entry => entry.2 = flag).map Prod.fst)

/-- What is wrong with the arguments. -/
inductive UsageError where
  /-- An abbreviation fits several options. -/
  | ambiguous (argument : Text) (candidates : List Text)
  /-- An option lacks the value that it takes. -/
  | missingValue (flag : Flag)
  /-- An option has a value, but takes none. -/
  | ignoredValue (flag : Flag) (value : Text)
  /-- There are arguments that mean nothing. -/
  | unrecognized (arguments : List Text)
  /-- There are both a file and an expression. -/
  | fileAndExpression
deriving DecidableEq, Repr

/-- The wording of a usage error. -/
def UsageError.message : UsageError → Text
  | ambiguous argument candidates =>
    "ambiguous option: " ++ argument ++ " could match " ++ Text.join ", " candidates
  | missingValue flag => "argument " ++ flag.label ++ ": expected one argument"
  | ignoredValue flag value =>
    "argument " ++ flag.label ++ ": ignored explicit argument " ++ Text.quoted value
  | unrecognized arguments => "unrecognized arguments: " ++ Text.join [' '] arguments
  | fileAndExpression => "cannot interpret a file and an expression at the same time"

/-! ## First pass: single arguments -/

/-- What an argument is by itself. -/
inductive Argument where
  | plain (text : Text)
  | separator
  /-- An option, with the value that is part of the same argument. -/
  | option (flag : Flag) (attached : Option Text)
  /-- The short name of the option for help, with letters behind it. -/
  | helpAnd (letters : Text)
  /-- It looks like an option, but is none. -/
  | unknown (text : Text)
deriving DecidableEq, Repr

/-- The argument that names an option, with the value in it.  What follows
the short name of the option for help is not a value but a row of letters. -/
def Argument.ofName (name : Text) (flag : Flag) (attached : Option Text) : Argument :=
  match attached with
  | some (c :: rest) =>
    if name = "-h" then .helpAnd (c :: rest) else .option flag (some (c :: rest))
  | _ => .option flag attached

/-- The argument that ends the options. -/
def separatorText : Text := ['-', '-']

/-- The parts of a text before and after its first equals sign; the second is
missing if there is no such sign. -/
def splitAssignment (t : Text) : Text × Option Text :=
  match t.dropWhile (· ≠ '=') with
  | [] => (t, none)
  | _ :: value => (t.takeWhile (· ≠ '='), some value)

/-- Digits, at least one, and possibly a line feed at the very end. -/
def isDigits (t : Text) : Bool :=
  let digits := if t.getLast? = some '\n' then t.dropLast else t
  !digits.isEmpty && digits.all Text.isDigit

/-- A minus sign and a number, either an integer or a decimal fraction with
digits after the point. -/
def isNegativeNumber : Text → Bool
  | '-' :: t =>
    isDigits t ||
      match t.dropWhile Text.isDigit with
      | '.' :: fraction => isDigits fraction
      | _ => false
  | _ => false

/-- The options that an argument may stand for, with the value in it.  A long
name may be shortened; a short name may have its value glued to it. -/
def candidates (a : Text) : List (Text × Flag × Option Text) :=
  if separatorText.isPrefixOf a then
    let (name, value) := splitAssignment a
    (names.filter fun entry => name.isPrefixOf entry.1).map fun entry =>
      (entry.1, entry.2, value)
  else
    (names.filter fun entry => entry.1 = a.take 2).map fun entry =>
      (entry.1, entry.2, some (a.drop 2))

/-- What an argument is whose name, up to an equals sign, is not the full name
of an option.  A minus sign alone is plain, and so are negative numbers and
texts with a space in them, unless they can be read as an option. -/
def classifyOther (a : Text) : Except UsageError Argument :=
  if a.head? ≠ some '-' ∨ a.length = 1 then .ok (.plain a)
  else
    match candidates a with
    | [(name, flag, attached)] => .ok (.ofName name flag attached)
    | [] => .ok (if isNegativeNumber a || a.contains ' ' then .plain a else .unknown a)
    | several => .error (.ambiguous a (several.map Prod.fst))

/-- What an argument is by itself. -/
def classify (a : Text) : Except UsageError Argument :=
  let (name, value) := splitAssignment a
  match names.lookup name with
  | some flag => .ok (.ofName name flag value)
  | none => classifyOther a

/-- What the arguments are, from left to right. -/
def classifyAll : List Text → Except UsageError (List Argument)
  | [] => .ok []
  | a :: rest =>
    if a = separatorText then .ok (.separator :: rest.map .plain)
    else do
      let first ← classify a
      let others ← classifyAll rest
      return first :: others

/-! ## Second pass: options and the file -/

/-- The value of the option that gives an expression. -/
inductive Operand where
  | text (source : Text)
  /-- The value was a separator, and so was dropped. -/
  | dropped
deriving DecidableEq, Repr

/-- The operand that a value makes.  A separator is dropped also where it is
attached to the option, and then the option is there but its value is not. -/
def Operand.ofValue (value : Text) : Operand :=
  if value = separatorText then .dropped else .text value

/-- What the program is to work on, and how much of each result it shows. -/
structure Options where
  file : Option Text := none
  expression : Option Operand := none
  tree : Bool := false
  trace : Bool := false
deriving DecidableEq, Repr

/-- What the arguments ask for. -/
inductive Request where
  | help
  | run (options : Options)
deriving DecidableEq, Repr

/-- What follows from a row of letters behind the short name of the option for
help; they are the short names of further options.  Help is given if all of
them make sense; the letter of an option with a value takes the rest of the
row, or else the next argument, for it. -/
def helpLetters (valueFollows : Bool) : Text → Except UsageError Request
  | [] => .ok .help
  | ['e'] => if valueFollows then .ok .help else .error (.missingValue .expression)
  | 'e' :: _ => .ok .help
  | 'h' :: rest => helpLetters valueFollows rest
  | letters => .error (.ignoredValue .help letters)

/-- Whether the first of some arguments can be the value of an option. -/
def startsPlain : List Argument → Bool
  | .plain _ :: _ => true
  | _ => false

/-- Takes the options and the file from left to right.  The first plain
argument that is no option's value is the file, and swallows a separator
beside it; other plain arguments, and unknown options, are left over. -/
def interpret (o : Options) (extras : List Text) : List Argument → Except UsageError Request
  | [] =>
    if !extras.isEmpty then .error (.unrecognized extras)
    else if o.file.isSome && o.expression.isSome then .error .fileAndExpression
    else .ok (.run o)
  | .unknown a :: rest => interpret o (extras ++ [a]) rest
  | .option .help none :: _ => .ok .help
  | .helpAnd letters :: rest => helpLetters (startsPlain rest) letters
  | .option .tree none :: rest => interpret { o with tree := true } extras rest
  | .option .trace none :: rest => interpret { o with trace := true } extras rest
  | .option .expression (some value) :: rest
  | .option .expression none :: .plain value :: rest =>
    interpret { o with expression := some (.ofValue value) } extras rest
  | .option .expression none :: _ => .error (.missingValue .expression)
  | .option flag (some value) :: _ => .error (.ignoredValue flag value)
  | .separator :: rest =>
    if o.file.isNone then interpret o extras rest
    else interpret o (extras ++ [separatorText]) rest
  | .plain a :: .separator :: rest =>
    if o.file.isNone then interpret { o with file := some a } extras rest
    else interpret o (extras ++ [a, separatorText]) rest
  | .plain a :: rest =>
    if o.file.isNone then interpret { o with file := some a } extras rest
    else interpret o (extras ++ [a]) rest

/-- What the arguments of the program ask for. -/
def read (arguments : List Text) : Except UsageError Request := do
  interpret {} [] (← classifyAll arguments)

/-! ## Texts -/

/-- The name of the program. -/
def programName : Text := "boolcalc"

/-- How the program is used. -/
def usage : Text :=
  "usage: " ++ programName ++ " [-h] [-e EXPR] [--tree] [--trace] [file]\n"

/-- The answer to a request for help. -/
def help : Text :=
  usage ++
  "\nBoolean expression interpreter.\n\n" ++
  "positional arguments:\n" ++
  "  file                  file to interpret and run (if empty, goes to command-\n" ++
  "                        line mode)\n\n" ++
  "options:\n" ++
  "  -h, --help            show this help message and exit\n" ++
  "  -e EXPR, --expr EXPR  interpret a single expression instead of a file\n" ++
  "  --tree                also print the syntax tree of each result\n" ++
  "  --trace               also print the derivation of each result\n"

/-- The answer to a usage error. -/
def complaint (e : UsageError) : Text :=
  usage ++ programName ++ ": error: " ++ e.message ++ ['\n']

end CommandLine

end Conditional
