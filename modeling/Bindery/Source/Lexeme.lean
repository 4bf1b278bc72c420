import Bindery.Source.LineSplice

/-!
# Code and comments

Where comments begin and end is decided once, by `lex`.  It cuts a text into
single characters of code and whole comments; a line comment keeps the line feed
that ends it, a block comment ends at the first star and slash after its opening
two characters.  Removing comments, splitting lists and finding closing brackets
all work on the lexemes, hence they agree on what a comment is.
-/

namespace Bindery.Source

inductive Lexeme where
  | code (c : Char)
  /-- Two slashes, the text after them, and whether a line feed ends the
  comment. -/
  | lineComment (body : Text) (ended : Bool)
  /-- Slash and star, the text after them, and whether the comment is closed. -/
  | blockComment (body : Text) (closed : Bool)
deriving DecidableEq

namespace Lexeme

def text : Lexeme → Text
  | code c => [c]
  | lineComment body ended => '/' :: '/' :: body ++ if ended then ['\n'] else []
  | blockComment body closed =>
    '/' :: '*' :: body ++ if closed then ['*', '/'] else []

/-- What is left of a lexeme when comments are removed: a line comment leaves
its line feed, a block comment leaves a blank. -/
def stripped : Lexeme → Text
  | code c => [c]
  | lineComment _ ended => if ended then ['\n'] else []
  | blockComment _ _ => [' ']

end Lexeme

def Lexeme.textOf (lexemes : List Lexeme) : Text := lexemes.flatMap text

def Lexeme.strippedOf (lexemes : List Lexeme) : Text := lexemes.flatMap stripped

/-- What the reader is in the middle of; comment bodies are collected in
reverse. -/
inductive LexMode where
  | code
  | lineComment (read : Text)
  | blockComment (read : Text)

def lexFrom : LexMode → Text → List Lexeme
  | .code, [] => []
  | .code, '/' :: '/' :: t => lexFrom (.lineComment []) t
  | .code, '/' :: '*' :: t => lexFrom (.blockComment []) t
  | .code, c :: t => .code c :: lexFrom .code t
  | .lineComment read, [] => [.lineComment read.reverse false]
  | .lineComment read, '\n' :: t =>
    .lineComment read.reverse true :: lexFrom .code t
  | .lineComment read, c :: t => lexFrom (.lineComment (c :: read)) t
  | .blockComment read, [] => [.blockComment read.reverse false]
  | .blockComment read, '*' :: '/' :: t =>
    .blockComment read.reverse true :: lexFrom .code t
  | .blockComment read, c :: t => lexFrom (.blockComment (c :: read)) t

def lex (t : Text) : List Lexeme := lexFrom .code t

def stripComments (t : Text) : Text := Lexeme.strippedOf (lex t)

def LexMode.pending : LexMode → Text
  | .code => []
  | .lineComment read => '/' :: '/' :: read.reverse
  | .blockComment read => '/' :: '*' :: read.reverse

theorem textOf_lexFrom (mode : LexMode) (t : Text) :
    Lexeme.textOf (lexFrom mode t) = mode.pending ++ t := by
  unfold Lexeme.textOf
  fun_induction lexFrom mode t <;> simp_all [Lexeme.text, LexMode.pending]

@[simp] theorem textOf_lex (t : Text) : Lexeme.textOf (lex t) = t :=
  textOf_lexFrom .code t

end Bindery.Source
