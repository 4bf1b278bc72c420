import Bindery.Source.Lexeme

/-!
# Splitting lists

`splitList` is for the bodies of enumerations and for arguments: separators
inside comments do not count.  `splitTopLevel` is for the arguments of binding
macros: separators inside brackets do not count, and the number of pieces may be
limited.  All pieces are trimmed.
-/

namespace Bindery.Source

def rawPieces (separator : Char) (t : Text) : List Text :=
  ((lex t).splitOnP (· = .code separator)).map Lexeme.textOf

/-- Continued lines are joined first.  An empty last piece, as a closing
separator leaves it, is dropped. -/
def splitList (separator : Char) (t : Text) : List Text :=
  let pieces := (rawPieces separator (spliceLines t)).map Text.trim
  if pieces.getLast? = some [] then pieces.dropLast else pieces

def isOpening (c : Char) : Bool := c == '(' || c == '[' || c == '{'

def isClosing (c : Char) : Bool := c == ')' || c == ']' || c == '}'

/-- `read` is the current piece so far, in reverse, and `depth` the number of
open brackets.  With one piece left to make, the rest of the text is that piece;
zero stands for no limit. -/
def splitTopLevelFrom (separator : Char) :
    (limit depth : Nat) → (read : Text) → Text → List Text
  | 1, _, read, t => [Text.trim (read.reverse ++ t)]
  | _, _, read, [] => [Text.trim read.reverse]
  | limit, depth, read, c :: t =>
    if isOpening c then
      splitTopLevelFrom separator limit (depth + 1) (c :: read) t
    else if isClosing c then
      splitTopLevelFrom separator limit (depth - 1) (c :: read) t
    else if c = separator ∧ depth = 0 then
      Text.trim read.reverse :: splitTopLevelFrom separator (limit - 1) 0 [] t
    else splitTopLevelFrom separator limit depth (c :: read) t

def splitTopLevel (separator : Char) (limit : Nat) (t : Text) : List Text :=
  splitTopLevelFrom separator limit 0 [] t

end Bindery.Source
