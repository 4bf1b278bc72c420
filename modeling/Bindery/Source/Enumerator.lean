import Bindery.Source.Documentation
import Bindery.Source.Lexeme
import Bindery.Source.Literal

/-!
# Enumerators

One piece of an enumeration's body gives one enumerator.  The comments in front
of the name may document it; others belong to the neighbours and are passed
over.  An enumerator without an initializer is numbered after its predecessor.
-/

namespace Bindery.Source

structure Enumerator where
  name : Text
  value : Option Text
  description : Option Text
deriving DecidableEq

def Lexeme.documentation : Lexeme → Option Text
  | .lineComment ('/' :: body) _ =>
    some (docLinesText ('/' :: '/' :: '/' :: body))
  | .blockComment ('*' :: body) closed =>
    some (docBlockText (Lexeme.blockComment ('*' :: body) closed).text)
  | _ => none

/-- Passes over blanks and comments; the last documentation among them wins. -/
def skipLeadingComments :
    (doc : Option Text) → List Lexeme → Option Text × List Lexeme
  | doc, [] => (doc, [])
  | doc, .code c :: ls =>
    if Text.isSpace c then skipLeadingComments doc ls else (doc, .code c :: ls)
  | doc, comment :: ls => skipLeadingComments (comment.documentation.or doc) ls

def Enumerator.parse? (piece : Text) : Option Enumerator :=
  let (doc, rest) := skipLeadingComments none (lex piece)
  let code := Lexeme.strippedOf rest
  let (name, value) :=
    match Text.cut? "=" code with
    | some (name, value) => (Text.trim name, some (Text.trim value))
    | none => (Text.trim code, none)
  if name.isEmpty || !name.all Text.isIdent || value == some [] then none
  else some { name, value, description := doc.filter (!·.isEmpty) }

/-- The value of an enumerator without initializer, given that of its
predecessor: `none` if there is no predecessor, `some none` if its value is not
known. -/
def implicitValue : (previous : Option (Option Text)) → Option Text
  | none => some "0"
  | some value => (value.bind integer?).map fun n => Text.ofInt (increment n)

end Bindery.Source
