import Bindery.Dialect
import Bindery.Source.Compound
import Bindery.Source.Remark

/-!
# Declarations at file scope

The rules stand in the order in which they are tried.  Prototypes of exported
functions count only at the start of a line, so that those behind other markers
are passed over.
-/

namespace Bindery.Source

inductive Declaration where
  | define (name value : Text)
  | constant (type name : Text)
  | enum (compound : Compound)
  /-- The dimensions are kept as written. -/
  | typedef (type name dims : Text)
  | handle (tag name : Text)
  | struct (compound : Compound)
  | function (returnType name args : Text)
deriving DecidableEq

namespace Declaration

open Matcher

def isDefineChar (c : Char) : Bool := c.isUpper || c.isDigit || c == '_'

def isNumberStart (c : Char) : Bool :=
  c.isDigit || c == '+' || c == '-' || c == '.'

def isNumberChar (c : Char) : Bool :=
  Text.isWord c || c == '+' || c == '-' || c == '.'

def isTypeEnd (c : Char) : Bool := Text.isSpace c || c == '*'

def isTypeChar (c : Char) : Bool := Text.isWord c || isTypeEnd c

/-- The type in front of an exported function ends on the line on which it
starts. -/
def isReturnTypeEnd (c : Char) : Bool := c == ' ' || c == '\t' || c == '*'

def isReturnTypeStart (c : Char) : Bool := Text.isWord c || c == '*'

def isReturnTypeChar (c : Char) : Bool := Text.isWord c || isReturnTypeEnd c

def inlineSpaces : Matcher := run Text.isInlineSpace

def number : Matcher := sequence [one isNumberStart, run isNumberChar]

/-- A macro that stands for a number, which may be in parentheses.  Only a
comment may follow on the line. -/
def defineRule (d : Dialect) : Rule Declaration := do
  Rule.skip (sequence [literal "#define", many1 Text.isInlineSpace])
  let name ← Rule.capture
    (sequence [literal d.definePrefix, many1 isDefineChar])
  Rule.skip (run1 Text.isInlineSpace)
  let value ← Rule.capture (either number
    (sequence [literal "(", inlineSpaces, number, inlineSpaces, literal ")"]))
  Rule.skip (sequence [inlineSpaces,
    optional (either (sequence [literal "//", run notLineFeed])
      (sequence
        [literal "/*", fewest notLineFeed, literal "*/", inlineSpaces])),
    either (literal "\n") textEnd])
  return .define name.text value.text

/-- An exported constant, whose type starts or ends with `const`. -/
def constantRule (d : Dialect) : Rule Declaration := do
  Rule.skip (sequence
    [literal "extern", many1 Text.isSpace, literal d.apiMarker, spaces1])
  let type ← Rule.capture (either
    (sequence
      [literal "const", many1 Text.isSpace, many1 isTypeChar, one isTypeEnd])
    (sequence
      [one Text.isWord, many isTypeChar, one isTypeEnd, literal "const",
        spaces1]))
  let name ← Rule.capture word
  Rule.skip (sequence
    [optional (sequence [spaces, literal "=", many (· != ';')]), literal ";"])
  return .constant (Text.trim type.text) name.text

def typedefRule : Rule Declaration := do
  Rule.skip (sequence [literal "typedef", spaces1])
  let type ← Rule.capture
    (sequence [one Text.isWord, many isTypeChar, one isTypeEnd])
  Rule.skip spaces
  let name ← Rule.capture word
  Rule.skip spaces
  let dims ← Rule.capture (repeated
    (sequence
      [literal "[", spaces, run1 Char.isDigit, spaces, literal "]", spaces]))
  Rule.skip (literal ";")
  return .typedef (Text.trim type.text) name.text (Text.trim dims.text)

def handleRule (d : Dialect) : Rule Declaration := do
  Rule.skip (sequence [literal d.handleMarker, spaces, literal "(", spaces])
  let tag ← Rule.capture word
  Rule.skip (sequence [spaces, literal ")", spaces])
  let name ← Rule.capture word
  Rule.skip (sequence [spaces, literal ";"])
  return .handle tag.text name.text

/-- The arguments extend to the first closing parenthesis that a semicolon
follows. -/
def functionRule (d : Dialect) : Rule Declaration := do
  Rule.skip spaces
  let returnType ← Rule.capture
    (sequence
      [one isReturnTypeStart, many isReturnTypeChar, one isReturnTypeEnd])
  Rule.skip (sequence [literal d.apiMarker, spaces1])
  let name ← Rule.capture word
  Rule.skip (sequence [spaces, literal "(", spaces])
  let args ← Rule.capture anything
  Rule.skip (sequence [spaces, literal ")", spaces, literal ";"])
  return .function (Text.trim returnType.text) name.text args.text

def declaredBy (read : Text → Option (Declaration × Text)) (c : Cursor) :
    Option (Piece Declaration × Text) :=
  (read c.ahead).map fun (item, rest) => (.declared item, rest)

def rules (d : Dialect) : List (Cursor → Option (Piece Declaration × Text)) :=
  [ declaredBy (defineRule d).first?,
    declaredBy (constantRule d).first?,
    declaredBy fun t =>
      (Compound.read? "enum" t).map fun (c, rest) => (.enum c, rest),
    declaredBy typedefRule.first?,
    declaredBy (handleRule d).first?,
    declaredBy fun t =>
      (Compound.read? "struct" t).map fun (c, rest) => (.struct c, rest),
    fun c =>
      if c.atLineStart then declaredBy (functionRule d).first? c else none ] ++
    remarkRules

def next (d : Dialect) (c : Cursor) : Option (Found Declaration c) :=
  recognise (rules d) c

def readAll (d : Dialect) (t : Text) : List (Documented Declaration) :=
  documented ((walk (next d) (.start t)).map Located.piece)

end Declaration

end Bindery.Source
