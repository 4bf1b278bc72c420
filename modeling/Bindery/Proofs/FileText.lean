import Bindery.Proofs.Enumerations

/-!
# Files as they are written, and the entities they stand for

A file is a list of statements of six kinds.  Every statement ends with a line
feed and may have a line of documentation in front.  The names are arbitrary
identifiers, keywords and markers included.  Each statement stands for one
entity.
-/

namespace Bindery.Written

open Source

/-- The part of a macro's name behind the common beginning. -/
structure MacroName where
  text : Text
  ne_nil : text ≠ []
  isDefineChar : ∀ c ∈ text, Declaration.isDefineChar c = true

/-- A number, which starts with a digit. -/
structure Number where
  head : Char
  tail : Text
  head_isDigit : head.isDigit = true
  tail_isNumber : ∀ c ∈ tail, (Text.isIdent c || c == '.') = true

def Number.text (n : Number) : Text := n.head :: n.tail

structure Argument where
  type : Identifier
  pointer : Bool
  name : Identifier

inductive Statement where
  | define (name : MacroName) (value : Number)
  | constant (type name : Identifier)
  | typedef (type name : Identifier)
  | handle (type name : Identifier)
  | enum (enumerators : List Enumerator) (name : Identifier)
  | function (type name : Identifier) (args : List Argument)

/-- A line of documentation. -/
structure DocLine where
  text : Text
  ne_nil : text ≠ []
  trimmed : Text.trim text = text
  oneLine : '\n' ∉ text
  noBackslash : '\\' ∉ text
  noSection : '@' ∉ text
  start : ∀ c ∈ text.head?, c ≠ '/' ∧ c ≠ '*'

structure FileItem where
  doc : Option DocLine
  statement : Statement

/-! ## Writing -/

namespace Argument

def sigils (a : Argument) : Text := if a.pointer then ['*'] else []

def text (a : Argument) : Text :=
  a.type.text ++ ' ' :: (a.sigils ++ a.name.text)

end Argument

def argsText (args : List Argument) : Text :=
  commaed (args.map Argument.text)

def enumFrame (name : Identifier) : Frame := ⟨true, none, some ⟨false, name⟩⟩

/-- Words with blanks between them. -/
def inWords (words : List Text) : Text := Text.join [' '] words

def Statement.text : Statement → Text
  | .define name value =>
    inWords ["#define", ("ODE_" : Text) ++ name.text, value.text]
  | .constant type name =>
    inWords ["extern", "ODE_API", "const", type.text, name.text] ++ [';']
  | .typedef type name =>
    inWords ["typedef", type.text, name.text] ++ [';']
  | .handle type name =>
    inWords [("ODE_HANDLE_DECL" : Text) ++ '(' :: (type.text ++ [')']),
      name.text] ++ [';']
  | .enum enumerators name =>
    (enumFrame name).text "enum" (enumText enumerators)
  | .function type name args =>
    inWords [type.text, "ODE_API",
      name.text ++ '(' :: (argsText args ++ [')'])] ++ [';']

def DocLine.line (d : DocLine) : Text := inWords ["///", d.text] ++ ['\n']

def FileItem.text (i : FileItem) : Text :=
  (i.doc.map DocLine.line).getD [] ++ (i.statement.text ++ ['\n'])

def fileText (items : List FileItem) : Text := items.flatMap FileItem.text

/-! ## The entities -/

/-- A star is kept with the type. -/
def Argument.member (a : Argument) : Member :=
  { category := .argument
    type := some (a.type.text ++ if a.pointer then [' ', '*'] else [])
    name := a.name.text }

def Statement.entity (doc : Option Text) : Statement → Entity
  | .define name value =>
    { category := .define
      type := some (guessNumberType value.text)
      name := ("ODE_" : Text) ++ name.text
      description := doc }
  | .constant type name =>
    { category := .constant
      type := some (inWords ["const", type.text])
      name := name.text
      description := doc }
  | .typedef type name =>
    { category := .typedef
      type := some type.text
      name := name.text
      description := doc }
  | .handle type name =>
    { category := .handle
      type := some type.text
      name := name.text
      description := doc }
  | .enum enumerators name =>
    { category := .enum
      name := name.text
      description := doc
      members := enumMembersFrom (some 0) enumerators }
  | .function type name args =>
    { category := .function
      type := some type.text
      name := name.text
      description := doc
      members := args.map Argument.member }

def FileItem.entity (i : FileItem) : Entity :=
  i.statement.entity (i.doc.map DocLine.text)

end Bindery.Written
