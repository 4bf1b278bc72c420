import Bindery.Source.Lexeme

/-!
# Declarators and arguments

A declaration names things by declarators: pointer and reference sigils, a name,
and array dimensions.  Function arguments are read from the right, since their
name comes last.
-/

namespace Bindery.Source

/-- The identifier at the end of a text, with what precedes it.  A name does not
start with a digit. -/
def trailingIdentifier (t : Text) : Option (Text × Text) :=
  let name := (t.reverse.takeWhile Text.isIdent).reverse
  match name with
  | [] => none
  | c :: _ =>
    if c.isDigit then none
    else some ((t.reverse.dropWhile Text.isIdent).reverse, name)

structure Declarator where
  sigils : Text
  name : Text
  dims : List Text
deriving DecidableEq

/-- Takes bracketed dimensions off the end of a declarator and puts them in
front of `dims`. -/
def takeDims (head : Text) (dims : List Text) : Option (Text × List Text) :=
  match _hinner : Text.before? [']'] head with
  | none => some (head, dims)
  | some inner =>
    match _hcut : Text.cutLast? '[' inner with
    | none => none
    | some (outer, dim) => takeDims (Text.trimEnd outer) (Text.trim dim :: dims)
termination_by head.length
decreasing_by
  have h1 := congrArg List.length (Text.before?_eq_some_iff.1 _hinner)
  have h2 := Text.length_of_cutLast? _hcut
  have h3 := Text.length_trimEnd_le outer
  simp only [List.length_append, List.length_singleton] at h1
  omega

namespace Declarator

def parse? (raw : Text) : Option Declarator := do
  let (head, dims) ← takeDims (Text.trim raw) []
  let (sigils, name) ← trailingIdentifier head
  let sigils := Text.trim sigils
  if sigils.all fun c => c == '*' || c == '&' || c == ' ' || c == '\t' then
    return { sigils := sigils.filter (!Text.isSpace ·), name, dims }
  else none

def memberType (d : Declarator) (base : Text) : Text :=
  if d.sigils.isEmpty then base else Text.concat [base, " ", d.sigils]

end Declarator

/-- The type of an argument, with any direction marker, and its name.  Arguments
without a name and arrays have none. -/
def splitArgument (raw : Text) : Option (Text × Text) := do
  let isTypeEnd (c : Char) : Bool := Text.isSpace c || c == '*' || c == '&'
  let (head, name) ← trailingIdentifier (Text.trim (stripComments raw))
  if !head.getLast?.any isTypeEnd then none
  else
    let isTypeChar (c : Char) : Bool := Text.isIdent c || isTypeEnd c
    let type := Text.trim (head.reverse.takeWhile isTypeChar).reverse
    if type.isEmpty then none else return (type, name)

/-- The name under which an array type is known: the words of the element type,
a mark for each star, and the dimensions. -/
def arrayInstanceName (elementType : Text) (dims : List Text) : Text :=
  let words := (elementType.splitOnP (!Text.isIdent ·)).filter (!·.isEmpty)
  let stars := List.replicate (elementType.count '*') ("_ptr" : Text)
  let sizes := dims.map fun dim => '_' :: dim.filter Text.isIdent
  Text.concat [Text.join "_" words, stars.flatten, "_array", sizes.flatten]

def arrayType (elementType : Text) (dims : List Text) : Text :=
  elementType ++ dims.flatMap fun dim => '[' :: dim ++ [']']

def nestedMemberType (qualifier : Option Text) (qualifiedName sigils : Text) :
    Text :=
  let lead :=
    match qualifier.map Text.trim with
    | some q => if q.isEmpty || q == "typedef" then [] else q ++ [' ']
    | none => []
  Text.trim (Text.replacePair '*' ' ' "*"
    (Text.concat [lead, qualifiedName, " ", Text.trim sigils]))

end Bindery.Source
