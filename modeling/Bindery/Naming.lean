import Bindery.Dialect
import Bindery.Entity
import Bindery.Source.Literal
import Bindery.Text.Case

/-!
# Exposed names and derived types

Names and types that the bindings of all targets derive from entities in the
same way.
-/

namespace Bindery

def exposedName (d : Dialect) (qualifiedName : Text) : Text :=
  Text.replacePair ':' ':' "_" (d.unprefixed qualifiedName)

/-- Changes every character after an underscore to lower case. -/
def lowerInitials (previous : Char) : Text → Text
  | [] => []
  | c :: t =>
    (if previous = '_' then Text.lower c else [c]) ++ lowerInitials c t

def helperName (d : Dialect) (className accessor : Text) : Text :=
  Text.concat [d.helperPrefix, lowerInitials '_' className, "_", accessor]

/-- A number of 64 bits without sign, which may have a plus in front. -/
def arrayLength? (t : Text) : Option Nat :=
  (Source.natural? 10 ((Text.after? "+" t).getD t)).filter
    (· < 18446744073709551616)

/-- The element type and the length of an array type; of several dimensions the
last counts. -/
def arrayParts? (type : Text) : Option (Text × Nat) := do
  let head ← Text.before? "]" (Text.trimEnd type)
  let (element, length) ← Text.cutLast? '[' head
  return (Text.trim element, ← arrayLength? (Text.trim length))

/-- The element type and the length of an entity that is bound as an array: an
array instance, or a typedef with one dimension. -/
def boundArray? (e : Entity) : Option (Text × Nat) :=
  match e.category with
  | .arrayInstance => arrayParts? e.typeText
  | .typedef =>
    if e.typeText.count '[' = 1 then arrayParts? e.typeText else none
  | _ => none

/-- The type of the pointer that a pointer getter returns.  It is the constant
one if the field's type starts with `const`. -/
def dataPtrType (d : Dialect) (e : Entity) (field : Text) : Text :=
  if (e.memberType? field).any (Text.startsWith "const ") then d.constDataPtr
  else d.varDataPtr

def pointeeType? (type : Text) : Option Text :=
  (Text.before? "*" (Text.trim type)).map Text.trim

def arrayGetterFields? (value : Text) : Option (Text × Text) :=
  (Text.cut? "," value).map fun (array, length) =>
    (Text.trim array, Text.trim length)

end Bindery
