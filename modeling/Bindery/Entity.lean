import Bindery.Text.Basic

/-!
# Entities

What headers declare is kept as a flat list of entities.  An entity nested in
structs carries the names of these structs, outermost first, as its scope.
-/

namespace Bindery

inductive Category where
  | define
  | constant
  | enum
  | typedef
  | handle
  | struct
  | tuple
  | function
  | arrayInstance
deriving DecidableEq

def Category.name : Category → Text
  | define => "define"
  | constant => "const"
  | enum => "enum"
  | typedef => "typedef"
  | handle => "handle"
  | struct => "struct"
  | tuple => "tuple"
  | function => "function"
  | arrayInstance => "array_instance"

inductive MemberCategory where
  | enumValue
  | argument
  | memberVariable
  | constructorBind
  | methodBind
  | ptrGetterBind
  | arrayGetterBind
deriving DecidableEq

def MemberCategory.name : MemberCategory → Text
  | enumValue => "enum_value"
  | argument => "argument"
  | memberVariable => "member_variable"
  | constructorBind => "constructor_bind"
  | methodBind => "method_bind"
  | ptrGetterBind => "ptr_getter_bind"
  | arrayGetterBind => "array_getter_bind"

structure Member where
  category : MemberCategory
  type : Option Text := none
  name : Text
  value : Option Text := none
  description : Option Text := none
deriving DecidableEq

structure Entity where
  category : Category
  type : Option Text := none
  scope : List Text := []
  name : Text
  description : Option Text := none
  members : List Member := []
deriving DecidableEq

def qualified (scope : List Text) (name : Text) : Text :=
  (scope.flatMap fun outer => outer ++ ("::" : Text)) ++ name

def Member.typeText (m : Member) : Text := m.type.getD []

namespace Entity

def qualifiedName (e : Entity) : Text := qualified e.scope e.name

def typeText (e : Entity) : Text := e.type.getD []

def membersOf (e : Entity) (category : MemberCategory) : List Member :=
  e.members.filter (·.category = category)

/-- The type of the first member of that name that has a type. -/
def memberType? (e : Entity) (name : Text) : Option Text :=
  (e.members.find? fun m => m.name = name ∧ ¬ m.typeText.isEmpty).bind (·.type)

end Entity

end Bindery
