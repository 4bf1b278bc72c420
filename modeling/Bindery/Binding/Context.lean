import Bindery.Direction
import Bindery.EnumPrefix
import Bindery.Header
import Bindery.Naming

/-!
# The context of a run

What the bindings of an entity depend on besides the entity: the dialect, the
pointer usage of all headers, and which header declares an array type first.
-/

namespace Bindery

structure Context where
  dialect : Dialect := {}
  pointerUsage : PointerUsage := {}
  generatorName : Text := "odegen"
  /-- The array instances of the run, each with the header that declares it; the
  first entry for a name counts. -/
  arrayOwners : List (Text × Path) := []

namespace Context

def withHeaders (ctx : Context) (headers : List Header) : Context :=
  { ctx with
    arrayOwners := headers.flatMap fun h =>
      (h.entities.filter (·.category = .arrayInstance)).map fun e =>
        (e.qualifiedName, h.path) }

def bindsArray (ctx : Context) (e : Entity) (path : Path) : Bool :=
  (ctx.arrayOwners.lookup e.qualifiedName).all (·.same path)

def exposedName (ctx : Context) (e : Entity) : Text :=
  Bindery.exposedName ctx.dialect e.qualifiedName

/-- A struct that is copied by value: no function takes it through a pointer,
and it consists of plain fields that are no pointers. -/
def isValueObject (ctx : Context) (e : Entity) : Bool :=
  e.category = .struct && !e.members.isEmpty &&
    !ctx.pointerUsage.contains e.qualifiedName &&
    e.members.all fun m =>
      m.category = .memberVariable && !m.typeText.contains '*'

def enumPrefix (ctx : Context) (e : Entity) : Text :=
  EnumPrefix.ofEntity e ctx.dialect.enumValuePrefix

def preamble (ctx : Context) : Text :=
  Text.concat ["\n// FILE GENERATED BY ", ctx.generatorName, "\n"]

end Context

def strippedName (lead name : Text) : Text := name.drop lead.length

end Bindery
