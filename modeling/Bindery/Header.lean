import Bindery.Entity
import Bindery.Files.Path
import Bindery.PointerUsage
import Bindery.Source.Body
import Bindery.Source.Declarator
import Bindery.Source.Enumerator

/-!
# From declarations to entities

The declarations of a header become entities in the order of the source.  A
struct turns into several: array types are recorded at the first member that
needs them, nested structs and enums come before the struct around them, and a
struct without a name is dropped while what it contains stays.
-/

namespace Bindery

open Source

structure Gathered where
  entities : List Entity := []
  arrays : List Text := []
deriving DecidableEq

namespace Gathered

def push (g : Gathered) (e : Entity) : Gathered :=
  { g with entities := g.entities ++ [e] }

/-- Records the array type of a member unless one of that name is known. -/
def pushArray (g : Gathered) (elementType : Text) (dims : List Text) :
    Gathered :=
  let name := arrayInstanceName elementType dims
  if g.arrays.contains name then g
  else
    { entities := g.entities ++
        [{ category := .arrayInstance
           type := some (arrayType elementType dims)
           name }]
      arrays := name :: g.arrays }

end Gathered

/-- The members of an enum.  An enumerator without initializer continues the
numbering. -/
def enumMembersFrom :
    (previous : Option (Option Text)) → List Enumerator → List Member
  | _, [] => []
  | previous, e :: es =>
    let value := e.value.or (implicitValue previous)
    { category := .enumValue, name := e.name, value
      description := e.description } ::
      enumMembersFrom (some value) es

def enumMembers (body : Text) : List Member :=
  enumMembersFrom none ((splitList ',' body).filterMap Enumerator.parse?)

def enumEntity? (scope : List Text) (doc : Option Text) (c : Compound) :
    Option Entity :=
  c.resolvedName.map fun name =>
    { category := .enum, scope, name, description := doc
      members := enumMembers c.body }

structure Fields where
  isTuple : Bool := false
  members : List Member := []
deriving DecidableEq

def Fields.add (f : Fields) (m : Member) : Fields :=
  { f with members := f.members ++ [m] }

def nestedMember? (c : Compound) (e : Entity) : Option Member :=
  c.declaredVariable?.map fun name =>
    { category := .memberVariable
      type := some (nestedMemberType c.qualifier e.qualifiedName c.sigils)
      name
      description := e.description }

def gatherVariable (baseType : Text) (doc : Option Text)
    (s : Gathered × Fields) (raw : Text) : Gathered × Fields :=
  match Declarator.parse? raw with
  | none => s
  | some declarator =>
    let elementType := declarator.memberType baseType
    let member (type : Text) : Member :=
      { category := .memberVariable, type := some type
        name := declarator.name, description := doc }
    if declarator.dims.isEmpty then (s.1, s.2.add (member elementType))
    else
      (s.1.pushArray elementType declarator.dims,
        s.2.add (member (arrayInstanceName elementType declarator.dims)))

def gatherEntry (scope : List Text) (doc : Option Text)
    (s : Gathered × Fields) : Entry → Gathered × Fields
  | .tupleMarker => (s.1, { s.2 with isTuple := true })
  | .constructor params expression =>
    (s.1, s.2.add
      { category := .constructorBind, type := some params, name := expression
        description := doc })
  | .method signature name expression =>
    (s.1, s.2.add
      { category := .methodBind, type := some signature, name
        value := some expression, description := doc })
  | .ptrGetter name field =>
    (s.1, s.2.add
      { category := .ptrGetterBind, name, value := some field
        description := doc })
  | .arrayGetter name arrayField lengthField =>
    (s.1, s.2.add
      { category := .arrayGetterBind, name
        value := some (arrayField ++ ',' :: lengthField), description := doc })
  | .enum compound =>
    match enumEntity? scope doc compound with
    | none => s
    | some e => (s.1.push e, (nestedMember? compound e).elim s.2 s.2.add)
  | .variables baseType declarators =>
    (declarators.splitOn ',').foldl (gatherVariable baseType doc) s

def innerScope (scope : List Text) (c : Compound) : List Text :=
  scope ++ c.resolvedName.toList

def structEntity? (scope : List Text) (doc : Option Text) (c : Compound)
    (f : Fields) : Option Entity :=
  c.resolvedName.map fun name =>
    { category := if f.isTuple then .tuple else .struct
      scope, name, description := doc, members := f.members }

mutual

def gatherTree (scope : List Text) (s : Gathered × Fields) :
    Tree → Gathered × Fields
  | .entry doc entry => gatherEntry scope doc s entry
  | .nested doc compound children =>
    let (g, fields) :=
      gatherTrees (innerScope scope compound) (s.1, {}) children
    match structEntity? scope doc compound fields with
    | none => (g, s.2)
    | some e => (g.push e, (nestedMember? compound e).elim s.2 s.2.add)

def gatherTrees (scope : List Text) (s : Gathered × Fields) :
    List Tree → Gathered × Fields
  | [] => s
  | tree :: trees => gatherTrees scope (gatherTree scope s tree) trees

end

def gatherStruct (doc : Option Text) (g : Gathered) (c : Compound)
    (body : List Tree) : Gathered :=
  let (g, fields) := gatherTrees (innerScope [] c) (g, {}) body
  (structEntity? [] doc c fields).elim g g.push

/-- A comment in front of an argument documents it, else a section of the
function's documentation may. -/
def argument? (paramDocs : List (Text × Text)) (raw : Text) : Option Member :=
  (splitArgument raw).map fun (type, name) =>
    { category := .argument, type := some type, name
      description := (leadingDescription raw).or (paramDocs.lookup name) }

def functionEntity (doc : Option Text) (returnType name args : Text) : Entity :=
  let description := doc.map Description.ofText
  { category := .function, type := some returnType, name
    description := (description.map Description.general).filter (!·.isEmpty)
    members := (splitList ',' args).filterMap
      (argument? ((description.map Description.params).getD [])) }

def gatherDeclaration (d : Dialect) (g : Gathered)
    (x : Documented Declaration) : Gathered :=
  match x.item with
  | .define name value =>
    g.push
      { category := .define, type := some (guessNumberType value), name
        description := x.doc }
  | .constant type name =>
    g.push
      { category := .constant, type := some type, name, description := x.doc }
  | .typedef type name dims =>
    g.push
      { category := .typedef
        type := some (type ++ dims.filter (!Text.isSpace ·)), name
        description := x.doc }
  | .handle tag name =>
    g.push { category := .handle, type := some tag, name, description := x.doc }
  | .enum compound => (enumEntity? [] x.doc compound).elim g g.push
  | .struct compound =>
    gatherStruct x.doc g compound (Tree.readBody d compound.body)
  | .function returnType name args =>
    g.push (functionEntity x.doc returnType name args)

structure Header where
  path : Path
  entities : List Entity
  /-- Whether the header with the utilities lies beside this one. -/
  utilsBeside : Bool := false
deriving DecidableEq

namespace Header

/-- The file name without extension, after which generated files are named. -/
def stemOf (path : Path) : Text := path.stem?.getD "header"

def stem (h : Header) : Text := stemOf h.path

def fileName (h : Header) : Text := h.path.fileName?.getD []

def pointerUsage (h : Header) : PointerUsage := PointerUsage.collect h.entities

def combinedUsage (headers : List Header) : PointerUsage :=
  (headers.map pointerUsage).foldl PointerUsage.union {}

/-- The entities that a header declares, in the order of the source.  What is
not recognised is passed over. -/
def parse (d : Dialect) (source : Text) : List Entity :=
  ((Declaration.readAll d (spliceLines source)).foldl
    (gatherDeclaration d) {}).entities

end Header

end Bindery
