import Bindery.Binding.Context

/-!
# Bindings for Emscripten

Each entity of a header is registered with Embind: constants, functions, enums,
classes, and values that are copied field by field or element by element.
`registration?` decides what is registered under which names; the text of the
source file is written from that.  Pointer and array getters of classes need
helper functions, which stand in front of the registrations.
-/

namespace Bindery.Embind

inductive ClassMember where
  | property (name : Text)
  | method (name expression : Text)
  | ptrGetter (name helper ptrType field : Text)
  /-- Returns an element of an array by reference, after a check of its
  index. -/
  | arrayGetter (name helper element arrayField lengthField : Text)
deriving DecidableEq

inductive Shape where
  | constant
  /-- The exposed and the qualified name of each enumerator. -/
  | enum (values : List (Text × Text))
  | handle
  | valueObject (fields : List Text)
  | classOf (constructor : Text) (members : List ClassMember)
  | tuple (elements : List Text)
  | array (element : Text) (length : Nat)
  | function
deriving DecidableEq

structure Registration where
  exposed : Text
  target : Text
  shape : Shape
deriving DecidableEq

def classMember? (d : Dialect) (e : Entity) (exposed : Text) (m : Member) :
    Option ClassMember :=
  match m.category with
  | .memberVariable =>
    if m.typeText.contains '*' then none else some (.property m.name)
  | .methodBind => some (.method m.name (m.value.getD []))
  | .ptrGetterBind =>
    let field := m.value.getD []
    some (.ptrGetter m.name (helperName d exposed m.name)
      (dataPtrType d e field) field)
  | .arrayGetterBind => do
    let (arrayField, lengthField) ← arrayGetterFields? (← m.value)
    let element ← pointeeType? (← e.memberType? arrayField)
    return .arrayGetter m.name (helperName d exposed m.name) element arrayField
      lengthField
  | _ => none

def fieldNames (e : Entity) : List Text :=
  (e.membersOf .memberVariable).map Member.name

def classShape (d : Dialect) (e : Entity) (exposed : Text) : Shape :=
  .classOf (((e.membersOf .constructorBind).head?.map Member.name).getD [])
    (e.members.filterMap (classMember? d e exposed))

def shape? (ctx : Context) (e : Entity) : Option Shape :=
  match boundArray? e with
  | some (element, length) => some (.array element length)
  | none =>
    match e.category with
    | .define | .constant => some .constant
    | .enum =>
      let lead := ctx.enumPrefix e
      some (.enum ((e.membersOf .enumValue).map fun m =>
        (strippedName lead m.name, qualified e.scope m.name)))
    | .handle => some .handle
    | .struct =>
      if ctx.isValueObject e then some (.valueObject (fieldNames e))
      else some (classShape ctx.dialect e (ctx.exposedName e))
    | .tuple => some (.tuple (fieldNames e))
    | .function => some .function
    | .typedef | .arrayInstance => none

def registration? (ctx : Context) (e : Entity) : Option Registration :=
  (shape? ctx e).map fun shape =>
    { exposed := ctx.exposedName e, target := e.qualifiedName, shape }

/-- The registrations of a header with the categories of their entities.  Array
instances that belong to another header are left out. -/
def registrations (ctx : Context) (h : Header) :
    List (Category × Registration) :=
  h.entities.filterMap fun e =>
    if e.category = .arrayInstance && !ctx.bindsArray e h.path then none
    else (registration? ctx e).map fun r => (e.category, r)

/-! ## Text -/

def indent : Text := "    "

def link (parts : List Text) : Text :=
  Text.concat ("\n" :: indent :: indent :: parts)

def ClassMember.linkText (target : Text) : ClassMember → Text
  | property name =>
    link [".property(\"", name, "\", &", target, "::", name, ")"]
  | method name expression =>
    link [".function(\"", name, "\", ", expression, ")"]
  | ptrGetter name helper _ _ =>
    link [".function(\"", name, "\", &", helper, ")"]
  | arrayGetter name helper _ _ _ =>
    link [".function(\"", name, "\", &", helper, ")"]

def ClassMember.helperText (d : Dialect) (target : Text) : ClassMember → Text
  | ptrGetter _ helper ptrType field =>
    Text.concat [ptrType, " ", helper, "(const ", target, " &x) \x7b\n", indent,
      "return reinterpret_cast<", ptrType, ">(x.", field, ");\n\x7d\n\n"]
  | arrayGetter _ helper element arrayField lengthField =>
    let reference :=
      if element.contains '*' then Text.concat [element, " const &"]
      else Text.concat ["const ", element, " &"]
    Text.concat [reference, helper, "(const ", target, " &x, int i) \x7b\n",
      indent, d.assertMacro, "(i >= 0 && i < x.", lengthField, ");\n", indent,
      "return x.", arrayField, "[i];\n\x7d\n\n"]
  | _ => []

namespace Registration

def text (r : Registration) : Text :=
  match r.shape with
  | .constant =>
    Text.concat [indent, "constant(\"", r.exposed, "\", ", r.target, ");\n"]
  | .enum values =>
    Text.concat [indent, "enum_<", r.target, ">(\"", r.exposed, "\")",
      values.flatMap fun (name, value) =>
        link [".value(\"", name, "\", ", value, ")"], ";\n"]
  | .handle =>
    Text.concat [indent, "class_<", r.target, ">(\"", r.exposed,
      "\").constructor<>();\n"]
  | .valueObject fields =>
    Text.concat [indent, "value_object<", r.target, ">(\"", r.exposed, "\")",
      fields.flatMap fun name =>
        link [".field(\"", name, "\", &", r.target, "::", name, ")"],
      ";\n"]
  | .classOf constructor members =>
    Text.concat [indent, "class_<", r.target, ">(\"", r.exposed,
      "\").constructor<>(", constructor, ")",
      members.flatMap (ClassMember.linkText r.target), ";\n"]
  | .tuple elements =>
    Text.concat [indent, "value_array<", r.target, ">(\"", r.exposed, "\")",
      elements.flatMap fun name =>
        link [".element(&", r.target, "::", name, ")"], ";\n"]
  | .array element length =>
    Text.concat [indent, "value_array<std::array<", element, ", ",
      Text.ofNat length, "> >(\"", r.exposed, "\")",
      (List.range length).flatMap fun i =>
        link [".element(emscripten::index<", Text.ofNat i, ">())"],
      ";\n"]
  | .function =>
    Text.concat [indent, "function(\"", r.exposed, "\", &", r.target,
      ", allow_raw_pointers());\n"]

def helpers (d : Dialect) (r : Registration) : Text :=
  match r.shape with
  | .classOf _ members => members.flatMap (ClassMember.helperText d r.target)
  | _ => []

end Registration

def formsRun (category : Category) : Bool :=
  category = .define || category = .constant || category = .handle ||
    category = .function

/-- Blank lines stand in front of all registrations but those that continue the
last run. -/
def registrationLines :
    (run : Option Category) → List (Category × Registration) → Text
  | _, [] => []
  | run, (category, r) :: rs =>
    (if run = some category then [] else ['\n']) ++ r.text ++
      registrationLines (if formsRun category then some category else run) rs

def render (ctx : Context) (h : Header) : Text :=
  let rs := registrations ctx h
  Text.concat ["\n#ifdef __EMSCRIPTEN__\n#ifndef NAPI_BINDINGS\n\n",
    "#include <array>\n#include <emscripten/bind.h>\n",
    if h.utilsBeside then "#include \"utils.h\"\n"
    else "#include <ode/utils.h>\n",
    "#include \"", h.fileName, "\"\n\nusing namespace emscripten;\n\n",
    rs.flatMap fun r => r.2.helpers ctx.dialect,
    "EMSCRIPTEN_BINDINGS(ode) \x7b\n", registrationLines none rs, "\n\x7d\n\n",
    "#endif // NAPI_BINDINGS\n#endif // __EMSCRIPTEN__\n"]

end Bindery.Embind
