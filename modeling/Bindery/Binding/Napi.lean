import Bindery.Binding.Context

/-!
# Bindings for Node-API

For each header there is a source file with a function that exports what the
header declares, wrappers of its functions, and the conversions of its types; a
header file declares the conversions.

A wrapper takes its inputs from the call, calls the function, writes outputs
back and converts the result.  The argument that becomes the return value takes
no position in the call, so the others are counted without it.
-/

namespace Bindery.Napi

/-! ## Functions -/

inductive Outcome where
  /-- Nothing: the function returns a status, which is checked. -/
  | status
  | argument (name : Text)
  | undefined
  | result
deriving DecidableEq

structure Slot where
  name : Text
  valueType : Text
  byAddress : Bool
  direction : Direction
  /-- The position in the call, which the argument that becomes the return value
  does not have. -/
  position : Option Nat
deriving DecidableEq

structure Wrapper where
  exposed : Text
  target : Text
  slots : List Slot
  outcome : Outcome
deriving DecidableEq

/-- The type of a variable whose address can be passed for a pointer, and
whether it is one. -/
def valueType (bareType : Text) : Text × Bool :=
  match Text.before? "*" bareType with
  | none => (bareType, false)
  | some pointee =>
    let pointee := Text.trim pointee
    (Text.trim ((Text.after? "const " pointee).getD pointee), true)

/-- `next` is the next free position in the call. -/
def slotsFrom (d : Dialect) (next : Nat) : List Member → List Slot
  | [] => []
  | arg :: args =>
    let type := ArgumentType.classify d arg.typeText
    let (valueType, byAddress) := valueType type.bareType
    let slot (position : Option Nat) : Slot :=
      { name := arg.name, valueType, byAddress, direction := type.direction,
        position }
    if type.direction.isReturn then slot none :: slotsFrom d next args
    else slot (some next) :: slotsFrom d (next + 1) args

def outcome (d : Dialect) (function : Entity) : Outcome :=
  if function.typeText = d.resultType then
    match returnArguments d function with
    | [] => .status
    | arg :: _ => .argument arg.name
  else if function.typeText == "void" then .undefined
  else .result

def wrapper (ctx : Context) (function : Entity) : Wrapper :=
  { exposed := ctx.exposedName function
    target := function.qualifiedName
    slots := slotsFrom ctx.dialect 0 (function.membersOf .argument)
    outcome := outcome ctx.dialect function }

/-! ## The body of a wrapper -/

structure Passed where
  name : Text
  byAddress : Bool
deriving DecidableEq

inductive Step where
  | declare (type name : Text)
  | read (position : Nat) (type name : Text)
  | call (target : Text) (passed : List Passed) (keepsResult : Bool)
  | write (position : Nat) (type name : Text)
  | check
  | returnUndefined
  | returnArgument (name : Text)
  | returnResult
deriving DecidableEq

namespace Slot

def inputs (slot : Slot) : List Step :=
  .declare slot.valueType slot.name ::
    match slot.position with
    | none => []
    | some position =>
      if slot.direction.reads then
        [.read position slot.valueType slot.name]
      else []

def outputs (slot : Slot) : List Step :=
  match slot.position with
  | none => []
  | some position =>
    if slot.direction.writes then
      [.write position slot.valueType slot.name]
    else []

def passed (slot : Slot) : Passed :=
  { name := slot.name, byAddress := slot.byAddress }

end Slot

def Outcome.steps : Outcome → List Step
  | status => [.check]
  | argument name => [.check, .returnArgument name]
  | undefined => [.returnUndefined]
  | result => [.returnResult]

def Wrapper.steps (w : Wrapper) : List Step :=
  w.slots.flatMap Slot.inputs ++
    .call w.target (w.slots.map Slot.passed) (w.outcome ≠ .undefined) ::
      (w.slots.flatMap Slot.outputs ++ w.outcome.steps)

/-! ## Text -/

structure Glue where
  declarations : Text := []
  exports : Text := []
  definitions : Text := []
  header : Text := []
deriving DecidableEq

def Glue.append (a b : Glue) : Glue :=
  { declarations := a.declarations ++ b.declarations
    exports := a.exports ++ b.exports
    definitions := a.definitions ++ b.definitions
    header := a.header ++ b.header }

def code (lines : List (List Text)) : Text :=
  lines.flatMap fun line => Text.concat line ++ ['\n']

def exportFunction (name : Text) : Text :=
  code [["    exports.Set(\"", name, "\", Napi::Function::New<node_napi_", name,
    ">(env, \"", name, "\"));"]]

def Passed.text (p : Passed) : Text :=
  if p.byAddress then '&' :: p.name else p.name

/-- `leave` is how the wrapper leaves after a failure. -/
def Step.text (leave : Text) : Step → Text
  | declare type name => code [["    ", type, " ", name, ";"]]
  | read position type name => code [
      ["    if(!Autobind<", type, ">::read_into(info[", Text.ofNat position,
        "], ", name, ")) \x7b"],
      ["        auto ex = env.GetAndClearPendingException();"],
      ["        Napi::Error::New(env, \"Failed to parse argument ", name,
        " (\"+ ex.Message() +\")\").ThrowAsJavaScriptException();"],
      ["        ", leave],
      ["    \x7d"]]
  | call target passed keepsResult =>
    code [["    ", if keepsResult then "auto result = " else "", target, "(",
      Text.join ", " (passed.map Passed.text), ");"]]
  | write position type name =>
    code [["    Autobind<", type, ">::write_from(info[", Text.ofNat position,
      "], ", name, ");"]]
  | check => code [["    if(!check_result(env,result)) ", leave]]
  | returnUndefined => code [["    return env.Undefined();"]]
  | returnArgument name =>
    code [["    return ode_napi_serialize(env, ", name, ");"]]
  | returnResult => code [["    return ode_napi_serialize(env, result);"]]

namespace Wrapper

def returnsNothing (w : Wrapper) : Bool := w.outcome = .status

def signature (w : Wrapper) : Text :=
  Text.concat [if w.returnsNothing then "void" else "Napi::Value",
    " node_napi_", w.exposed, "(const Napi::CallbackInfo& info)"]

def emptyReturn (w : Wrapper) : Text :=
  if w.returnsNothing then "return;" else "return Napi::Value();"

def definition (w : Wrapper) : Text :=
  Text.concat [
    code [[w.signature, " \x7b"], ["    Napi::Env env = info.Env();"]],
    w.steps.flatMap (Step.text w.emptyReturn), code [["\x7d"], []]]

def glue (w : Wrapper) : Glue :=
  { declarations := code [[w.signature, ";"]]
    exports := exportFunction w.exposed
    definitions := w.definition }

end Wrapper

def serializeSignature (target : Text) : Text :=
  Text.concat ["Napi::Value ode_napi_serialize(Napi::Env env, const ", target,
    "& source)"]

/-! ## Enums -/

/-- The enumerators that get a case of their own when a value is turned into its
name.  An enumerator whose initializer stood earlier, or is the name of another
one, would repeat a case.  `earlier` holds the initializers so far. -/
def caseMembersFrom (names earlier : List Text) : List Member → List Member
  | [] => []
  | m :: ms =>
    match m.value with
    | none => m :: caseMembersFrom names earlier ms
    | some value =>
      if earlier.contains value || names.contains value then
        caseMembersFrom names (value :: earlier) ms
      else m :: caseMembersFrom names (value :: earlier) ms

def caseMembers (e : Entity) : List Member :=
  let values := e.membersOf .enumValue
  caseMembersFrom (values.map Member.name) [] values

def enumGlue (ctx : Context) (e : Entity) : Glue :=
  let lead := ctx.enumPrefix e
  let name := ctx.exposedName e
  let target := e.qualifiedName
  let signature := serializeSignature target
  { exports := Text.concat [
      code [["    \x7b"],
        ["        auto ", name, " = Napi::Object::New(env);"]],
      (e.membersOf .enumValue).flatMap fun m =>
        code [["        ", name, ".Set(\"", strippedName lead m.name,
          "\", uint32_t(", qualified e.scope m.name, "));"]],
      code [["        exports.Set(\"", name, "\", ", name, ");"], ["    \x7d"]]]
    header := code [
      ["std::string ode_napi_enum_to_string(", target, " value);"],
      [signature, ";"]]
    definitions := Text.concat [
      code [["std::string ode_napi_enum_to_string(", target, " value) \x7b"],
        ["    switch(value) \x7b"]],
      (caseMembers e).flatMap fun m =>
        code [["        case ", qualified e.scope m.name, ": return \"",
          strippedName lead m.name, "\";"]],
      code [
        ["        default: return \"UNKNOWN_", name,
          "_\"+std::to_string(uint32_t(value));"],
        ["    \x7d"],
        ["\x7d"],
        [signature, " \x7b"],
        ["    return Napi::String::New(env, ode_napi_enum_to_string(source));"],
        ["\x7d"],
        []]] }

/-! ## Handles -/

def handleGlue (ctx : Context) (e : Entity) : Glue :=
  let target := e.qualifiedName
  let signature := serializeSignature target
  { exports := code [["    Handle<", target, ">::Export(exports);"]]
    header := code [[signature, ";"]]
    definitions := code [
      ["template<>"],
      ["const char* Handle<", target, ">::name = \"", ctx.exposedName e, "\";"],
      ["template<>"],
      ["bool Autobind<", target, ">::read_into(const Napi::Value& value, ",
        target, "& target) \x7b"],
      ["    auto optional = Handle<", target, ">::Read(value);"],
      ["    if(optional) \x7b target = *optional; return true; \x7d"],
      ["    return false;"],
      ["\x7d"],
      [signature, " \x7b"],
      ["    return Handle<", target, ">::serialize(env, source);"],
      ["\x7d"],
      []] }

/-! ## Structs -/

/-- Pointers travel as numbers. -/
def isPointer (type : Text) : Bool :=
  Text.endsWith "*" type || Text.endsWith "Ptr" type

def rejectField (field : Text) : Text := code [
  ["        env.GetAndClearPendingException();"],
  ["        Napi::Error::New(env, \"Invalid value for field ", field,
    "\").ThrowAsJavaScriptException();"],
  ["        return false;"],
  ["    \x7d"]]

def readField (m : Member) : Text :=
  let field := m.name
  if isPointer m.typeText then
    code [
      ["    uintptr_t ptr_", field, ";"],
      ["    if(Autobind<uintptr_t>::read_into(obj.Get(\"", field, "\"), ptr_",
        field, ")) \x7b"],
      ["        parsed.", field, " = reinterpret_cast<", m.typeText, ">(ptr_",
        field, ");"],
      ["    \x7d else \x7b"]] ++ rejectField field
  else
    code [["    if(!Autobind<", m.typeText, ">::read_into(obj.Get(\"", field,
      "\"), parsed.", field, ")) \x7b"]] ++ rejectField field

def serializeField (m : Member) : Text :=
  let field := m.name
  let source : Text :=
    if isPointer m.typeText then "(uintptr_t)source." else "source."
  code [
    ["    Napi::Value ", field, " = ode_napi_serialize(env, ", source, field,
      ");"],
    ["    if(", field, ".IsEmpty()) return Napi::Value();"],
    ["    obj.Set(\"", field, "\", ", field, ");"]]

def elementGlue (exposed target : Text) (m : Member) : Glue :=
  match m.value.bind arrayGetterFields? with
  | none => {}
  | some (entries, length) =>
    let name := Text.concat [exposed, "_", m.name]
    let signature := Text.concat ["Napi::Value node_napi_", name,
      "(const Napi::CallbackInfo& info)"]
    { declarations := code [[signature, ";"]]
      exports := exportFunction name
      definitions := code [
        [signature, " \x7b"],
        ["    Napi::Env env = info.Env();"],
        ["    ", target, " self;"],
        ["    if(!Autobind<", target,
          ">::read_into(info[0], self)) \x7b return Napi::Value(); \x7d"],
        ["    int i = info[1].As<Napi::Number>().Int32Value();"],
        ["    if(i < 0 || i >= self.", length, ") \x7b"],
        ["        Napi::RangeError::New(env, \"Index out of range\")",
          ".ThrowAsJavaScriptException();"],
        ["        return Napi::Value();"],
        ["    \x7d"],
        ["    return ode_napi_serialize(env, self.", entries, "[i]);"],
        ["\x7d"],
        []] }

def structGlue (ctx : Context) (e : Entity) : Glue :=
  let target := e.qualifiedName
  let signature := serializeSignature target
  let fields := e.membersOf .memberVariable
  let elements := (e.membersOf .arrayGetterBind).map
    (elementGlue (ctx.exposedName e) target)
  Glue.append { header := code [[signature, ";"]] } <|
  Glue.append (elements.foldl Glue.append {})
    { definitions := Text.concat [
        code [
          ["template<>"],
          ["bool Autobind<", target,
            ">::read_into(const Napi::Value& value, ", target,
            "& parsed)\x7b"],
          ["    Napi::Env env = value.Env();"],
          ["    Napi::Object obj = value.As<Napi::Object>();"]],
        fields.flatMap readField,
        code [
          ["    return true;"],
          ["\x7d"],
          [signature, " \x7b"],
          ["    Napi::Object obj = Napi::Object::New(env);"]],
        fields.flatMap serializeField,
        code [["    return obj;"], ["\x7d"], []]] }

/-! ## Headers -/

def entityGlue (ctx : Context) (e : Entity) : Glue :=
  match e.category with
  | .define | .constant =>
    { exports := code [["    exports.Set(\"", ctx.exposedName e,
        "\", Napi::Number::New(env, ", e.qualifiedName, "));"]] }
  | .enum => enumGlue ctx e
  | .handle => handleGlue ctx e
  | .function => (wrapper ctx e).glue
  | .struct => structGlue ctx e
  | category =>
    { exports := code [["    // ", category.name, " ", ctx.exposedName e,
        " is not exported"]] }

def distinctFrom (seen : List Text) : List Entity → List Entity
  | [] => []
  | e :: es =>
    if seen.contains e.qualifiedName then distinctFrom seen es
    else e :: distinctFrom (e.qualifiedName :: seen) es

structure Module where
  source : Text
  header : Text
deriving DecidableEq

def assemble (h : Header) (glue : Glue) : Module :=
  { source := Text.concat [
      "#include <string>\n#include \"addon.h\"\n#include \"napi-wrap.h\"\n",
      "#include \"gen.h\"\n\n", glue.declarations, "\nNapi::Object init_gen_",
      h.stem.map fun c => if c = '-' then '_' else c,
      "(Napi::Env env, Napi::Object exports) \x7b\n", glue.exports,
      "    return exports;\n\x7d\n\n", glue.definitions]
    header := Text.concat ["#pragma once\n#include <napi.h>\n#include <ode/",
      h.fileName, ">\n\n", glue.header] }

/-- Fails at the first function that cannot be wrapped.  In the exporting
function a blank line stands in front of the part of each entity. -/
def render (ctx : Context) (h : Header) : Except Error Module := do
  let entities := distinctFrom [] h.entities
  (entities.filter (·.category = .function)).forM (checkFunction ctx.dialect)
  let glue := entities.foldl
    (fun glue e => glue.append
      (Glue.append { exports := ['\n'] } (entityGlue ctx e))) {}
  return assemble h glue

end Bindery.Napi
