import Bindery.Binding.Context

/-!
# TypeScript declarations

What the bindings expose is declared for TypeScript, one declaration file for
each header.  `declaration?` decides what is declared for an entity, and the
text is written from that.
-/

namespace Bindery.TypeScript

/-! ## Types -/

def typeWords (type : Text) : List Text :=
  (type.splitOnP fun c =>
    c == '*' || c == '&' || Text.isSpace c).filter fun word =>
    !word.isEmpty && word != "const"

/-- The type of the exposed object for a type of the header: qualifiers, sigils
and direction markers are dropped, and the name starts with a capital letter. -/
def typeName (d : Dialect) (type : Text) : Text :=
  let words := typeWords (ArgumentType.classify d type).bareType
  match exposedName d (Text.join "_" words) with
  | [] => "unknown"
  | first :: rest => Text.concat ["ode.", Text.upper first, rest]

structure Param where
  name : Text
  type : Text
deriving DecidableEq

/-- The parameter at an index of a bound signature.  Without a name it is named
after the index. -/
def param (d : Dialect) (text : Text) (index : Nat) : Param :=
  let words := typeWords text
  match words.reverse with
  | name :: type :: types =>
    ⟨name, typeName d (Text.join " " (type :: types).reverse)⟩
  | _ =>
    ⟨Text.concat ["arg", Text.ofNat index], typeName d (Text.join " " words)⟩

def params (d : Dialect) (signature : Text) : List Param :=
  match Text.cut? "(" signature with
  | none => []
  | some (_, inside) =>
    let pieces := ((inside.filter (· ≠ ')')).splitOn ',').zipIdx
    (pieces.filter fun piece =>
      !(Text.trim piece.1).isEmpty).map fun (text, index) =>
      param d text index

/-- An integer literal is a type of its own; any other value is just a
number. -/
def enumValueType (value : Option Text) : Text :=
  match value with
  | none => "number"
  | some value =>
    let literal :=
      ((Text.trim value).reverse.dropWhile Source.isIntegerSuffix).reverse
    let digits := (Text.after? "-" literal).getD literal
    let isDigits (p : Char → Bool) (t : Text) : Bool := !t.isEmpty && t.all p
    let isHexDigit (c : Char) : Bool := (Source.digitValue? 16 c).isSome
    let isInteger :=
      match digits with
      | '0' :: 'x' :: hex => isDigits isHexDigit hex
      | '0' :: 'X' :: hex => isDigits isHexDigit hex
      | digits => isDigits Char.isDigit digits
    if isInteger then literal else "number"

/-! ## Declarations -/

inductive ClassMember where
  | constructor
  | property (doc : Option Text) (name type : Text)
  | method (doc : Option Text) (name : Text) (params : List Param) (type : Text)
  | ptrGetter (doc : Option Text) (name type : Text)
  | arrayGetter (doc : Option Text) (name type : Text)
deriving DecidableEq

structure Field where
  doc : Option Text
  name : Text
  type : Text
deriving DecidableEq

inductive Shape where
  | constant (type : Text)
  | enum (values : List Field)
  | handle
  | valueObject (fields : List Field)
  | classOf (constructorParams : List Param) (members : List ClassMember)
  | tuple (elements : List Param)
  | array (element : Text) (length : Nat)
  | function (params : List Param) (returnType : Text)
deriving DecidableEq

structure Declaration where
  exposed : Text
  doc : Option Text
  shape : Shape
deriving DecidableEq

/-- Constants and functions are values; all else declares a type. -/
def Declaration.declaresType (x : Declaration) : Bool :=
  match x.shape with
  | .constant _ | .function _ _ => false
  | _ => true

def classMember? (d : Dialect) (e : Entity) (m : Member) : Option ClassMember :=
  match m.category with
  | .constructorBind => some .constructor
  | .memberVariable =>
    if m.typeText.contains '*' then none
    else some (.property m.description m.name (typeName d m.typeText))
  | .methodBind =>
    let signature := m.typeText
    some (.method m.description m.name (params d signature)
      (typeName d (signature.takeWhile (· ≠ '('))))
  | .ptrGetterBind =>
    some (.ptrGetter m.description m.name
      (typeName d (dataPtrType d e (m.value.getD []))))
  | .arrayGetterBind => do
    let (arrayField, _) ← arrayGetterFields? (← m.value)
    let element ← pointeeType? (← e.memberType? arrayField)
    return .arrayGetter m.description m.name (typeName d element)
  | _ => none

/-- The declared return type: an argument that becomes the return value
determines it. -/
def returnType (d : Dialect) (function : Entity) : Text :=
  match (returnArguments d function).getLast? with
  | some arg => typeName d arg.typeText
  | none =>
    if function.typeText = d.resultType || function.typeText == "void" then
      "void"
    else typeName d function.typeText

def isReturnArgument (d : Dialect) (arg : Member) : Bool :=
  (ArgumentType.classify d arg.typeText).direction.isReturn

def functionParams (d : Dialect) (function : Entity) : List Param :=
  ((function.membersOf .argument).filter (!isReturnArgument d ·)).map fun arg =>
    ⟨arg.name, typeName d arg.typeText⟩

/-- The documentation of a function is followed by that of its parameters and of
what it returns. -/
def functionDoc (d : Dialect) (function : Entity) : Option Text :=
  let note (tag : Text) (arg : Member) : Option Text :=
    arg.description.map fun doc => Text.concat [tag, " ", arg.name, " ", doc]
  let args := function.membersOf .argument
  let paragraphs := function.description.toList ++
    (args.filter (!isReturnArgument d ·)).filterMap (note "@param") ++
    (args.filter (isReturnArgument d ·)).filterMap (note "@returns")
  let doc := Text.join "\n" paragraphs
  if doc.isEmpty then none else some doc

def fieldOf (d : Dialect) (m : Member) : Field :=
  ⟨m.description, m.name, typeName d m.typeText⟩

def shape? (ctx : Context) (e : Entity) : Option Shape :=
  let d := ctx.dialect
  match boundArray? e with
  | some (element, length) => some (.array (typeName d element) length)
  | none =>
    match e.category with
    | .define | .constant => some (.constant (typeName d e.typeText))
    | .enum =>
      let lead := ctx.enumPrefix e
      some (.enum ((e.membersOf .enumValue).map fun m =>
        ⟨m.description, strippedName lead m.name, enumValueType m.value⟩))
    | .handle => some .handle
    | .struct =>
      if ctx.isValueObject e then
        some (.valueObject ((e.membersOf .memberVariable).map (fieldOf d)))
      else
        some (.classOf
          (((e.membersOf .constructorBind).head?.map fun m =>
            params d m.typeText).getD [])
          (e.members.filterMap (classMember? d e)))
    | .tuple =>
      some (.tuple ((e.membersOf .memberVariable).map fun m =>
        ⟨m.name, typeName d m.typeText⟩))
    | .function => some (.function (functionParams d e) (returnType d e))
    | .typedef | .arrayInstance => none

def docOf (d : Dialect) (e : Entity) : Option Text :=
  match boundArray? e with
  | some (element, length) =>
    some (e.description.getD
      (Text.concat ["An array of ", Text.ofNat length, " ", element, "s"]))
  | none => if e.category = .function then functionDoc d e else e.description

def declaration? (ctx : Context) (e : Entity) : Option Declaration :=
  (shape? ctx e).map fun shape =>
    { exposed := ctx.exposedName e, doc := docOf ctx.dialect e, shape }

def typeNames (ctx : Context) (entities : List Entity) : List Text :=
  ((entities.filterMap (declaration? ctx)).filter (·.declaresType)).map
    (·.exposed)

/-! ## Text -/

def indent : Text := "    "

/-- A documentation comment.  A single line stays on one line. -/
def docText (pad : Text) : Option Text → Text
  | none => []
  | some doc =>
    if doc.contains '\n' then
      Text.concat [pad, "/**\n", pad, " * ",
        Text.join (Text.concat ["\n", pad, " * "]) (doc.splitOn '\n'), "\n",
        pad, " */\n"]
    else Text.concat [pad, "/** ", doc, " */\n"]

def paramsText (params : List Param) : Text :=
  Text.join ", " (params.map fun p => Text.concat [p.name, ": ", p.type])

def fieldText (f : Field) : Text :=
  docText indent f.doc ++ Text.concat [indent, f.name, ": ", f.type, ";\n"]

def ClassMember.text : ClassMember → Text
  | constructor => Text.concat [indent, "constructor();\n"]
  | property doc name type =>
    docText indent doc ++ Text.concat [indent, name, ": ", type, ";\n"]
  | method doc name params type =>
    docText indent doc ++
      Text.concat [indent, name, "(", paramsText params, "): ", type, ";\n"]
  | ptrGetter doc name type =>
    docText indent doc ++ Text.concat [indent, name, "(): ", type, ";\n"]
  | arrayGetter doc name type =>
    docText indent doc ++
      Text.concat [indent, name, "(i: ode.Int): ", type, ";\n"]

/-- A class is a constructor and an object type with a tag of its own. -/
def classText (name : Text) (constructorParams : List Param)
    (members : Text) : Text :=
  Text.concat ["export const ", name, ": \x7b new (",
    paramsText constructorParams, "): ode.", name,
    " \x7d;\nexport type ", name, " = \x7b\n", indent, "[EngineSymbol]: \"",
    name, "\";\n", members, indent, "delete(): void;\n\x7d;\n"]

def Declaration.text (x : Declaration) : Text :=
  let name := x.exposed
  docText [] x.doc ++
    match x.shape with
    | .constant type => Text.concat ["export const ", name, ": ", type, ";\n"]
    | .enum values =>
      Text.concat ["export const ", name, ": Enum<", name, "_Map>;\n",
        "export type ", name, " = EnumValue<", name, "_Index>;\n",
        "export type ", name, "_Index = ", name, "_Map[keyof ", name,
        "_Map];\nexport type ", name, "_Map = \x7b\n",
        values.flatMap fieldText, "\x7d;\n"]
    | .handle => classText name [] (Text.concat [indent, "constructor();\n"])
    | .valueObject fields =>
      Text.concat ["export type ", name, " = \x7b\n", fields.flatMap fieldText,
        "\x7d;\n"]
    | .classOf constructorParams members =>
      classText name constructorParams (members.flatMap ClassMember.text)
    | .tuple elements =>
      let lines := elements.map fun p =>
        Text.concat ["\n", indent, p.name, ": ", p.type]
      Text.concat ["export type ", name, " = readonly [", Text.join "," lines,
        "\n];\n"]
    | .array element length =>
      Text.concat ["export type ", name, " = readonly [\n",
        (List.replicate length (Text.concat [indent, element, ",\n"])).flatten,
        "];\n"]
    | .function params type =>
      Text.concat ["export function ", name, "(\n",
        params.flatMap fun p =>
          Text.concat [indent, p.name, ": ", p.type, ",\n"], "): ", type,
        ";\n"]

/-- A blank line stands in front of each declaration, except for a constant
right after another of the same category. -/
def declarationLines (ctx : Context) :
    (previous : Option Category) → List Entity → Text
  | _, [] => []
  | previous, e :: es =>
    let continues := (e.category = .define || e.category = .constant) &&
      previous = some e.category
    ((declaration? ctx e).elim [] fun x =>
        (if continues then [] else ['\n']) ++ x.text) ++
      declarationLines ctx (some e.category) es

def render (ctx : Context) (entities : List Entity) : Text :=
  Text.concat ["\nimport \x7b EngineSymbol, Enum, EnumValue \x7d from ",
    "\"./internal.js\";\nimport * as ode from \"./exports.js\";\n",
    declarationLines ctx none entities]

def renderIndex (names : List Text) : Text :=
  Text.concat ["\nimport * as ODE from \"./exports.js\";\n",
    "export type ODE = typeof ODE;\n\nexport type LoadODEOptions = \x7b\n",
    "    locateFile?: () => string;\n\x7d;\n\n",
    "export default function loadODE(options?: LoadODEOptions): ",
    "Promise<ODE>;\nexport const version: string;\n\nexport \x7b\n",
    names.flatMap fun name => Text.concat [indent, "type ", name, ",\n"],
    "\x7d from \"./exports.js\";\n"]

end Bindery.TypeScript
