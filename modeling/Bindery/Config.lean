import Bindery.Binding.Artifact
import Bindery.Files.Monad
import Bindery.Yaml.Document

/-!
# Configurations

A configuration names the dialect of the headers, the headers and where to put
the bindings.  It is a YAML mapping in which every key may be left out, and keys
of other names do not count.
-/

namespace Bindery

structure Config where
  dialect : Dialect := {}
  /-- Headers, and directories that are searched for headers. -/
  headers : List Path := []
  output : OutputDirs := {}
  generatorName : Text := "odegen"

namespace Yaml

/-- Any scalar is the text that it is written with. -/
def text? : Yaml → Option Text
  | scalar text _ => some text
  | _ => none

def isNull : Yaml → Bool
  | scalar text true =>
    (["", "~", "null", "Null", "NULL"] : List Text).contains text
  | _ => false

/-- Where a collection is expected, a value that is left out stands for an empty
one. -/
def isOmitted : Yaml → Bool
  | scalar [] true => true
  | _ => false

def texts? : Yaml → Option (List Text)
  | sequence items => items.mapM text?
  | value => if value.isOmitted then some [] else none

def fields? : Yaml → Option (List (Text × Yaml))
  | mapping entries => entries.mapM fun (key, value) => key.text?.map (·, value)
  | value => if value.isOmitted then some [] else none

/-- The value of a key, decoded.  A key may not occur twice; the default is for
one that does not occur. -/
def fieldOr {α : Type} (fields : List (Text × Yaml)) (key : Text)
    (decode? : Yaml → Option α)
    (default : α) : Option α :=
  match fields.filter (·.1 = key) with
  | [] => some default
  | [(_, value)] => decode? value
  | _ => none

def path? (value : Yaml) : Option Path := value.text?.map Path.mk

def optionalPath? (value : Yaml) : Option (Option Path) :=
  if value.isNull then some none else value.path?.map some

end Yaml

def Dialect.ofYaml? (value : Yaml) : Option Dialect := do
  let fields ← value.fields?
  let base : Dialect := {}
  let text (key : Text) (default : Text) : Option Text :=
    Yaml.fieldOr fields key Yaml.text? default
  let texts (key : Text) (default : List Text) : Option (List Text) :=
    Yaml.fieldOr fields key Yaml.texts? default
  return {
    apiMarker := ← text "api_marker" base.apiMarker
    definePrefix := ← text "define_prefix" base.definePrefix
    handleMarker := ← text "handle_marker" base.handleMarker
    tupleMarker := ← text "tuple_marker" base.tupleMarker
    bindConstructor := ← text "bind_constructor" base.bindConstructor
    bindMethod := ← text "bind_method" base.bindMethod
    bindPtrGetter := ← text "bind_ptr_getter" base.bindPtrGetter
    bindArrayGetter := ← text "bind_array_getter" base.bindArrayGetter
    markerIn := ← text "marker_in" base.markerIn
    markerOut := ← text "marker_out" base.markerOut
    markerInOut := ← texts "marker_in_out" base.markerInOut
    markerOutReturn := ← text "marker_out_return" base.markerOutReturn
    resultType := ← text "result_type" base.resultType
    symbolPrefixes := ← texts "symbol_prefixes" base.symbolPrefixes
    enumValuePrefix := ← text "enum_value_prefix" base.enumValuePrefix
    helperPrefix := ← text "helper_prefix" base.helperPrefix
    constDataPtr := ← text "const_data_ptr" base.constDataPtr
    varDataPtr := ← text "var_data_ptr" base.varDataPtr
    assertMacro := ← text "assert_macro" base.assertMacro }

def OutputDirs.ofYaml? (value : Yaml) : Option OutputDirs := do
  let fields ← value.fields?
  let dir (key : Text) : Option (Option Path) :=
    Yaml.fieldOr fields key Yaml.optionalPath? none
  return {
    embind := ← dir "embind_dir"
    napi := ← dir "napi_dir"
    typeScript := ← dir "typescript_dir" }

namespace Config

def ofYaml? (value : Yaml) : Option Config := do
  let fields ← value.fields?
  let base : Config := {}
  return {
    dialect := ← Yaml.fieldOr fields "dialect" Dialect.ofYaml? base.dialect
    headers := (← Yaml.fieldOr fields "headers" Yaml.texts? []).map Path.mk
    output := ← Yaml.fieldOr fields "output" OutputDirs.ofYaml? base.output
    generatorName :=
      ← Yaml.fieldOr fields "generator_name" Yaml.text? base.generatorName }

def requiredMarkers (config : Config) : List (Text × Text) :=
  let d := config.dialect
  [("api_marker", d.apiMarker), ("handle_marker", d.handleMarker),
    ("tuple_marker", d.tupleMarker), ("result_type", d.resultType)]

def blankMarker? (config : Config) : Option Text :=
  (config.requiredMarkers.find? fun (_, marker) =>
    (Text.trim marker).isEmpty).map Prod.fst

def parse (t : Text) : Except Error Config :=
  match (Yaml.parse? t).bind ofYaml? with
  | none => .error .yaml
  | some config =>
    match config.blankMarker? with
    | some key => .error (.config (.blankMarker key))
    | none => .ok config

/-- Relative paths are seen from `base`. -/
def relativeTo (config : Config) (base : Path) : Config :=
  { config with
    headers := config.headers.map base.join
    output := {
      embind := config.output.embind.map base.join
      napi := config.output.napi.map base.join
      typeScript := config.output.typeScript.map base.join } }

variable {m : Type → Type} [Monad m] [MonadFiles m]

/-- Reads a configuration.  The paths in it are relative to the directory that
it is in. -/
def load (p : Path) : ExceptT Error m Config := do
  if (← (MonadFiles.kind? p : m (Option FileKind))).isNone then
    throw (.fileNotFound p)
  let t ← ExceptT.adapt Error.io (Files.readText p)
  let config ← ExceptT.mk (pure (parse t))
  return match p.parent? with
    | some base => config.relativeTo base
    | none => config

end Config

end Bindery
