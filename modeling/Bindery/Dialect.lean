import Bindery.Text.Basic

/-!
# Header dialects

A dialect fixes the macros and naming habits by which headers mark what is to be
bound.  The default is the dialect of the headers that the generator was made
for.
-/

namespace Bindery

structure Dialect where
  /-- Stands between return type and name of an exported function. -/
  apiMarker : Text := "ODE_API"
  /-- Constants defined as macros are exported if their name starts so. -/
  definePrefix : Text := "ODE_"
  handleMarker : Text := "ODE_HANDLE_DECL"
  tupleMarker : Text := "ODE_TUPLE"
  bindConstructor : Text := "ODE_BIND_CONSTRUCTOR"
  bindMethod : Text := "ODE_BIND_METHOD"
  bindPtrGetter : Text := "ODE_BIND_PTR_GETTER"
  bindArrayGetter : Text := "ODE_BIND_ARRAY_GETTER"
  markerIn : Text := "ODE_IN"
  markerOut : Text := "ODE_OUT"
  markerInOut : List Text := ["ODE_IN_OUT", "ODE_INOUT"]
  markerOutReturn : Text := "ODE_OUT_RETURN"
  /-- The return type of functions that report success or failure. -/
  resultType : Text := "ODE_Result"
  symbolPrefixes : List Text := ["ODE_", "ode_"]
  /-- Stripped from enumerators that share nothing else. -/
  enumValuePrefix : Text := "ODE_"
  helperPrefix : Text := "ode_"
  constDataPtr : Text := "ODE_ConstDataPtr"
  varDataPtr : Text := "ODE_VarDataPtr"
  assertMacro : Text := "ODE_ASSERT"

namespace Dialect

/-- A name without the first of the symbol prefixes that it starts with. -/
def unprefixed (d : Dialect) (name : Text) : Text :=
  (d.symbolPrefixes.findSome? (Text.after? · name)).getD name

end Dialect

end Bindery
