import Bindery.Files.Fault
import Bindery.Files.Path

/-!
# Errors

Errors name their cause; `message` puts them into words.
-/

namespace Bindery

inductive BindingFault where
  /-- An argument is to become the return value, but the function returns
  something of its own. -/
  | returnsOther (argument returned expected : Text)
  | manyReturns (arguments : List Text)
deriving DecidableEq

def BindingFault.message : BindingFault → Text
  | returnsOther argument returned expected =>
    Text.concat ["argument '", argument, "' is marked as return value but ",
      "the function returns '", returned, "' instead of '", expected, "'"]
  | manyReturns arguments =>
    Text.concat ["multiple return value arguments: ", Text.join ", " arguments]

inductive ConfigFault where
  | blankMarker (key : Text)
  | sharedTarget (path : Path)
deriving DecidableEq

def ConfigFault.message : ConfigFault → Text
  | blankMarker key => Text.concat ["dialect.", key, " must not be empty"]
  | sharedTarget path =>
    Text.concat ["more than one artifact targets ", path.raw]

inductive Error where
  | io (fault : Fault)
  | config (fault : ConfigFault)
  /-- A configuration file is malformed, or a value in it has the wrong
  shape. -/
  | yaml
  | binding (function : Text) (fault : BindingFault)
  | fileNotFound (path : Path)
deriving DecidableEq

def Error.message : Error → Text
  | io fault => Text.concat ["IO error: ", fault.message]
  | config fault => Text.concat ["Configuration error: ", fault.message]
  | yaml => "YAML error"
  | binding function fault =>
    Text.concat ["Cannot bind function ", function, ": ", fault.message]
  | fileNotFound path => Text.concat ["File not found: ", path.raw]

end Bindery
