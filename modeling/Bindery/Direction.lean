import Bindery.Dialect
import Bindery.Entity
import Bindery.Error

/-!
# Directions of arguments

A marker in front of its type says whether an argument is read, written or both.
Without a marker the type decides: what a pointer to something not constant
refers to may be written.
-/

namespace Bindery

inductive Direction where
  | input
  | output
  | inOut
  /-- An output that becomes the return value of the call. -/
  | outReturn
deriving DecidableEq

namespace Direction

def reads : Direction → Bool
  | input | inOut => true
  | output | outReturn => false

def writes : Direction → Bool
  | output | inOut => true
  | input | outReturn => false

def isReturn (direction : Direction) : Bool := direction = outReturn

def declaredMarkers (d : Dialect) : List (Text × Direction) :=
  ([(d.markerIn, input), (d.markerOut, output),
      (d.markerOutReturn, outReturn)] ++
    d.markerInOut.map fun marker => (marker, inOut)).filter (!·.1.isEmpty)

/-- Longer markers come first, so that none is taken for a shorter one that it
starts with. -/
def markers (d : Dialect) : List (Text × Direction) :=
  (declaredMarkers d).mergeSort fun a b => Text.utf8Size b.1 ≤ Text.utf8Size a.1

def implicit (type : Text) : Direction :=
  match Text.before? "*" type with
  | none => input
  | some pointee =>
    if (pointee.splitOnP (!Text.isIdent ·)).contains "const" then input
    else inOut

end Direction

structure ArgumentType where
  direction : Direction
  bareType : Text
deriving DecidableEq

namespace ArgumentType

def afterMarker? (marker type : Text) : Option Text :=
  (Text.after? marker type).filter fun rest => rest.head?.any Text.isSpace

def classify (d : Dialect) (type : Text) : ArgumentType :=
  let marked := (Direction.markers d).findSome? fun (marker, direction) =>
    (afterMarker? marker (Text.trimStart type)).map fun rest =>
      (direction, rest)
  match marked with
  | some (direction, rest) => { direction, bareType := Text.trim rest }
  | none =>
    { direction := Direction.implicit (Text.trim type)
      bareType := Text.trim type }

end ArgumentType

def returnArguments (d : Dialect) (function : Entity) : List Member :=
  (function.membersOf .argument).filter fun arg =>
    (ArgumentType.classify d arg.typeText).direction.isReturn

/-- An argument can become the return value only of a function that returns
nothing but a status, and there can be only one. -/
def checkFunction (d : Dialect) (function : Entity) : Except Error Unit :=
  match (returnArguments d function).map Member.name with
  | [] => .ok ()
  | first :: others =>
    if function.typeText ≠ d.resultType then
      .error (.binding function.name
        (.returnsOther first function.typeText d.resultType))
    else if !others.isEmpty then
      .error (.binding function.name (.manyReturns (first :: others)))
    else .ok ()

end Bindery
