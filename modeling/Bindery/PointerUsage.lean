import Bindery.Entity

/-!
# Types used through pointers

A type that some function takes through a pointer must have an identity of its
own, so it cannot be exposed as a plain value.  The usage of a header is the set
of the names of such types, kept in ascending order.
-/

namespace Bindery

/-- `read` is the identifier read so far, in reverse. -/
def typeTokensFrom (read : Text) : Text → List Text
  | [] => if read.isEmpty then [] else [read.reverse]
  | c :: t =>
    if Text.isIdent c then typeTokensFrom (c :: read) t
    else
      (if read.isEmpty then [] else [read.reverse]) ++
        (if Text.isSpace c then [] else [[c]]) ++ typeTokensFrom [] t

def typeTokens (type : Text) : List Text := typeTokensFrom [] type

structure PointerUsage where
  names : List Text := []
deriving DecidableEq

namespace PointerUsage

def contains (usage : PointerUsage) (name : Text) : Bool :=
  usage.names.contains name

def insertSorted (name : Text) : List Text → List Text
  | [] => [name]
  | x :: xs =>
    if name = x then x :: xs
    else if name < x then name :: x :: xs
    else x :: insertSorted name xs

def insert (usage : PointerUsage) (name : Text) : PointerUsage :=
  ⟨insertSorted name usage.names⟩

def union (usage other : PointerUsage) : PointerUsage :=
  other.names.foldl insert usage

def isTypeName (token : Text) : Bool := token.head?.any Char.isAlpha

/-- The name that a star refers to, given the tokens in front of it in
reverse. -/
def pointee? : List Text → Option Text
  | last :: before :: _ =>
    if last == "const" && isTypeName before then some before
    else if isTypeName last then some last else none
  | [last] => if isTypeName last then some last else none
  | [] => none

def addTokens (usage : PointerUsage) (previous : List Text) :
    List Text → PointerUsage
  | [] => usage
  | token :: tokens =>
    let usage :=
      if token = ['*'] then (pointee? previous).elim usage usage.insert
      else usage
    addTokens usage (token :: previous) tokens

/-- Adds every name in a type that is directly followed by a star, or by `const`
and a star. -/
def addType (usage : PointerUsage) (type : Text) : PointerUsage :=
  usage.addTokens [] (typeTokens type)

def collect (entities : List Entity) : PointerUsage :=
  let functions := entities.filter (·.category = .function)
  let types := functions.flatMap fun f =>
    (f.membersOf .argument).map Member.typeText
  types.foldl addType {}

end PointerUsage

end Bindery
