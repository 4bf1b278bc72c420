import Bindery.Text.Basic

/-!
# Paths

A path is kept as it was written.  Two paths are the same if their components
are: repeated slashes, a slash at the end and a `.` other than at the very
beginning do not count.
-/

namespace Bindery

inductive Component where
  | root
  | current
  | parent
  | name (name : Text)
deriving DecidableEq

structure Path where
  raw : Text
deriving DecidableEq

namespace Path

instance : Coe String Path := ⟨fun s => ⟨s.toList⟩⟩

def isAbsolute (p : Path) : Bool := Text.startsWith "/" p.raw

/-- The slash or the `.` at the very beginning, and what the slashes after it
separate. -/
def parts (p : Path) : Text × List Text :=
  match p.raw with
  | '/' :: rest => (['/'], rest.splitOn '/')
  | ['.'] => (['.'], [])
  | '.' :: '/' :: rest => (['.'], ('/' :: rest).splitOn '/')
  | raw => ([], raw.splitOn '/')

def ofParts (lead : Text) (pieces : List Text) : Path :=
  ⟨lead ++ Text.join "/" pieces⟩

def isVoid (piece : Text) : Bool := piece.isEmpty || piece == "."

def pieceComponent (piece : Text) : Component :=
  if piece == ".." then .parent else .name piece

def components (p : Path) : List Component :=
  let (lead, pieces) := p.parts
  let first :=
    if lead == "/" then [Component.root]
    else if lead == "." then [Component.current] else []
  first ++ (pieces.filter (!isVoid ·)).map pieceComponent

def same (p q : Path) : Bool := p.components = q.components

/-- Drops what does not count at the end. -/
def dropVoidEnd (pieces : List Text) : List Text :=
  (pieces.reverse.dropWhile isVoid).reverse

def parent? (p : Path) : Option Path :=
  let (lead, pieces) := p.parts
  match dropVoidEnd pieces with
  | [] => if lead == "." then some ⟨[]⟩ else none
  | pieces => some (ofParts lead (dropVoidEnd pieces.dropLast))

/-- The last component, if it is a name. -/
def fileName? (p : Path) : Option Text :=
  match p.components.getLast? with
  | some (.name name) => some name
  | _ => none

def join (p q : Path) : Path :=
  if q.isAbsolute then q
  else if p.raw.isEmpty || Text.endsWith "/" p.raw then ⟨p.raw ++ q.raw⟩
  else ⟨p.raw ++ '/' :: q.raw⟩

def withFileName (p : Path) (name : Text) : Path :=
  match p.fileName? with
  | some _ => (p.parent?.getD ⟨[]⟩).join ⟨name⟩
  | none => p.join ⟨name⟩

/-- A file name before and after its last dot.  A dot at the beginning does not
count. -/
def splitExtension (name : Text) : Text × Option Text :=
  match Text.cutLast? '.' name with
  | none => (name, none)
  | some ([], _) => (name, none)
  | some (stem, extension) => (stem, some extension)

def stem? (p : Path) : Option Text :=
  p.fileName?.map fun name => (splitExtension name).1

def extension? (p : Path) : Option Text :=
  p.fileName?.bind fun name => (splitExtension name).2

end Path

end Bindery
