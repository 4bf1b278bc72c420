import Bindery.Files.System

/-!
# Access to files

The program reaches files only through `MonadFiles`.  It runs on the files of a
machine, and on a `FileSystem` that is kept as a value, where its effects can be
stated.
-/

namespace Bindery

inductive FileKind where
  | directory
  | file
deriving DecidableEq

class MonadFiles (m : Type → Type) where
  kind? : Path → m (Option FileKind)
  read : Path → ExceptT Fault m ByteArray
  write : Path → ByteArray → ExceptT Fault m Unit
  makeDir : Path → ExceptT Fault m Unit
  /-- The files in a directory and in those below it, as seen from it, in any
  order. -/
  filesBelow : Path → m (List Location)

namespace FileSystem

def kind? (fs : FileSystem) (p : Path) : Option FileKind :=
  match fs.lookup p with
  | .ok (_, .directory) => some .directory
  | .ok (_, .file _) => some .file
  | .error _ => none

/-- The outcome of a change, and the file system after it.  A failure changes
nothing. -/
def attempt (change : FileSystem → Except Fault FileSystem) (fs : FileSystem) :
    Except Fault Unit × FileSystem :=
  match change fs with
  | .ok fs => (.ok (), fs)
  | .error fault => (.error fault, fs)

end FileSystem

instance : MonadFiles (StateM FileSystem) where
  kind? p := fun fs => (fs.kind? p, fs)
  read p := ExceptT.mk fun fs => (fs.read p, fs)
  write p bytes := ExceptT.mk (FileSystem.attempt (·.write p bytes))
  makeDir p := ExceptT.mk (FileSystem.attempt (·.makeDir p))
  filesBelow p := fun fs =>
    match fs.lookup p with
    | .ok (loc, _) => (fs.filesBelow loc, fs)
    | .error _ => ([], fs)

def Text.toBytes (t : Text) : ByteArray := (String.ofList t).toUTF8

def Text.ofBytes? (bytes : ByteArray) : Option Text :=
  (String.fromUTF8? bytes).map String.toList

namespace Files

variable {m : Type → Type} [Monad m] [MonadFiles m]

def isDirectory (p : Path) : m Bool :=
  return (← MonadFiles.kind? p) = some .directory

def isFile (p : Path) : m Bool := return (← MonadFiles.kind? p) = some .file

def readText (p : Path) : ExceptT Fault m Text := do
  match Text.ofBytes? (← MonadFiles.read p) with
  | some t => return t
  | none => throw .notText

/-- A fault in creating a directory does not matter if the directory is
there. -/
def unlessDirectory (p : Path) (fault : Fault) : ExceptT Fault m Unit := do
  if ← (isDirectory p : m Bool) then return () else throw fault

def ensureDir (p : Path) : ExceptT Fault m Unit :=
  tryCatch (MonadFiles.makeDir p) (unlessDirectory p)

/-- Creates a directory and, up to `depth` levels, those above it. -/
def ensureDirsWithin : (depth : Nat) → Path → ExceptT Fault m Unit
  | 0, p => ensureDir p
  | depth + 1, p =>
    if p.raw.isEmpty then return ()
    else
      tryCatch (MonadFiles.makeDir p) fun fault =>
        match fault, p.parent? with
        | .notFound, some parent => do
          ensureDirsWithin depth parent
          ensureDir p
        | fault, _ => unlessDirectory p fault

def ensureDirs (p : Path) : ExceptT Fault m Unit :=
  ensureDirsWithin (p.raw.length + 1) p

def ensureParent (p : Path) : ExceptT Fault m Unit :=
  match p.parent? with
  | some parent => if parent.raw.isEmpty then return () else ensureDirs parent
  | none => return ()

def writeWithDirs (p : Path) (bytes : ByteArray) : ExceptT Fault m Unit := do
  ensureParent p
  MonadFiles.write p bytes

end Files

end Bindery
