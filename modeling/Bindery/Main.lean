import Bindery.Command.Run

/-!
# The program

Runs commands on the files of the machine.
-/

namespace Bindery

def Fault.ofMachine : IO.Error → Fault
  | .alreadyExists .. => .alreadyExists
  | .invalidArgument .. => .nameTooLong
  | .inappropriateType _ 21 _ => .isADirectory
  | .inappropriateType .. => .notADirectory
  | .noFileOrDirectory .. => .notFound
  | .noSuchThing .. => .notFound
  | .permissionDenied _ code details =>
    .other (Text.concat
      [details.toList, " (os error ", Text.ofNat code.toNat, ")"])
  | e => .other e.toString.toList

def Path.toName (p : Path) : String := String.ofList p.raw

def onMachine {α : Type} (p : Path) (action : String → IO α) :
    ExceptT Fault IO α :=
  match p.fault? with
  | some fault => throw fault
  | none =>
    ExceptT.mk do
      try return .ok (← action p.toName)
      catch e => return .error (Fault.ofMachine e)

def machinePlace (name : String) : IO.FS.DirEntry := ⟨name, ""⟩

def machineKind? (p : Path) : IO (Option FileKind) := do
  try
    match (← (machinePlace p.toName).root.metadata).type with
    | .dir => return some .directory
    | .file => return some .file
    | _ => return none
  catch _ => return none

/-- The files in a directory and below; `above` leads to it from where the
search started. -/
partial def machineFilesBelow (dir : IO.FS.DirEntry) (above : Location) :
    IO (List Location) := do
  let entries ← try dir.root.readDir catch _ => pure #[]
  let found ← entries.toList.mapM fun entry => do
    let loc := above ++ [entry.fileName.toList]
    match (← entry.path.symlinkMetadata).type with
    | .dir => machineFilesBelow ⟨entry.path, ""⟩ loc
    | .file => return [loc]
    | _ => return []
  return found.flatten

instance : MonadFiles IO where
  kind? := machineKind?
  read p := onMachine p fun name => IO.FS.readBinFile name
  write p bytes := onMachine p fun name => IO.FS.writeBinFile name bytes
  makeDir p := onMachine p fun name => IO.FS.createDir name
  filesBelow p := machineFilesBelow (machinePlace p.toName) []

end Bindery

def main (args : List String) : IO UInt32 := do
  let outcome ← Bindery.Command.run (m := IO) (args.map String.toList)
  IO.print (String.ofList outcome.stdout)
  IO.eprint (String.ofList outcome.stderr)
  return outcome.code.toUInt32
