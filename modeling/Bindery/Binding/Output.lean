import Bindery.Binding.Artifact
import Bindery.Files.Monad

/-!
# Writing generated files

A file that already has the right contents is left alone, so that its time of
change stays the same.
-/

namespace Bindery

structure WriteReport where
  written : List Path := []
  unchanged : List Path := []

def WriteReport.note (report : WriteReport) (path : Path) (isWritten : Bool) :
    WriteReport :=
  if isWritten then { report with written := path :: report.written }
  else { report with unchanged := path :: report.unchanged }

variable {m : Type → Type} [Monad m] [MonadFiles m]

def Artifact.isStale (a : Artifact) : ExceptT Fault m Bool :=
  tryCatch (return (← MonadFiles.read a.path).data ≠
      (Text.toBytes a.contents).data) fun fault =>
    if fault = .notFound then return true else throw fault

/-- Brings the file up to date; the answer is whether it had to be written. -/
def Artifact.update (a : Artifact) : ExceptT Fault m Bool := do
  if ← a.isStale then
    Files.writeWithDirs a.path (Text.toBytes a.contents)
    return true
  else return false

def staleArtifacts (artifacts : List Artifact) : ExceptT Fault m (List Path) :=
  return (← artifacts.filterM Artifact.isStale).map Artifact.path

def writeArtifacts : List Artifact → ExceptT Fault m WriteReport
  | [] => return {}
  | a :: artifacts => do
    let isWritten ← a.update
    let report ← writeArtifacts artifacts
    return report.note a.path isWritten

end Bindery
