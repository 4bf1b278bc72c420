import Bindery.Error
import Bindery.Files.Monad
import Bindery.Header

/-!
# Finding and reading headers

Inputs are headers and directories.  A directory stands for all headers in it
and below it, in the order of their names.  Progress is reported while inputs
are searched and headers are read.
-/

namespace Bindery

inductive Phase where
  | scanning
  | parsing
  | complete
deriving DecidableEq

structure Progress where
  phase : Phase
  current : Nat
  total : Nat
  message : Text

namespace Progress

/-- What is reported when inputs are searched; `found` is the number of headers,
if the search did not fail. -/
def ofScan (found : Option Nat) : List Progress :=
  ⟨.scanning, 0, 0, "Scanning inputs..."⟩ ::
    (found.map fun n =>
      ⟨.scanning, n, n,
        Text.concat ["Found ", Text.ofNat n, " headers"]⟩).toList

def ofReading (total : Nat) : List Progress :=
  let readOne (i : Nat) : Progress :=
    ⟨.parsing, i + 1, total,
      Text.concat
        ["Parsed ", Text.ofNat (i + 1), "/", Text.ofNat total, " headers"]⟩
  [⟨.parsing, 0, total, "Starting parallel parse..."⟩] ++
    (List.range total).map readOne ++
    [⟨.complete, total, total, "Parsing complete"⟩]

end Progress

namespace HeaderFiles

variable {m : Type → Type} [Monad m] [MonadFiles m]

/-- Files are ordered by name, directory by directory. -/
def precedes (a b : Location) : Bool := !decide (b < a)

def headersAmong (dir : Path) (files : List Location) : List Path :=
  let paths := (files.mergeSort precedes).map fun loc =>
    dir.join ⟨Text.join "/" loc⟩
  paths.filter fun p => p.extension? = some "h".toList

def expand (input : Path) : ExceptT Error m (List Path) := do
  match ← (MonadFiles.kind? input : m (Option FileKind)) with
  | some .directory =>
    let files ← (MonadFiles.filesBelow input : m (List Location))
    return headersAmong input files
  | some .file => return [input]
  | none => throw (.fileNotFound input)

def collect (inputs : List Path) : ExceptT Error m (List Path) :=
  return (← inputs.mapM expand).flatten

def read (d : Dialect) (p : Path) : ExceptT Error m Header := do
  let source ← ExceptT.adapt Error.io (Files.readText p)
  let utilsBeside ← (Files.isFile (p.withFileName "utils.h") : m Bool)
  return { path := p, entities := Header.parse d source, utilsBeside }

/-- Reads headers in order; the first one that cannot be read counts. -/
def readAll (d : Dialect) (paths : List Path) : ExceptT Error m (List Header) :=
  paths.mapM (read d)

end HeaderFiles

end Bindery
