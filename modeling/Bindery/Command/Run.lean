import Bindery.Binding.Output
import Bindery.Command.Invocation
import Bindery.Config
import Bindery.HeaderFiles
import Bindery.Json

/-!
# Running commands

A run ends with an exit code and with what it prints.  A failure is reported
with its causes, the last one being the deepest.
-/

namespace Bindery

structure Outcome where
  code : Nat
  stdout : Text := []
  stderr : Text := []
deriving DecidableEq

inductive Activity where
  | loadingConfig (path : Path)
  | collectingHeaders
  | readingHeaders
  | generating
  | writing

def Activity.failure : Activity → Text
  | loadingConfig path => Text.concat ["Failed to load config ", path.raw]
  | collectingHeaders => "Failed to collect headers"
  | readingHeaders => "Failed to read headers"
  | generating => "Failed to generate bindings"
  | writing => "Failed to write bindings"

inductive Failure where
  | noHeaders
  | outOfDate (stale : List Path) (total : Nat)
  | during (activity : Activity) (error : Error)
  | unreadable (fault : Fault)
  | dumpNotWritten (path : Path) (fault : Fault)

def Error.causes : Error → List Text
  | io fault => [Error.message (io fault), fault.message]
  | error => [error.message]

namespace Failure

def chain : Failure → Text × List Text
  | noHeaders => ("No headers given", [])
  | outOfDate stale total =>
    (Text.concat [Text.ofNat stale.length, " of ", Text.ofNat total,
      " files are out of date"], [])
  | during activity error => (activity.failure, error.causes)
  | unreadable fault => (Error.message (.io fault), [fault.message])
  | dumpNotWritten path fault =>
    (Text.concat ["Failed to write ", path.raw], [fault.message])

def listing : Failure → Text
  | outOfDate stale _ =>
    stale.flatMap fun p => Text.concat ["   out of date: ", p.raw, "\n"]
  | _ => []

/-- Further lines of a cause are aligned with its first line. -/
def causeText (lead : Text) (cause : Text) : Text :=
  lead ++ Text.join ('\n' :: List.replicate lead.length ' ')
    (cause.splitOn '\n')

/-- A single cause stands alone, several are numbered. -/
def causeTexts : List Text → List Text
  | [cause] => [causeText "    " cause]
  | causes =>
    causes.mapIdx fun i cause =>
      causeText (Text.concat ["    ", Text.ofNat i, ": "]) cause

def report (failure : Failure) : Text :=
  let (message, causes) := failure.chain
  let behind :=
    if causes.isEmpty then []
    else Text.concat ["\n\nCaused by:\n", Text.join "\n" (causeTexts causes)]
  Text.concat ["Error: ", message, behind, "\n"]

end Failure

namespace Outcome

def ofResult : Except Failure Text → Outcome
  | .ok stdout => { code := 0, stdout }
  | .error failure =>
    { code := 1, stdout := failure.listing, stderr := failure.report }

def usage : Text :=
  Text.join "\n" ["Usage: odegen [OPTIONS] <COMMAND>", "", "Commands:",
    "  generate [HEADERS]...  Write bindings for headers",
    "  dump [HEADERS]...      Print the entities of headers as JSON", "",
    "Options:",
    "  -c, --config <FILE>    Configuration",
    "      --embind-dir <DIR>  Emscripten bindings",
    "      --napi-dir <DIR>   Bindings for Node",
    "      --ts-dir <DIR>     Type declarations",
    "      --check            Only report files that are out of date",
    "  -o, --output <FILE>    Output of dump",
    "  -v, --verbose          More messages",
    "  -V, --version          Version", "  -h, --help             Usage", ""]

def misuse : Outcome := { code := 2, stderr := usage }

end Outcome

namespace Command

variable {m : Type → Type} [Monad m] [MonadFiles m]

def during {α : Type} (activity : Activity) (action : ExceptT Error m α) :
    ExceptT Failure m α :=
  ExceptT.adapt (Failure.during activity) action

def configFor (input : Input) : ExceptT Failure m Config := do
  let config ←
    match input.config with
    | some path => during (.loadingConfig path) (Config.load path)
    | none => pure {}
  let config :=
    if input.headers.isEmpty then config
    else { config with headers := input.headers }
  if config.headers.isEmpty then throw .noHeaders else return config

def readHeaders (config : Config) : ExceptT Failure m (List Header) := do
  let paths ← during .collectingHeaders (HeaderFiles.collect config.headers)
  during .readingHeaders (HeaderFiles.readAll config.dialect paths)

def artifactsOf (config : Config) (headers : List Header) :
    Except Error (List Artifact) :=
  let ctx : Context :=
    { dialect := config.dialect, pointerUsage := Header.combinedUsage headers
      generatorName := config.generatorName }
  renderAll (ctx.withHeaders headers) config.output headers

/-- Directories on the command line go before those of the configuration. -/
def overrideDirs (dirs base : OutputDirs) : OutputDirs :=
  { embind := dirs.embind <|> base.embind
    napi := dirs.napi <|> base.napi
    typeScript := dirs.typeScript <|> base.typeScript }

def checkFiles (artifacts : List Artifact) : ExceptT Failure m Text := do
  let stale ← ExceptT.adapt Failure.unreadable (staleArtifacts artifacts)
  if stale.isEmpty then
    return Text.concat
      ["✅ ", Text.ofNat artifacts.length, " files up to date\n"]
  else throw (.outOfDate stale artifacts.length)

def writeFiles (artifacts : List Artifact) : ExceptT Failure m Text := do
  let report ←
    during .writing (ExceptT.adapt Error.io (writeArtifacts artifacts))
  return Text.concat ["📝 ", Text.ofNat report.written.length,
    " files written, ", Text.ofNat report.unchanged.length, " unchanged\n"]

structure Plan where
  config : Config
  artifacts : List Artifact

def plan (input : Input) (dirs : OutputDirs) : ExceptT Failure m Plan := do
  let config ← configFor input
  let config := { config with output := overrideDirs dirs config.output }
  let headers ← readHeaders config
  let artifacts ←
    during .generating (ExceptT.mk (pure (artifactsOf config headers)))
  return { config, artifacts }

def generate (input : Input) (dirs : OutputDirs) (check : Bool) :
    ExceptT Failure m Text := do
  let plan ← plan input dirs
  if check then checkFiles plan.artifacts else writeFiles plan.artifacts

/-- Puts a header in its place among headers in the order of their paths.  A
path that is there already takes the later header. -/
def insertByPath (h : Header) : List Header → List Header
  | [] => [h]
  | other :: headers =>
    if h.path.raw = other.path.raw then h :: headers
    else if h.path.raw < other.path.raw then h :: other :: headers
    else other :: insertByPath h headers

def dumpOf (headers : List Header) : JsonValue :=
  let sorted := headers.foldl (fun sorted h => insertByPath h sorted) []
  .object (sorted.map fun h =>
    (h.path.raw, .array (h.entities.map Entity.toJson)))

def dump (input : Input) (output : Option Path) : ExceptT Failure m Text := do
  let config ← configFor input
  let text := (dumpOf (← readHeaders config)).pretty 0
  match output with
  | none => return Text.concat [text, "\n"]
  | some path =>
    ExceptT.adapt (Failure.dumpNotWritten path)
      (MonadFiles.write path (Text.toBytes text))
    return Text.concat ["   Output written to: ", path.raw, "\n"]

def run (args : List Text) : m Outcome :=
  match Invocation.parse? args with
  | none => return .misuse
  | some .version => return { code := 0, stdout := "odegen 0.1.0\n" }
  | some .help => return { code := 0, stdout := Outcome.usage }
  | some (.generate input dirs check) =>
    return .ofResult (← (generate input dirs check).run)
  | some (.dump input output) => return .ofResult (← (dump input output).run)

end Command

end Bindery
