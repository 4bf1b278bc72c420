import Bindery.Binding.Artifact

/-!
# The command line

A command line is read from left to right.  Options start with one or two
dashes, their order and place among the operands do not matter, and `--` ends
them.
-/

namespace Bindery

structure Input where
  config : Option Path := none
  /-- If there are any, they replace the headers of the configuration. -/
  headers : List Path := []
deriving DecidableEq

inductive Invocation where
  | version
  | help
  /-- Writes bindings, or with `check` only finds out whether they are up to
  date. -/
  | generate (input : Input) (dirs : OutputDirs) (check : Bool)
  | dump (input : Input) (output : Option Path)
deriving DecidableEq

structure OptionForm where
  long : Text
  short : Option Char := none
  takesValue : Bool := false

structure Arguments where
  options : List (Text × Text) := []
  operands : List Text := []
  /-- Help was asked for; the arguments after that do not matter. -/
  help : Bool := false

namespace Arguments

/-- Every option is given at most once. -/
def setOption? (a : Arguments) (name value : Text) : Option Arguments :=
  if (a.options.lookup name).isSome then none
  else some { a with options := (name, value) :: a.options }

def setValue? (a : Arguments) (name value : Text) : Option Arguments :=
  if value.isEmpty then none else a.setOption? name value

def addOperands? (a : Arguments) (operands : List Text) : Option Arguments :=
  if operands.any List.isEmpty then none
  else some { a with operands := a.operands ++ operands }

/-- An argument that cannot be a value. -/
def isOption (arg : Text) : Bool := arg != "-" && Text.startsWith "-" arg

/-- Short options behind one dash.  The rest behind one that takes a value is
its value; if there is no rest, its name is returned, and the value is the next
argument. -/
def readCluster? (forms : List OptionForm) (a : Arguments) :
    Text → Option (Arguments × Option Text)
  | [] => some (a, none)
  | c :: rest =>
    if c = 'h' then some ({ a with help := true }, none)
    else
      match forms.find? (·.short = some c) with
      | none => none
      | some form =>
        if !form.takesValue then do
          readCluster? forms (← a.setOption? form.long []) rest
        else if rest.isEmpty then some (a, some form.long)
        else do
          let value := (Text.after? "=" rest).getD rest
          return (← a.setValue? form.long value, none)

def readLong? (forms : List OptionForm) (a : Arguments) (body : Text) :
    Option (Arguments × Option Text) := do
  if body = "help" then return ({ a with help := true }, none)
  let (name, value) :=
    match Text.cut? "=" body with
    | some (name, value) => (name, some value)
    | none => (body, none)
  let form ← forms.find? (·.long = name)
  match form.takesValue, value with
  | true, some value => return (← a.setValue? name value, none)
  | true, none => return (a, some name)
  | false, none => return (← a.setOption? name [], none)
  | false, some _ => none

/-- Reads arguments; `pending` is an option that waits for its value. -/
def read? (forms : List OptionForm) (pending : Option Text) (a : Arguments) :
    List Text → Option Arguments
  | [] => if pending.isSome then none else some a
  | arg :: args =>
    match pending with
    | some name => do
      if isOption arg then none
      read? forms none (← a.setValue? name arg) args
    | none =>
      if arg = "--" then a.addOperands? args
      else if !isOption arg then do
        read? forms none (← a.addOperands? [arg]) args
      else do
        let (a, pending) ←
          match Text.after? "--" arg with
          | some body => readLong? forms a body
          | none => readCluster? forms a (arg.drop 1)
        if a.help then return a
        read? forms pending a args

def has (a : Arguments) (name : Text) : Bool := (a.options.lookup name).isSome

def path? (a : Arguments) (name : Text) : Option Path :=
  (a.options.lookup name).map Path.mk

def input (a : Arguments) : Input := ⟨a.path? "config", a.operands.map Path.mk⟩

end Arguments

namespace Invocation

def verboseForm : OptionForm := { long := "verbose", short := some 'v' }

def configForm : OptionForm :=
  { long := "config", short := some 'c', takesValue := true }

def generateForms : List OptionForm :=
  [verboseForm, configForm, { long := "embind-dir", takesValue := true },
    { long := "napi-dir", takesValue := true },
    { long := "ts-dir", takesValue := true }, { long := "check" }]

def dumpForms : List OptionForm :=
  [verboseForm, configForm,
    { long := "output", short := some 'o', takesValue := true }]

def ofGenerate (a : Arguments) : Invocation :=
  if a.help then help
  else
    generate a.input
      { embind := a.path? "embind-dir", napi := a.path? "napi-dir",
        typeScript := a.path? "ts-dir" }
      (a.has "check")

def ofDump (a : Arguments) : Invocation :=
  if a.help then help else dump a.input (a.path? "output")

/-- Short options in front of the command.  The answer is what they ask for, or
else whether there was one for more output. -/
def leadingCluster? (verbose : Bool) : Text → Option (Invocation ⊕ Bool)
  | [] => some (.inr verbose)
  | 'V' :: _ => some (.inl version)
  | 'h' :: _ => some (.inl help)
  | 'v' :: rest => if verbose then none else leadingCluster? true rest
  | _ => none

def topics : List Text := ["generate", "dump", "help"]

def helpOn? : List Text → Option Invocation
  | [] => some help
  | [topic] => if topics.contains topic then some help else none
  | _ => none

def parseFrom? (verbose : Bool) : List Text → Option Invocation
  | [] => none
  | arg :: args =>
    if arg = "generate" then
      (Arguments.read? generateForms none {} args).map ofGenerate
    else if arg = "dump" then
      (Arguments.read? dumpForms none {} args).map ofDump
    else if arg = "help" then helpOn? args
    else if arg = "--help" then some help
    else if arg = "--version" then some version
    else if arg = "--verbose" then
      if verbose then none else parseFrom? true args
    else
      match arg with
      | '-' :: c :: cluster =>
        match leadingCluster? verbose (c :: cluster) with
        | some (.inl invocation) => some invocation
        | some (.inr verbose) => parseFrom? verbose args
        | none => none
      | _ => none

def parse? (args : List Text) : Option Invocation := parseFrom? false args

end Invocation

end Bindery
