import Bindery.Proofs.RenderedFiles

/-!
# The calling convention of exported functions

A function is exposed twice: the Node-API wrapper makes the call, and the
TypeScript declaration tells how to call the wrapper.  The two go over the
arguments on their own.  Here they are compared with one list, the arguments
that the caller passes, in order and without the one that becomes the return
value.  `wrapperText` and `declarationText` are the texts that this list leads
to, up to how the wrapper ends and which type is declared for what it returns.

The wrapper counts positions while it walks over all arguments.  The lemmas
about `slotsFrom` replace that count by the place in the list of passed
arguments.  What is returned is settled by cases: `checkFunction` leaves only
four combinations of return type and arguments.
-/

namespace Bindery

/-- The direction in which an argument travels. -/
def Member.direction (d : Dialect) (arg : Member) : Direction :=
  (ArgumentType.classify d arg.typeText).direction

/-- The type of an argument without its marker. -/
def Member.bareType (d : Dialect) (arg : Member) : Text :=
  (ArgumentType.classify d arg.typeText).bareType

theorem Direction.reads_iff {direction : Direction} :
    direction.reads = true ↔ direction ∈ [input, inOut] := by
  cases direction <;> simp [reads]

theorem Direction.writes_iff {direction : Direction} :
    direction.writes = true ↔ direction ∈ [output, inOut] := by
  cases direction <;> simp [writes]

/-- The arguments that the caller passes. -/
def Entity.parameters (d : Dialect) (function : Entity) : List Member :=
  (function.membersOf .argument).filter fun arg =>
    arg.direction d ≠ .outReturn

/-- Either nothing becomes the return value, or one argument of a function that
returns a status. -/
theorem checkFunction_eq_ok_iff {d : Dialect} {function : Entity} :
    checkFunction d function = .ok () ↔
      returnArguments d function = [] ∨
        function.typeText = d.resultType ∧
          ∃ arg, returnArguments d function = [arg] := by
  unfold checkFunction
  cases returnArguments d function with
  | nil => simp
  | cons arg args =>
      by_cases htype : function.typeText = d.resultType
      · cases args with
        | nil => simp [htype]
        | cons other others => simp [htype]
      · simp [htype]

theorem TypeScript.typeName_ne_void (d : Dialect) (type : Text) :
    typeName d type ≠ "void" := by
  unfold typeName
  dsimp only
  split
  · decide
  · simp [Text.concat]

theorem TypeScript.functionParams_eq (d : Dialect) (function : Entity) :
    functionParams d function = (function.parameters d).map fun arg =>
      ⟨arg.name, typeName d arg.typeText⟩ := by
  have hpassed : ∀ arg : Member, (!isReturnArgument d arg) =
      decide (arg.direction d ≠ .outReturn) := by
    intro arg
    rw [decide_not]
    rfl
  simp only [functionParams, Entity.parameters, hpassed]

namespace Napi

/-! ## Positions -/

/-- How a wrapper deals with an argument at a position. -/
def slotOf (d : Dialect) (arg : Member) (position : Option Nat) : Slot :=
  { name := arg.name
    valueType := (valueType (arg.bareType d)).1
    byAddress := (valueType (arg.bareType d)).2
    direction := arg.direction d
    position }

theorem slotsFrom_cons_return {d : Dialect} {arg : Member}
    (h : arg.direction d = .outReturn) (next : Nat) (args : List Member) :
    slotsFrom d next (arg :: args) =
      slotOf d arg none :: slotsFrom d next args := by
  rw [Member.direction] at h
  simp [slotsFrom, slotOf, Direction.isReturn, h, Member.direction,
    Member.bareType]

theorem slotsFrom_cons_passed {d : Dialect} {arg : Member}
    (h : arg.direction d ≠ .outReturn) (next : Nat) (args : List Member) :
    slotsFrom d next (arg :: args) =
      slotOf d arg (some next) :: slotsFrom d (next + 1) args := by
  rw [Member.direction] at h
  simp [slotsFrom, slotOf, Direction.isReturn, h, Member.direction,
    Member.bareType]

theorem valueType_byAddress (bareType : Text) :
    (valueType bareType).2 = Text.endsWith "*" bareType := by
  unfold valueType Text.endsWith
  cases Text.before? "*" bareType with
  | none => rfl
  | some pointee => rfl

/-- All arguments are passed on, in the order of their declaration. -/
theorem passed_slotsFrom (d : Dialect) (next : Nat) (args : List Member) :
    (slotsFrom d next args).map Slot.passed =
      args.map fun arg =>
        { name := arg.name
          byAddress := Text.endsWith "*" (arg.bareType d) } := by
  induction args generalizing next with
  | nil => rfl
  | cons arg args ih =>
      have hslot : ∀ position, (slotOf d arg position).passed =
          { name := arg.name
            byAddress := Text.endsWith "*" (arg.bareType d) } := by
        intro position
        rw [← valueType_byAddress]
        rfl
      by_cases h : arg.direction d = .outReturn
      · rw [slotsFrom_cons_return h, List.map_cons, hslot, ih, List.map_cons]
      · rw [slotsFrom_cons_passed h, List.map_cons, hslot, ih, List.map_cons]

/-! ## Texts by the convention -/

/-- The place of the argument at an index among those that the caller
passes. -/
def place (d : Dialect) (args : List Member) (i : Nat) : Nat :=
  ((args.take i).filter fun arg => arg.direction d ≠ .outReturn).length

/-- The type of the variable in which a wrapper keeps an argument. -/
def variableType (d : Dialect) (arg : Member) : Text :=
  (valueType (arg.bareType d)).1

def line (parts : List Text) : Text := Text.concat parts ++ ['\n']

/-- An argument is read from its place in the call; `leave` is how the wrapper
leaves if that fails. -/
def readText (d : Dialect) (leave : Text) (arg : Member) (place : Nat) : Text :=
  Text.concat [
    line ["    if(!Autobind<", variableType d arg, ">::read_into(info[",
      Text.ofNat place, "], ", arg.name, ")) \x7b"],
    line ["        auto ex = env.GetAndClearPendingException();"],
    line ["        Napi::Error::New(env, \"Failed to parse argument ",
      arg.name, " (\"+ ex.Message() +\")\").ThrowAsJavaScriptException();"],
    line ["        ", leave],
    line ["    \x7d"]]

/-- Every argument is kept in a variable, and inputs are read. -/
def inputText (d : Dialect) (leave : Text) (arg : Member) (place : Nat) :
    Text :=
  line ["    ", variableType d arg, " ", arg.name, ";"] ++
    if arg.direction d ∈ [.input, .inOut] then readText d leave arg place
    else []

/-- Pointers are passed as addresses of variables. -/
def passedText (d : Dialect) (arg : Member) : Text :=
  if Text.endsWith "*" (arg.bareType d) then '&' :: arg.name else arg.name

/-- Outputs are written back to their place in the call. -/
def outputText (d : Dialect) (arg : Member) (place : Nat) : Text :=
  if arg.direction d ∈ [.output, .inOut] then
    line ["    Autobind<", variableType d arg, ">::write_from(info[",
      Text.ofNat place, "], ", arg.name, ");"]
  else []

def leaveText (outcome : Outcome) : Text :=
  if outcome = .status then "return;" else "return Napi::Value();"

/-- What the call gives is kept, unless it is nothing. -/
def keepText (outcome : Outcome) : Text :=
  if outcome = .undefined then "" else "auto result = "

def endText : Outcome → Text
  | .status => line ["    if(!check_result(env,result)) ", "return;"]
  | .argument name =>
    line ["    if(!check_result(env,result)) ", "return Napi::Value();"] ++
      line ["    return ode_napi_serialize(env, ", name, ");"]
  | .undefined => line ["    return env.Undefined();"]
  | .result => line ["    return ode_napi_serialize(env, result);"]

/-- The definition of a wrapper that ends in the given way. -/
def wrapperText (ctx : Context) (function : Entity) (outcome : Outcome) :
    Text :=
  let d := ctx.dialect
  let args := function.membersOf .argument
  Text.concat [
    line [if outcome = .status then "void" else "Napi::Value", " node_napi_",
      ctx.exposedName function, "(const Napi::CallbackInfo& info)", " \x7b"],
    line ["    Napi::Env env = info.Env();"],
    args.zipIdx.flatMap fun x =>
      inputText d (leaveText outcome) x.1 (place d args x.2),
    line ["    ", keepText outcome, function.qualifiedName, "(",
      Text.join ", " (args.map (passedText d)), ");"],
    (function.parameters d).zipIdx.flatMap fun x => outputText d x.1 x.2,
    endText outcome,
    line ["\x7d"],
    line []]

/-- The declaration of a function with the given return type. -/
def declarationText (ctx : Context) (function : Entity) (returnType : Text) :
    Text :=
  let d := ctx.dialect
  TypeScript.docText [] (TypeScript.functionDoc d function) ++
    Text.concat ["export function ", ctx.exposedName function, "(\n",
      (function.parameters d).flatMap fun arg => Text.concat ["    ", arg.name,
        ": ", TypeScript.typeName d arg.typeText, ",\n"],
      "): ", returnType, ";\n"]

/-- The place of an argument is its index among those that are passed. -/
theorem getElem?_place {d : Dialect} {args : List Member} {i : Nat}
    {arg : Member} (harg : args[i]? = some arg)
    (hpassed : arg.direction d ≠ .outReturn) :
    (args.filter fun arg => arg.direction d ≠ .outReturn)[place d args i]? =
      some arg := by
  induction args generalizing i with
  | nil => simp at harg
  | cons first args ih =>
      cases i with
      | zero =>
          rw [List.getElem?_cons_zero, Option.some.injEq] at harg
          simp [place, harg, hpassed]
      | succ i =>
          have hrest := ih harg
          by_cases hfirst : first.direction d = .outReturn
          · simpa [place, hfirst] using hrest
          · simpa [place, hfirst] using hrest

theorem place_cons_succ (d : Dialect) (arg : Member) (args : List Member)
    (i : Nat) :
    place d (arg :: args) (i + 1) =
      (if arg.direction d = .outReturn then 0 else 1) + place d args i := by
  by_cases harg : arg.direction d = .outReturn
  · simp [place, harg]
  · simp [place, harg, Nat.add_comm]

/-! ## The text of a wrapper -/

theorem code_nil : code [] = [] := rfl

theorem code_cons (parts : List Text) (lines : List (List Text)) :
    code (parts :: lines) = line parts ++ code lines :=
  List.flatMap_cons

section Text

variable (d : Dialect) (leave : Text)

theorem text_inputs_return {arg : Member} (h : arg.direction d = .outReturn)
    (place : Nat) :
    (slotOf d arg none).inputs.flatMap (Step.text leave) =
      inputText d leave arg place := by
  simp [Slot.inputs, slotOf, Step.text, inputText, variableType, code_cons,
    code_nil, h]

theorem text_inputs_passed (arg : Member) (place : Nat) :
    (slotOf d arg (some place)).inputs.flatMap (Step.text leave) =
      inputText d leave arg place := by
  by_cases hread : arg.direction d ∈ [.input, .inOut]
  · have hreads := Direction.reads_iff.mpr hread
    simp [Slot.inputs, slotOf, Step.text, inputText, readText, variableType,
      code_cons, code_nil, Text.concat, hread, hreads]
  · have hreads := mt Direction.reads_iff.mp hread
    simp [Slot.inputs, slotOf, Step.text, inputText, variableType, code_cons,
      code_nil, hread, hreads]

theorem text_inputs (next : Nat) (args : List Member) :
    (slotsFrom d next args).flatMap
        (fun slot => slot.inputs.flatMap (Step.text leave)) =
      args.zipIdx.flatMap fun x =>
        inputText d leave x.1 (next + place d args x.2) := by
  induction args generalizing next with
  | nil => rfl
  | cons arg args ih =>
      rw [List.zipIdx_cons, List.zipIdx_succ, List.flatMap_cons,
        List.flatMap_map]
      simp only [place_cons_succ]
      by_cases hreturn : arg.direction d = .outReturn
      · rw [slotsFrom_cons_return hreturn, List.flatMap_cons, ih,
          text_inputs_return d leave hreturn
            (next + place d (arg :: args) 0)]
        simp [hreturn]
      · rw [slotsFrom_cons_passed hreturn, List.flatMap_cons, ih,
          text_inputs_passed]
        simp [hreturn, place, Nat.add_assoc]

theorem text_outputs_passed (arg : Member) (place : Nat) :
    (slotOf d arg (some place)).outputs.flatMap (Step.text leave) =
      outputText d arg place := by
  by_cases hwrite : arg.direction d ∈ [.output, .inOut]
  · have hwrites := Direction.writes_iff.mpr hwrite
    simp [Slot.outputs, slotOf, Step.text, outputText, variableType,
      code_cons, code_nil, hwrite, hwrites]
  · have hwrites := mt Direction.writes_iff.mp hwrite
    simp [Slot.outputs, slotOf, outputText, hwrite, hwrites]

theorem text_outputs (next : Nat) (args : List Member) :
    (slotsFrom d next args).flatMap
        (fun slot => slot.outputs.flatMap (Step.text leave)) =
      ((args.filter fun arg => arg.direction d ≠ .outReturn).zipIdx
        next).flatMap fun x => outputText d x.1 x.2 := by
  induction args generalizing next with
  | nil => rfl
  | cons arg args ih =>
      by_cases hreturn : arg.direction d = .outReturn
      · rw [slotsFrom_cons_return hreturn, List.flatMap_cons, ih]
        simp [hreturn, Slot.outputs, slotOf]
      · rw [slotsFrom_cons_passed hreturn, List.flatMap_cons, ih,
          text_outputs_passed]
        simp [hreturn]

theorem text_passed (next : Nat) (args : List Member) :
    ((slotsFrom d next args).map Slot.passed).map Passed.text =
      args.map (passedText d) := by
  rw [passed_slotsFrom, List.map_map]
  rfl

theorem text_outcome (outcome : Outcome) :
    outcome.steps.flatMap (Step.text (leaveText outcome)) =
      endText outcome := by
  cases outcome <;>
    simp only [Outcome.steps, Step.text, leaveText, endText, code_cons,
      code_nil, List.flatMap_cons, List.flatMap_nil, List.append_nil,
      if_true, reduceCtorEq, if_false]

end Text

theorem emptyReturn_eq (w : Wrapper) : w.emptyReturn = leaveText w.outcome := by
  unfold Wrapper.emptyReturn Wrapper.returnsNothing leaveText
  by_cases h : w.outcome = .status
  · simp [h]
  · simp [h]

theorem signature_eq (w : Wrapper) :
    w.signature = Text.concat [
      if w.outcome = .status then "void" else "Napi::Value", " node_napi_",
      w.exposed, "(const Napi::CallbackInfo& info)"] := by
  unfold Wrapper.signature Wrapper.returnsNothing
  by_cases h : w.outcome = .status
  · simp [h]
  · simp [h]

theorem text_call (leave target : Text) (passed : List Passed)
    (outcome : Outcome) :
    Step.text leave (.call target passed (outcome ≠ .undefined)) =
      line ["    ", keepText outcome, target, "(",
        Text.join ", " (passed.map Passed.text), ");"] := by
  rw [Step.text, code_cons, code_nil, List.append_nil]
  by_cases h : outcome = .undefined
  · simp [h, keepText]
  · simp [h, keepText]

/-- A wrapper is defined as the convention says. -/
theorem definition_wrapper (ctx : Context) (function : Entity) :
    (wrapper ctx function).definition =
      wrapperText ctx function (outcome ctx.dialect function) := by
  have hoperation : (wrapper ctx function).outcome =
      outcome ctx.dialect function := rfl
  rw [Wrapper.definition, emptyReturn_eq, signature_eq, Wrapper.steps]
  rw [List.flatMap_append, List.flatMap_cons, List.flatMap_append, text_call,
    text_outcome, List.flatMap_assoc, List.flatMap_assoc]
  rw [hoperation]
  generalize outcome ctx.dialect function = o
  simp only [wrapper, text_inputs, text_outputs, text_passed, code_cons,
    code_nil, wrapperText, Text.concat, List.flatten_cons, List.flatten_nil,
    List.append_nil, Nat.zero_add, line, Entity.parameters,
    List.append_assoc]

/-- How a wrapper ends, and the type that is declared for what it returns. -/
inductive ReturnCase (d : Dialect) (function : Entity) :
    Outcome → Text → Prop
  | status (h : returnArguments d function = []) :
      ReturnCase d function .status "void"
  | argument {arg : Member} (h : returnArguments d function = [arg]) :
      ReturnCase d function (.argument arg.name)
        (TypeScript.typeName d arg.typeText)
  | undefined (h : returnArguments d function = []) :
      ReturnCase d function .undefined "void"
  | result (h : returnArguments d function = []) :
      ReturnCase d function .result
        (TypeScript.typeName d function.typeText)

theorem returnCase_of_checkFunction {d : Dialect} {function : Entity}
    (h : checkFunction d function = .ok ()) :
    ReturnCase d function (outcome d function)
      (TypeScript.returnType d function) := by
  unfold outcome TypeScript.returnType
  rcases checkFunction_eq_ok_iff.mp h with hargs | ⟨htype, arg, hargs⟩
  · by_cases hresult : function.typeText = d.resultType
    · simp only [hargs, hresult, List.getLast?_nil, decide_true,
        Bool.true_or, if_true]
      exact .status hargs
    · by_cases hvoid : (function.typeText == "void".toList) = true
      · simp only [hargs, hresult, hvoid, List.getLast?_nil, if_false,
          Bool.or_true, if_true]
        exact .undefined hargs
      · simp only [hargs, hresult, hvoid, List.getLast?_nil, if_false,
          decide_false, Bool.or_false, Bool.false_eq_true]
        exact .result hargs
  · simp only [hargs, htype, if_true, List.getLast?_singleton]
    exact .argument hargs

namespace ReturnCase

variable {d : Dialect} {function : Entity} {outcome : Outcome} {type : Text}

theorem void_iff (h : ReturnCase d function outcome type) :
    type = "void" ↔ outcome = .status ∨ outcome = .undefined := by
  cases h with
  | status _ => simp
  | argument _ =>
      exact iff_of_false (TypeScript.typeName_ne_void _ _) (by simp)
  | undefined _ => simp
  | result _ =>
      exact iff_of_false (TypeScript.typeName_ne_void _ _) (by simp)

theorem argument_type (h : ReturnCase d function outcome type)
    {arg : Member} (harg : arg ∈ returnArguments d function) :
    outcome = .argument arg.name ∧
      type = TypeScript.typeName d arg.typeText := by
  cases h with
  | status hargs => simp [hargs] at harg
  | argument hargs =>
      rw [hargs, List.mem_singleton] at harg
      rw [harg]
      exact ⟨rfl, rfl⟩
  | undefined hargs => simp [hargs] at harg
  | result hargs => simp [hargs] at harg

theorem exists_argument (h : ReturnCase d function outcome type)
    {name : Text} (hname : outcome = .argument name) :
    ∃ arg ∈ returnArguments d function, arg.name = name := by
  cases h with
  | status _ => contradiction
  | argument hargs =>
      rw [hargs]
      exact ⟨_, List.mem_singleton_self _, Outcome.argument.inj hname⟩
  | undefined _ => contradiction
  | result _ => contradiction

theorem result_iff (h : ReturnCase d function outcome type) :
    outcome = .result ↔
      type ≠ "void" ∧ returnArguments d function = [] := by
  cases h with
  | status _ => simp
  | argument hargs => simp [hargs]
  | undefined _ => simp
  | result hargs =>
      exact iff_of_true rfl ⟨TypeScript.typeName_ne_void _ _, hargs⟩

theorem result_type (h : ReturnCase d function outcome type)
    (hresult : outcome = .result) :
    type = TypeScript.typeName d function.typeText := by
  cases h with
  | status _ => contradiction
  | argument _ => contradiction
  | undefined _ => contradiction
  | result _ => rfl

end ReturnCase

/-! ## What can be told from the texts -/

theorem head?_wrapperText (ctx : Context) (function : Entity) (o : Outcome) :
    (wrapperText ctx function o).head? =
      some (if o = .status then 'v' else 'N') := by
  by_cases h : o = .status
  · simp [wrapperText, line, Text.concat, h]
  · simp [wrapperText, line, Text.concat, h]

/-- Wrappers with a value differ only in how they keep the result and in how
they end. -/
theorem exists_wrapperText_eq (ctx : Context) (function : Entity) :
    ∃ lead middle close : Text, ∀ o, o ≠ .status →
      wrapperText ctx function o =
        lead ++ (keepText o ++ (middle ++ (endText o ++ close))) := by
  let d := ctx.dialect
  let args := function.membersOf .argument
  refine ⟨Text.concat [line ["Napi::Value", " node_napi_",
      ctx.exposedName function, "(const Napi::CallbackInfo& info)", " \x7b"],
    line ["    Napi::Env env = info.Env();"],
    args.zipIdx.flatMap fun x =>
      inputText d "return Napi::Value();" x.1 (place d args x.2), "    "],
    Text.concat [line [function.qualifiedName, "(",
      Text.join ", " (args.map (passedText d)), ");"],
    (function.parameters d).zipIdx.flatMap fun x => outputText d x.1 x.2],
    Text.concat [line ["\x7d"], line []], ?_⟩
  intro o h
  have hleave : leaveText o = "return Napi::Value();" := if_neg h
  simp only [wrapperText, hleave, if_neg h, Text.concat, line,
    List.flatten_cons, List.flatten_nil, List.append_assoc, List.append_nil]
  rfl

/-- The length of what a wrapper with a value keeps and ends with. -/
def endingLength : Outcome → Nat
  | .argument name => 108 + name.length
  | .undefined => 28
  | .status | .result => 58

theorem length_ending {o : Outcome} (h : o ≠ .status) :
    (keepText o).length + (endText o).length = endingLength o := by
  cases o with
  | status => contradiction
  | argument name =>
      have hkeep : keepText (.argument name) = "auto result = " :=
        if_neg (by simp)
      simp [hkeep, endText, line, Text.concat, endingLength]
      omega
  | undefined => decide +kernel
  | result => decide +kernel

theorem endText_argument_injective {name name' : Text}
    (h : endText (.argument name) = endText (.argument name')) :
    name = name' := by
  simpa [endText, line, Text.concat] using h

theorem wrapperText_injective (ctx : Context) (function : Entity) :
    Function.Injective (wrapperText ctx function) := by
  intro o o' htext
  have hhead := congrArg List.head? htext
  rw [head?_wrapperText, head?_wrapperText, Option.some.injEq] at hhead
  by_cases h : o = .status
  · by_cases h' : o' = .status
    · rw [h, h']
    · simp [h, h'] at hhead
  · have h' : o' ≠ .status := by
      intro h'
      simp [h, h'] at hhead
    obtain ⟨lead, middle, close, hform⟩ := exists_wrapperText_eq ctx function
    rw [hform o h, hform o' h', List.append_right_inj] at htext
    -- The lengths tell the constructors apart.
    have hlength : endingLength o = endingLength o' := by
      have hlengths := congrArg List.length htext
      simp only [List.length_append] at hlengths
      rw [← length_ending h, ← length_ending h']
      omega
    cases o with
    | status => contradiction
    | argument name =>
        cases o' with
        | argument name' =>
            have hkeep : keepText (.argument name) =
                keepText (.argument name') := by
              rw [keepText, keepText, if_neg (by simp), if_neg (by simp)]
            rw [hkeep, List.append_right_inj, List.append_right_inj,
              List.append_left_inj] at htext
            rw [endText_argument_injective htext]
        | status => contradiction
        | undefined | result =>
            simp only [endingLength] at hlength
            omega
    | undefined =>
        cases o' with
        | undefined => rfl
        | status => contradiction
        | argument _ | result =>
            simp only [endingLength] at hlength
            omega
    | result =>
        cases o' with
        | result => rfl
        | status => contradiction
        | argument _ | undefined =>
            simp only [endingLength] at hlength
            omega

theorem declarationText_injective (ctx : Context) (function : Entity) :
    Function.Injective (declarationText ctx function) := by
  intro type type' h
  simpa [declarationText, Text.concat] using h

theorem text_of_declaration? (ctx : Context) {function : Entity}
    (hcategory : function.category = .function) :
    ∃ x, TypeScript.declaration? ctx function = some x ∧
      x.text = declarationText ctx function
        (TypeScript.returnType ctx.dialect function) := by
  have hshape : TypeScript.shape? ctx function = some (.function
      (TypeScript.functionParams ctx.dialect function)
      (TypeScript.returnType ctx.dialect function)) := by
    simp [TypeScript.shape?, boundArray?, hcategory]
  refine ⟨_, by rw [TypeScript.declaration?, hshape, Option.map_some], ?_⟩
  have hdoc : TypeScript.docOf ctx.dialect function =
      TypeScript.functionDoc ctx.dialect function := by
    simp [TypeScript.docOf, boundArray?, hcategory]
  simp only [TypeScript.Declaration.text, hdoc, declarationText,
    TypeScript.functionParams_eq, List.flatMap_map, TypeScript.indent]

/-! ## The agreement -/

/-- The definition of a wrapper and the declaration of its function follow one
calling convention.  Both are written over the arguments that the caller
passes, and they agree on what is returned. -/
structure Agrees (ctx : Context) (function : Entity)
    (definition declaration : Text) : Prop where
  definition_eq : ∃ outcome, definition = wrapperText ctx function outcome
  declaration_eq : ∃ type, declaration = declarationText ctx function type
  place_eq : ∀ i arg, (function.membersOf .argument)[i]? = some arg →
    arg.direction ctx.dialect ≠ .outReturn →
      (function.parameters ctx.dialect)[place ctx.dialect
        (function.membersOf .argument) i]? = some arg
  void_iff : declaration = declarationText ctx function "void" ↔
    definition = wrapperText ctx function .status ∨
      definition = wrapperText ctx function .undefined
  argument_iff : ∀ name,
    definition = wrapperText ctx function (.argument name) ↔
      ∃ arg ∈ returnArguments ctx.dialect function, arg.name = name ∧
        declaration = declarationText ctx function
          (TypeScript.typeName ctx.dialect arg.typeText)
  argument_type : ∀ arg ∈ returnArguments ctx.dialect function,
    declaration = declarationText ctx function
      (TypeScript.typeName ctx.dialect arg.typeText)
  result_iff : definition = wrapperText ctx function .result ↔
    declaration ≠ declarationText ctx function "void" ∧
      returnArguments ctx.dialect function = []
  result_type : definition = wrapperText ctx function .result →
    declaration = declarationText ctx function
      (TypeScript.typeName ctx.dialect function.typeText)

theorem ReturnCase.agrees {ctx : Context} {function : Entity} {o : Outcome}
    {type : Text} (h : ReturnCase ctx.dialect function o type) :
    Agrees ctx function (wrapperText ctx function o)
      (declarationText ctx function type) := by
  have hwrapper (o' : Outcome) : wrapperText ctx function o =
      wrapperText ctx function o' ↔ o = o' :=
    (wrapperText_injective ctx function).eq_iff
  have hdeclaration (type' : Text) : declarationText ctx function type =
      declarationText ctx function type' ↔ type = type' :=
    (declarationText_injective ctx function).eq_iff
  constructor
  · exact ⟨o, rfl⟩
  · exact ⟨type, rfl⟩
  · intro i arg harg hpassed
    exact getElem?_place harg hpassed
  · rw [hdeclaration, hwrapper, hwrapper]
    exact h.void_iff
  · intro name
    simp only [hwrapper, hdeclaration]
    constructor
    · intro hname
      obtain ⟨arg, harg, rfl⟩ := h.exists_argument hname
      exact ⟨arg, harg, rfl, (h.argument_type harg).2⟩
    · rintro ⟨arg, harg, rfl, _⟩
      exact (h.argument_type harg).1
  · intro arg harg
    rw [hdeclaration]
    exact (h.argument_type harg).2
  · rw [hwrapper, ne_eq, hdeclaration]
    exact h.result_iff
  · rw [hwrapper, hdeclaration]
    exact h.result_type

/-- The wrapper of a function that can be wrapped and the declaration of that
function follow one calling convention, and these texts stand in the files for
a header. -/
theorem wrapper_agrees_with_declaration (ctx : Context) (function : Entity)
    (hcategory : function.category = .function)
    (hcheck : checkFunction ctx.dialect function = .ok ()) :
    ∃ x, TypeScript.declaration? ctx function = some x ∧
      Agrees ctx function (entityGlue ctx function).definitions x.text ∧
      ∀ h, function ∈ distinctFrom [] h.entities →
        (∀ m, render ctx h = .ok m →
          (entityGlue ctx function).definitions <:+: m.source) ∧
        x.text <:+: TypeScript.render ctx h.entities := by
  obtain ⟨x, hx, htext⟩ := text_of_declaration? ctx hcategory
  have hdefinitions : (entityGlue ctx function).definitions =
      wrapperText ctx function (outcome ctx.dialect function) := by
    rw [← definition_wrapper]
    simp [entityGlue, hcategory, Wrapper.glue]
  refine ⟨x, hx, ?_, ?_⟩
  · rw [hdefinitions, htext]
    exact (returnCase_of_checkFunction hcheck).agrees
  · intro h hmem
    exact ⟨fun m hm => definitions_infix_source hm hmem,
      TypeScript.text_infix_render (mem_of_mem_distinctFrom hmem) hx⟩

/-- All four directions.  The argument that becomes the return value stands
between the others and takes no place, and its type is declared. -/
theorem wrapper_agrees_with_declaration_mixed :
    let argument (type name : Text) : Member :=
      { category := .argument, type := some type, name := name }
    let args := [argument "int" "a", argument "ODE_OUT_RETURN H *" "h",
      argument "ODE_OUT S *" "s", argument "ODE_INOUT T *" "t"]
    let function : Entity :=
      { category := .function, type := some "ODE_Result", name := "ode_f"
        members := args }
    checkFunction {} function = .ok () ∧
      (entityGlue {} function).definitions =
        wrapperText {} function (.argument "h") ∧
      (TypeScript.declaration? {} function).map (·.text) =
        some (declarationText {} function "ode.H") ∧
      (List.range 4).map (place {} args) = [0, 1, 1, 2] := by
  intro argument args function
  have hcheck : checkFunction {} function = .ok () := by cbv
  obtain ⟨x, hx, hagrees, _⟩ :=
    wrapper_agrees_with_declaration {} function rfl hcheck
  have hreturns : returnArguments {} function =
      [argument "ODE_OUT_RETURN H *" "h"] := by cbv
  have hreturn : argument "ODE_OUT_RETURN H *" "h" ∈
      returnArguments {} function := by
    rw [hreturns]
    exact List.mem_singleton_self _
  have htype : TypeScript.typeName {} "ODE_OUT_RETURN H *" = "ode.H" := by
    cbv
  have hdeclared := hagrees.argument_type _ hreturn
  refine ⟨hcheck, ?_, ?_, by cbv⟩
  · exact (hagrees.argument_iff "h").mpr ⟨_, hreturn, rfl, hdeclared⟩
  · rw [hx, Option.map_some, hdeclared]
    exact congrArg (some <| declarationText {} function ·) htype

end Napi

end Bindery
