import Bindery.Proofs.CallingConvention
import Bindery.Proofs.DirectionLookup
import Bindery.Proofs.PointerUse
import Bindery.Proofs.TypeReferences

/-!
# The position of `const` in a pointer

A pointer to a constant may be written `const T *` or `T const *`.  The
direction of an argument and its TypeScript type look for the word `const`
wherever it stands, and give the same for both.  The record of names that are
used through pointers passes over a `const` in front of the star, but falls
back on the word `const` itself where the name begins with an underscore.  The
local variables of wrappers and the pointers that getters return only look for
`const` at the beginning, and take the second spelling for something else.
-/

namespace Bindery

/-- A pointer to a constant with the qualifier in front of the name. -/
def constFirst (name : Text) : Text := Text.concat ["const ", name, " *"]

/-- A pointer to a constant with the qualifier behind the name. -/
def constLast (name : Text) : Text := Text.concat [name, " const *"]

/-! ## Pointer types of two words -/

/-- The qualifier as a word like any other. -/
def constWord : Identifier where
  head := 'c'
  tail := "onst"
  head_isIdent := rfl
  head_notDigit := rfl
  tail_isIdent := List.all_eq_true.mp rfl

@[simp] theorem constWord_text : constWord.text = "const" := rfl

/-- The two words in front of a star. -/
def pointeeText (a b : Identifier) : Text := a.text ++ ' ' :: b.text

def pointerText (a b : Identifier) : Text := pointeeText a b ++ [' ', '*']

theorem constFirst_eq (i : Identifier) :
    constFirst i.text = pointerText constWord i := by
  simp [constFirst, pointerText, pointeeText, Text.concat]

theorem constLast_eq (i : Identifier) :
    constLast i.text = pointerText i constWord := by
  simp [constLast, pointerText, pointeeText, Text.concat]

section Pointer

variable (a b : Identifier)

theorem pointeeText_ends :
    (∀ c ∈ (pointeeText a b).head?, Text.isSpace c = false) ∧
      ∀ c ∈ (pointeeText a b).getLast?, Text.isSpace c = false := by
  constructor
  · intro c hc
    rw [← Option.mem_some_iff.mp hc]
    exact a.notSpace a.head List.mem_cons_self
  · intro c hc
    rw [pointeeText, ← List.singleton_append, ← List.append_assoc,
      List.getLast?_append_of_ne_nil _ b.text_ne_nil] at hc
    exact b.notSpace c (List.mem_of_getLast? hc)

theorem trim_pointeeText_blank :
    Text.trim (pointeeText a b ++ [' ']) = pointeeText a b :=
  Text.trim_append_blank (pointeeText_ends a b).1 (pointeeText_ends a b).2

theorem before?_star_pointerText :
    Text.before? "*" (pointerText a b) = some (pointeeText a b ++ [' ']) := by
  rw [Text.before?_eq_some_iff, pointerText, List.append_assoc]
  rfl

theorem trim_pointerText : Text.trim (pointerText a b) = pointerText a b :=
  Text.trim_append_star (List.append_ne_nil_of_left_ne_nil a.text_ne_nil _)
    (pointeeText_ends a b).1

theorem hasWord_pointeeText {word : Text}
    (h : a.text = word ∨ b.text = word) :
    Text.HasWord word (pointeeText a b ++ [' ']) := by
  rcases h with rfl | rfl
  · exact ⟨[], ' ' :: (b.text ++ [' ']), by simp [pointeeText], by simp,
      by simp [Text.isIdent]⟩
  · exact ⟨a.text ++ [' '], [' '], by simp [pointeeText],
      by simp [Text.isIdent], by simp [Text.isIdent]⟩

theorem firstWord_pointerText : Text.firstWord (pointerText a b) = a.text := by
  have hstart : Text.trimStart (pointerText a b) = pointerText a b :=
    Text.trimStart_cons (a.notSpace a.head List.mem_cons_self) _
  have hword : ∀ c ∈ a.text, (!Text.isSpace c) = true := by
    simpa using a.notSpace
  rw [Text.firstWord, hstart, pointerText, pointeeText, List.append_assoc,
    List.takeWhile_append_of_pos hword, List.cons_append,
    List.takeWhile_cons_of_neg (by decide), List.append_nil]

/-- Without a marker a pointer to a constant is an input. -/
theorem classify_pointerText {d : Dialect} (hd : d.MarkersBlankFree)
    (hmarkers : ∀ entry ∈ Direction.declaredMarkers d, entry.1 ≠ a.text)
    (hconst : a.text = "const" ∨ b.text = "const") :
    ArgumentType.classify d (pointerText a b) =
      { direction := .input, bareType := pointerText a b } := by
  have hnone : (Direction.declaredMarkers d).lookup a.text = none := by
    rw [List.lookup_eq_none_iff]
    exact fun entry hentry => by simpa using (hmarkers entry hentry).symm
  have hinput : ¬ Direction.Writable (pointerText a b) := by
    rintro ⟨pointee, hpointee, hnot⟩
    have heq := before?_star_pointerText a b
    rw [Text.before?_eq_some_iff.mpr hpointee, Option.some.injEq] at heq
    rw [heq] at hnot
    exact hnot (hasWord_pointeeText a b hconst)
  rw [ArgumentType.classify_eq_declared hd,
    ArgumentType.classifyWith_eq hd.declaredMarkers,
    ArgumentType.lookupFirstWord, firstWord_pointerText, hnone, ite_self,
    Option.map_none, Option.getD_none, ArgumentType.unmarked,
    trim_pointerText, (Direction.implicit_eq _).2 hinput]

theorem typeWords_pointerText :
    TypeScript.typeWords (pointerText a b) =
      TypeScript.typeWords a.text ++ TypeScript.typeWords b.text := by
  have hblank : TypeScript.isSeparator ' ' = true := by decide
  rw [pointerText, TypeScript.typeWords_append_separator hblank, pointeeText,
    TypeScript.typeWords_append_separator hblank]
  exact List.append_nil _

theorem typeTokens_pointerText :
    typeTokens (pointerText a b) = [a.text, b.text, ['*']] := by
  have hblank (t : Text) : Text.Stops Text.isIdent (' ' :: t) :=
    Text.stops_cons (by decide) t
  have hstar : Tokenized [' ', '*'] [['*']] :=
    .space (by decide) (.sign (by decide) (by decide) .nil)
  have hsecond : Tokenized (' ' :: (b.text ++ [' ', '*'])) [b.text, ['*']] :=
    .space (by decide) (.word b.text_ne_nil b.isIdent (hblank _) hstar)
  have hfirst := Tokenized.word a.text_ne_nil a.isIdent (hblank _) hsecond
  rw [pointerText, pointeeText, List.append_assoc, List.cons_append]
  exact hfirst.typeTokens_eq

theorem addType_pointerText (usage : PointerUsage) :
    usage.addType (pointerText a b) =
      (PointerUsage.pointee? [b.text, a.text]).elim usage usage.insert := by
  have hword (i : Identifier) : i.text ≠ ['*'] := by
    intro heq
    exact i.notMem (by decide) (heq ▸ List.mem_singleton_self '*')
  rw [PointerUsage.addType, typeTokens_pointerText]
  simp [PointerUsage.addTokens, hword]

theorem isTypeName_text (i : Identifier) :
    PointerUsage.isTypeName i.text = decide (i.head ≠ '_') := by
  rw [Bool.eq_iff_iff, decide_eq_true_iff, ← i.isAlpha_head_iff]
  rfl

theorem takeWhile_text_blank (i : Identifier) (t : Text) :
    (i.text ++ ' ' :: t).takeWhile Text.isIdent = i.text := by
  rw [List.takeWhile_append_of_pos i.isIdent,
    List.takeWhile_cons_of_neg (by decide), List.append_nil]

/-- A name with a blank behind it does not begin like `const` with a blank. -/
theorem after?_const_text {i : Identifier} (hconst : i.text ≠ "const")
    (t : Text) : Text.after? "const " (i.text ++ ' ' :: t) = none := by
  rw [Option.eq_none_iff_forall_ne_some]
  intro rest hrest
  rw [Text.after?_eq_some_iff] at hrest
  change i.text ++ ' ' :: t = constWord.text ++ ' ' :: rest at hrest
  have hword := congrArg (List.takeWhile Text.isIdent) hrest
  rw [takeWhile_text_blank, takeWhile_text_blank] at hword
  exact hconst hword

end Pointer

/-! ## What is derived from the two spellings -/

section Spellings

variable {d : Dialect} {i : Identifier}

theorem classify_constFirst (hd : d.MarkersBlankFree)
    (hmarkers : ∀ entry ∈ Direction.declaredMarkers d, entry.1 ≠ "const") :
    ArgumentType.classify d (constFirst i.text) =
      { direction := .input, bareType := constFirst i.text } := by
  rw [constFirst_eq]
  exact classify_pointerText constWord i hd hmarkers (.inl rfl)

theorem classify_constLast (hd : d.MarkersBlankFree)
    (hmarkers : ∀ entry ∈ Direction.declaredMarkers d, entry.1 ≠ i.text) :
    ArgumentType.classify d (constLast i.text) =
      { direction := .input, bareType := constLast i.text } := by
  rw [constLast_eq]
  exact classify_pointerText i constWord hd hmarkers (.inr rfl)

theorem typeWords_constLast (i : Identifier) :
    TypeScript.typeWords (constLast i.text) =
      TypeScript.typeWords (constFirst i.text) := by
  rw [constLast_eq, constFirst_eq, typeWords_pointerText,
    typeWords_pointerText, constWord_text, TypeScript.typeWords_const,
    List.append_nil, List.nil_append]

theorem addType_constFirst (hconst : i.text ≠ "const") (usage : PointerUsage) :
    usage.addType (constFirst i.text) =
      if i.head = '_' then usage else usage.insert i.text := by
  rw [constFirst_eq, addType_pointerText, PointerUsage.pointee?,
    beq_eq_false_iff_ne.mpr hconst, isTypeName_text i]
  by_cases hhead : i.head = '_'
  · simp [hhead]
  · simp [hhead]

/-- Where the name does not look like one, `const` is taken for the name. -/
theorem addType_constLast (i : Identifier) (usage : PointerUsage) :
    usage.addType (constLast i.text) =
      usage.insert (if i.head = '_' then "const" else i.text) := by
  rw [constLast_eq, addType_pointerText, PointerUsage.pointee?,
    isTypeName_text i, constWord_text]
  by_cases hhead : i.head = '_'
  · simp [hhead, PointerUsage.isTypeName]
  · simp [hhead]

theorem addType_const_iff (hconst : i.text ≠ "const") :
    (∀ usage : PointerUsage,
      usage.addType (constLast i.text) = usage.addType (constFirst i.text)) ↔
      i.head ≠ '_' := by
  constructor
  · intro h hhead
    have hempty := h {}
    rw [addType_constLast, addType_constFirst hconst, if_pos hhead,
      if_pos hhead] at hempty
    exact absurd hempty (by decide)
  · intro hhead usage
    rw [addType_constLast, addType_constFirst hconst, if_neg hhead,
      if_neg hhead]

theorem valueType_constFirst :
    Napi.valueType (constFirst i.text) = (i.text, true) := by
  have hafter : Text.after? "const " (pointeeText constWord i) =
      some i.text := by
    rw [Text.after?_eq_some_iff]
    rfl
  rw [constFirst_eq, Napi.valueType, before?_star_pointerText]
  simp only [trim_pointeeText_blank, hafter, Option.getD_some,
    Text.trim_eq_self i.notSpace]

theorem valueType_constLast (hconst : i.text ≠ "const") :
    Napi.valueType (constLast i.text) =
      (i.text ++ (" const" : Text), true) := by
  have hends := pointeeText_ends i constWord
  have hafter : Text.after? "const " (pointeeText i constWord) = none :=
    after?_const_text hconst _
  rw [constLast_eq, Napi.valueType, before?_star_pointerText]
  simp only [trim_pointeeText_blank, hafter, Option.getD_none,
    Text.trim_eq_self_of_ends hends.1 hends.2]
  rfl

theorem startsWith_constFirst (i : Identifier) :
    Text.startsWith "const " (constFirst i.text) = true := by
  have hafter : Text.after? "const " (constFirst i.text) =
      some (i.text ++ [' ', '*']) := by
    rw [Text.after?_eq_some_iff]
    simp [constFirst, Text.concat]
  rw [Text.startsWith, hafter]
  rfl

theorem startsWith_constLast (hconst : i.text ≠ "const") :
    Text.startsWith "const " (constLast i.text) = false := by
  rw [Text.startsWith, constLast_eq, pointerText, pointeeText,
    List.append_assoc, List.cons_append, after?_const_text hconst]
  rfl

end Spellings

namespace Napi

theorem exists_slotOf_mem_slotsFrom {d : Dialect} {arg : Member}
    {args : List Member} (h : arg ∈ args) (next : Nat) :
    ∃ position, slotOf d arg position ∈ slotsFrom d next args := by
  induction args generalizing next with
  | nil => contradiction
  | cons first args ih =>
      by_cases hreturn : first.direction d = .outReturn
      · rw [slotsFrom_cons_return hreturn]
        rcases List.mem_cons.mp h with rfl | h
        · exact ⟨none, List.mem_cons_self⟩
        · obtain ⟨position, hposition⟩ := ih h next
          exact ⟨position, List.mem_cons_of_mem _ hposition⟩
      · rw [slotsFrom_cons_passed hreturn]
        rcases List.mem_cons.mp h with rfl | h
        · exact ⟨some next, List.mem_cons_self⟩
        · obtain ⟨position, hposition⟩ := ih h (next + 1)
          exact ⟨position, List.mem_cons_of_mem _ hposition⟩

/-- The wrapper of a function declares a variable for every argument. -/
theorem declare_mem_steps (ctx : Context) {f : Entity} {arg : Member}
    (h : arg ∈ f.membersOf .argument) :
    Step.declare (valueType (arg.bareType ctx.dialect)).1 arg.name ∈
      (wrapper ctx f).steps := by
  obtain ⟨position, hslot⟩ := exists_slotOf_mem_slotsFrom (d := ctx.dialect) h 0
  apply List.mem_append_left
  exact List.mem_flatMap.mpr ⟨_, hslot, List.mem_cons_self⟩

/-- The body of a wrapper declares a variable, and a line of its glue says
so. -/
structure Wrapper.Declares (w : Wrapper) (type name : Text) : Prop where
  step : Step.declare type name ∈ w.steps
  line : Text.concat ["    ", type, " ", name, ";\n"] <:+: w.glue.definitions

theorem Wrapper.declares_of_mem {w : Wrapper} {type name : Text}
    (h : Step.declare type name ∈ w.steps) : w.Declares type name := by
  refine ⟨h, ?_⟩
  have htext : Text.concat ["    ", type, " ", name, ";\n"] =
      Step.text w.emptyReturn (.declare type name) := by
    simp [Step.text, code, Text.concat]
  have hstep : Step.text w.emptyReturn (.declare type name) <:+:
      w.steps.flatMap (Step.text w.emptyReturn) :=
    List.infix_of_mem_flatten (List.mem_map_of_mem h)
  have hbody : w.steps.flatMap (Step.text w.emptyReturn) <:+:
      w.glue.definitions :=
    List.infix_of_mem_flatten (List.mem_cons_of_mem _ List.mem_cons_self)
  rw [htext]
  exact hstep.trans hbody

end Napi

/-- Directions and declared types do not depend on where `const` stands, and
neither do recorded names unless the name begins with an underscore.  But only
the first spelling gives a variable of the type itself and a constant pointer;
the second gives a constant variable and the other pointer. -/
theorem const_position_iff {d : Dialect} (hd : d.MarkersBlankFree)
    (i : Identifier) (hconst : i.text ≠ "const")
    (hmarkers : ∀ entry ∈ Direction.declaredMarkers d,
      entry.1 ≠ "const" ∧ entry.1 ≠ i.text) :
    let first := constFirst i.text
    let last := constLast i.text
    (ArgumentType.classify d last).direction =
      (ArgumentType.classify d first).direction ∧
    TypeScript.typeName d last = TypeScript.typeName d first ∧
    ((∀ usage : PointerUsage, usage.addType last = usage.addType first) ↔
      i.head ≠ '_') ∧
    (∀ (ctx : Context) (f : Entity), ctx.dialect = d →
      ∀ arg ∈ f.membersOf .argument,
        (arg.typeText = first →
          (Napi.wrapper ctx f).Declares i.text arg.name) ∧
        (arg.typeText = last →
          (Napi.wrapper ctx f).Declares (i.text ++ (" const" : Text))
            arg.name)) ∧
    ∀ (e : Entity) (field : Text),
      (e.memberType? field = some first →
        dataPtrType d e field = d.constDataPtr) ∧
      (e.memberType? field = some last →
        dataPtrType d e field = d.varDataPtr) := by
  intro first last
  have hfirst : ArgumentType.classify d first = ⟨.input, first⟩ :=
    classify_constFirst hd fun entry hentry => (hmarkers entry hentry).1
  have hlast : ArgumentType.classify d last = ⟨.input, last⟩ :=
    classify_constLast hd fun entry hentry => (hmarkers entry hentry).2
  refine ⟨by rw [hfirst, hlast], ?_, addType_const_iff hconst, ?_, ?_⟩
  · simp only [TypeScript.typeName, hfirst, hlast]
    rw [typeWords_constLast]
  · rintro ctx f rfl arg harg
    have hdeclared := Napi.declare_mem_steps ctx harg
    rw [Member.bareType] at hdeclared
    constructor
    · intro htype
      rw [htype, hfirst, valueType_constFirst] at hdeclared
      exact Napi.Wrapper.declares_of_mem hdeclared
    · intro htype
      rw [htype, hlast, valueType_constLast hconst] at hdeclared
      exact Napi.Wrapper.declares_of_mem hdeclared
  · intro e field
    unfold dataPtrType
    constructor
    · intro htype
      rw [htype, Option.any_some, startsWith_constFirst, if_pos rfl]
    · intro htype
      rw [htype, Option.any_some, startsWith_constLast hconst]
      rfl

/-- A name that begins with the letters of `const`. -/
theorem const_position_iff_constant :
    let d : Dialect := {}
    let arg : Member :=
      { category := .argument, type := some "constant const *", name := "x" }
    let f : Entity :=
      { category := .function, type := some "void", name := "ode_f"
        members := [arg] }
    let field : Member :=
      { category := .memberVariable, type := some "const constant *"
        name := "data" }
    let s : Entity :=
      { category := .struct, name := "ODE_S", members := [field] }
    d.MarkersBlankFree ∧
    (∀ entry ∈ Direction.declaredMarkers d,
      entry.1 ≠ "const" ∧ entry.1 ≠ "constant") ∧
    TypeScript.typeName d "constant const *" =
      TypeScript.typeName d "const constant *" ∧
    PointerUsage.addType {} "constant const *" =
      PointerUsage.addType {} "const constant *" ∧
    (Napi.wrapper {} f).Declares "constant const" "x" ∧
    dataPtrType d s "data" = "ODE_ConstDataPtr" := by
  intro d arg f field s
  let constant : Identifier :=
    ⟨'c', "onstant", rfl, rfl, List.all_eq_true.mp rfl⟩
  have hd : d.MarkersBlankFree := by decide
  have hmarkers : ∀ entry ∈ Direction.declaredMarkers d,
      entry.1 ≠ "const" ∧ entry.1 ≠ "constant" := by decide
  obtain ⟨_, htype, husage, hvariable, hpointer⟩ :=
    const_position_iff hd constant (by decide) hmarkers
  exact ⟨hd, hmarkers, htype, husage.mpr (by decide) {},
    (hvariable {} f rfl arg List.mem_cons_self).2 rfl,
    (hpointer s "data").1 rfl⟩

/-- A header written in both ways.  The getter of the second one returns the
other pointer, and the wrapper declares a variable that cannot be read into. -/
theorem const_behind_name_changes_bindings :
    let header (field arg : Text) : Text :=
      Text.concat ["typedef struct \x7b ", field, "data; \x7d ODE_S;\n",
        "void ODE_API f(", arg, "x);"]
    ∃ s f s' f' : Entity,
      Header.parse {} (header "const char *" "const ODE_S *") = [s, f] ∧
      Header.parse {} (header "char const *" "ODE_S const *") = [s', f'] ∧
      dataPtrType {} s "data" = "ODE_ConstDataPtr" ∧
      dataPtrType {} s' "data" = "ODE_VarDataPtr" ∧
      (Napi.wrapper {} f).slots.map Napi.Slot.valueType =
        [("ODE_S" : Text)] ∧
      (Napi.wrapper {} f').slots.map Napi.Slot.valueType =
        [("ODE_S const" : Text)] ∧
      (Napi.wrapper {} f).Declares "ODE_S" "x" ∧
      (Napi.wrapper {} f').Declares "ODE_S const" "x" := by
  intro header
  let s (type : Text) : Entity :=
    { category := .struct, name := "ODE_S"
      members := [{ category := .memberVariable, type := some type
                    name := "data" }] }
  let arg (type : Text) : Member :=
    { category := .argument, type := some type, name := "x" }
  let f (type : Text) : Entity :=
    { category := .function, type := some "void", name := "f"
      members := [arg type] }
  have hdeclares (type value : Text)
      (h : (Napi.valueType ((arg type).bareType {})).1 = value) :
      (Napi.wrapper {} (f type)).Declares value "x" := by
    have harg : arg type ∈ (f type).membersOf .argument := List.mem_cons_self
    rw [← h]
    exact Napi.Wrapper.declares_of_mem (Napi.declare_mem_steps {} harg)
  have hfirst := hdeclares "const ODE_S *" "ODE_S" (by cbv)
  have hlast := hdeclares "ODE_S const *" "ODE_S const" (by cbv)
  exact ⟨s "const char *", f "const ODE_S *", s "char const *",
    f "ODE_S const *", by decide +kernel, by decide +kernel, by decide,
    by decide, by cbv, by cbv, hfirst, hlast⟩

end Bindery
