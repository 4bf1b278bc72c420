import Bindery.Proofs.Declarators

/-!
# Types of arguments

An argument is read from its end.  Its name is the identifier there, and its
type is what stands in front of the name, as far back as there are only
identifiers, white space, stars and ampersands.  The type is therefore whole
exactly if the argument is written with these characters alone: any other one,
such as the colons behind the name of a scope, ends the type, and what stands
in front of it is lost.
-/

namespace Bindery.Source

/-- A character that a type goes on with, seen from its end. -/
def isArgumentTypeChar (c : Char) : Bool :=
  Text.isIdent c || (Text.isSpace c || c == '*' || c == '&')

theorem isArgumentTypeChar_of_isIdent {c : Char} (h : Text.isIdent c = true) :
    isArgumentTypeChar c = true := by
  rw [isArgumentTypeChar, h, Bool.true_or]

theorem isArgumentTypeChar_of_isSpace {c : Char} (h : Text.isSpace c = true) :
    isArgumentTypeChar c = true := by
  rw [isArgumentTypeChar, h, Bool.true_or, Bool.true_or, Bool.or_true]

/-- The text ends with this identifier, all of it. -/
def IsLastIdentifier (name code : Text) : Prop :=
  ∃ (i : Identifier) (before : Text), i.text = name ∧ code = before ++ name ∧
    ∀ c ∈ before.getLast?, Text.isIdent c = false

/-- The last character that is not white space does not belong to a type. -/
def StopsType (lost : Text) : Prop :=
  ∃ front c blanks, lost = front ++ c :: blanks ∧
    isArgumentTypeChar c = false ∧ ∀ a ∈ blanks, Text.isSpace a = true

/-- The two cuts that are made from the end of the argument. -/
theorem splitArgument_eq_some {raw type name : Text}
    (h : splitArgument raw = some (type, name)) :
    ∃ front tail, Text.trim (stripComments raw) = (front ++ tail) ++ name ∧
      IsLastIdentifier name (Text.trim (stripComments raw)) ∧
      (∀ c ∈ tail, isArgumentTypeChar c = true) ∧
      (∀ c ∈ front.getLast?, isArgumentTypeChar c = false) ∧
      Text.trim tail = type ∧ type ≠ [] := by
  simp only [splitArgument, Option.bind_eq_bind, Option.bind_eq_some_iff,
    Prod.exists] at h
  obtain ⟨head, name', hname, h⟩ := h
  split at h
  · contradiction
  · split at h
    · contradiction
    · next hne =>
      obtain ⟨rfl, rfl⟩ := Prod.mk.inj (Option.some.inj h)
      obtain ⟨i, hi, hcode, hlast⟩ := trailingIdentifier_eq_some hname
      refine ⟨head.rdropWhile isArgumentTypeChar,
        head.rtakeWhile isArgumentTypeChar, ?_,
        ⟨i, head, hi, hcode, hlast⟩, fun c hc => List.mem_rtakeWhile_imp hc,
        Text.not_of_mem_getLast?_rdropWhile isArgumentTypeChar head, rfl,
        by simpa using hne⟩
      rw [List.rdropWhile_append_rtakeWhile]
      exact hcode

/-- The type reaches back to the beginning of the argument, or to a character
that does not belong to a type. -/
theorem splitArgument_cut {raw type name : Text}
    (h : splitArgument raw = some (type, name)) :
    (∀ c ∈ type, isArgumentTypeChar c = true) ∧ ∃ lost blanks,
      Text.trim (stripComments raw) = lost ++ (type ++ (blanks ++ name)) ∧
      (∀ c ∈ blanks, Text.isSpace c = true) ∧
      (lost = [] ∨ StopsType lost) := by
  obtain ⟨front, tail, hcode, _, htail, hfront, rfl, hne⟩ :=
    splitArgument_eq_some h
  obtain ⟨before, after, hbefore, hafter, hsplit⟩ := Text.trim_split tail
  have hcut : Text.trim (stripComments raw) =
      (front ++ before) ++ (Text.trim tail ++ (after ++ name)) := by
    rw [hcode]
    conv_lhs => rw [hsplit]
    simp only [List.append_assoc]
  refine ⟨fun c hc => htail c (Text.mem_of_mem_trim hc), front ++ before,
    after, hcut, hafter, ?_⟩
  rcases List.eq_nil_or_concat front with rfl | ⟨front, c, rfl⟩
  · -- White space in front of the type would begin the argument.
    left
    rw [List.nil_append] at hcut ⊢
    cases before with
    | nil => rfl
    | cons c before =>
        have hc : Text.isSpace c = false :=
          (Text.trim_ends (stripComments raw)).1 c (by simp [hcut])
        exact absurd (hbefore c List.mem_cons_self) (by simp [hc])
  · right
    refine ⟨front, c, before, by simp, hfront c (by simp), hbefore⟩

/-- The name of an argument is its last identifier, and everything in front of
it is the type if and only if it consists of identifiers, white space, stars
and ampersands.  Otherwise all up to the last other character is lost. -/
theorem argument_type_whole_iff {raw type name : Text}
    (h : splitArgument raw = some (type, name)) :
    let code := Text.trim (stripComments raw)
    IsLastIdentifier name code ∧
    (∃ lost blanks, code = lost ++ (type ++ (blanks ++ name)) ∧
      (∀ c ∈ blanks, Text.isSpace c = true) ∧
      (lost = [] ∨ StopsType lost)) ∧
    ((∃ blanks, code = type ++ (blanks ++ name) ∧
        ∀ c ∈ blanks, Text.isSpace c = true) ↔
      ∀ c ∈ code, isArgumentTypeChar c = true) := by
  intro code
  obtain ⟨_, _, _, hlast, _⟩ := splitArgument_eq_some h
  obtain ⟨htype, lost, blanks, hcode, hblanks, hlost⟩ := splitArgument_cut h
  refine ⟨hlast, ⟨lost, blanks, hcode, hblanks, hlost⟩, ?_, ?_⟩
  · rintro ⟨blanks, hwhole, hblanks⟩ c hc
    obtain ⟨i, _, rfl, _⟩ := hlast
    rw [hwhole, List.mem_append, List.mem_append] at hc
    rcases hc with hc | hc | hc
    · exact htype c hc
    · exact isArgumentTypeChar_of_isSpace (hblanks c hc)
    · exact isArgumentTypeChar_of_isIdent (i.isIdent c hc)
  · intro hall
    rcases hlost with rfl | ⟨front, c, gap, rfl, hc, _⟩
    · exact ⟨blanks, hcode, hblanks⟩
    · rw [hall c (by simp [code, hcode])] at hc
      contradiction

/-- A comment and a marker, and a type whose end is written at the name. -/
theorem argument_type_whole_marked :
    let raw : Text := "/* all */ ODE_OUT const ODE_Layer *const\t*layers"
    let type : Text := "ODE_OUT const ODE_Layer *const\t*"
    let name : Text := "layers"
    splitArgument raw = some (type, name) ∧
    ∃ blanks, Text.trim (stripComments raw) = type ++ (blanks ++ name) ∧
      ∀ c ∈ blanks, Text.isSpace c = true := by
  intro raw type name
  have hsplit : splitArgument raw = some (type, name) := by decide +kernel
  have hall :
      (Text.trim (stripComments raw)).all isArgumentTypeChar = true := by
    decide +kernel
  obtain ⟨_, _, hiff⟩ := argument_type_whole_iff hsplit
  exact ⟨hsplit, hiff.mpr (List.all_eq_true.mp hall)⟩

/-- The name of the scope is lost, and with it that the type is constant. -/
theorem argument_type_loses_scope :
    let raw : Text := "const ODE_LayerList::Entry *entry"
    let type : Text := "Entry *"
    let name : Text := "entry"
    splitArgument raw = some (type, name) ∧
    ¬ ∃ blanks, Text.trim (stripComments raw) = type ++ (blanks ++ name) ∧
      ∀ c ∈ blanks, Text.isSpace c = true := by
  intro raw type name
  refine ⟨by decide +kernel, ?_⟩
  rintro ⟨blanks, hwhole, _⟩
  have hhead : (Text.trim (stripComments raw)).head? = some 'c' := by
    decide +kernel
  rw [hwhole, List.head?_append_of_ne_nil _ (by decide)] at hhead
  exact absurd hhead (by decide)

end Bindery.Source
