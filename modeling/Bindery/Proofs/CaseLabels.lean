import Bindery.Binding.Napi
import Bindery.Proofs.IntegerLiterals

/-!
# Case labels of enumerators

A value is turned into its name by a `switch` with a case for every enumerator
that is no alias of another one.  Aliases are recognised by how their values
are spelled: of the enumerators with one spelling only the first has a case,
and none has whose value is the name of an enumerator.  Two cases have the same
number exactly if a number is spelled in two ways.
-/

namespace Bindery.Napi

open Written (IntegerLiteral)

variable {names earlier : List Text} {ms : List Member} {a : Member} {s : Text}

/-! ## Which enumerators have a case -/

theorem mem_of_mem_caseMembersFrom (h : a ∈ caseMembersFrom names earlier ms)
    (hs : a.value = some s) : a ∈ ms ∧ s ∉ earlier ∧ s ∉ names := by
  fun_induction caseMembersFrom names earlier ms with
  | case1 => simp at h
  | case2 earlier m ms hvalue ih =>
      rcases List.mem_cons.mp h with rfl | h
      · rw [hvalue] at hs
        contradiction
      · obtain ⟨hmem, hnot⟩ := ih h
        exact ⟨List.mem_cons_of_mem m hmem, hnot⟩
  | case3 earlier m ms value hvalue halias ih =>
      obtain ⟨hmem, hearlier, hnames⟩ := ih h
      exact ⟨List.mem_cons_of_mem m hmem,
        fun hs => hearlier (List.mem_cons_of_mem value hs), hnames⟩
  | case4 earlier m ms value hvalue halias ih =>
      rcases List.mem_cons.mp h with rfl | h
      · obtain rfl : value = s := Option.some.inj (hvalue.symm.trans hs)
        simpa using halias
      · obtain ⟨hmem, hearlier, hnames⟩ := ih h
        exact ⟨List.mem_cons_of_mem m hmem,
          fun hs => hearlier (List.mem_cons_of_mem value hs), hnames⟩

theorem caseMembersFrom_pairwise (names earlier : List Text)
    (ms : List Member) :
    (caseMembersFrom names earlier ms).Pairwise fun a b =>
      ∀ s, a.value = some s → b.value ≠ some s := by
  fun_induction caseMembersFrom names earlier ms with
  | case1 => exact List.Pairwise.nil
  | case2 earlier m ms hvalue ih =>
      refine List.pairwise_cons.mpr ⟨fun b _ s hs => ?_, ih⟩
      rw [hvalue] at hs
      contradiction
  | case3 earlier m ms value hvalue halias ih => exact ih
  | case4 earlier m ms value hvalue halias ih =>
      refine List.pairwise_cons.mpr ⟨fun b hb s hs hs' => ?_, ih⟩
      obtain rfl : value = s := Option.some.inj (hvalue.symm.trans hs)
      exact (mem_of_mem_caseMembersFrom hb hs').2.1 List.mem_cons_self

/-- The first enumerator with a spelling has a case. -/
theorem exists_mem_caseMembersFrom (ha : a ∈ ms) (hs : a.value = some s)
    (hearlier : s ∉ earlier) (hnames : s ∉ names) :
    ∃ b ∈ caseMembersFrom names earlier ms, b.value = some s := by
  fun_induction caseMembersFrom names earlier ms with
  | case1 => simp at ha
  | case2 earlier m ms hvalue ih =>
      rcases List.mem_cons.mp ha with rfl | ha
      · rw [hvalue] at hs
        contradiction
      · obtain ⟨b, hb, hvalue'⟩ := ih ha hearlier
        exact ⟨b, List.mem_cons_of_mem m hb, hvalue'⟩
  | case3 earlier m ms value hvalue halias ih =>
      have hne : value ≠ s := by
        rintro rfl
        simp [hearlier, hnames] at halias
      rcases List.mem_cons.mp ha with rfl | ha
      · exact absurd (Option.some.inj (hvalue.symm.trans hs)) hne
      · exact ih ha (by simp [hearlier, hne.symm])
  | case4 earlier m ms value hvalue halias ih =>
      by_cases hsame : value = s
      · exact ⟨m, List.mem_cons_self, hsame ▸ hvalue⟩
      · rcases List.mem_cons.mp ha with rfl | ha
        · exact absurd (Option.some.inj (hvalue.symm.trans hs)) hsame
        · obtain ⟨b, hb, hvalue'⟩ :=
            ih ha (by simp [hearlier, Ne.symm hsame])
          exact ⟨b, List.mem_cons_of_mem m hb, hvalue'⟩

/-! ## The lines of the switch -/

/-- The case of an enumerator. -/
def caseLine (ctx : Context) (e : Entity) (m : Member) : Text :=
  Text.concat ["        case ", qualified e.scope m.name, ": return \"",
    strippedName (ctx.enumPrefix e) m.name, "\";\n"]

/-- The function that turns a value into its name, up to the default case. -/
def switchText (ctx : Context) (e : Entity) (cases : List Member) : Text :=
  Text.concat ["std::string ode_napi_enum_to_string(", e.qualifiedName,
    " value) \x7b\n    switch(value) \x7b\n", cases.flatMap (caseLine ctx e),
    "        default: "]

/-- The glue of an enumeration starts with a switch whose cases are those of
`caseMembers`, in order. -/
theorem switchText_definitions (ctx : Context) (e : Entity) :
    switchText ctx e (caseMembers e) <+: (enumGlue ctx e).definitions := by
  have hline : caseLine ctx e = fun m => code
      [["        case ", qualified e.scope m.name, ": return \"",
        strippedName (ctx.enumPrefix e) m.name, "\";"]] := by
    funext m
    simp [code, caseLine, Text.concat]
  rw [enumGlue, ← hline]
  simp [switchText, code, Text.concat]

/-! ## Which cases have the same number -/

/-- The text is the value of an enumerator, and not the name of one. -/
def IsSpelling (e : Entity) (s : Text) : Prop :=
  (∃ a ∈ e.membersOf .enumValue, a.value = some s) ∧
    s ∉ (e.membersOf .enumValue).map Member.name

/-- The values of two enumerators stand for different things, if for any. -/
def StandApart {α : Type} (standsFor : Text → α → Prop) (a b : Member) : Prop :=
  ∀ s t x y, a.value = some s → b.value = some t → standsFor s x →
    standsFor t y → x ≠ y

instance {α : Type} (standsFor : Text → α → Prop) :
    Std.Symm (StandApart standsFor) where
  symm _ _ h s t x y hs ht hx hy hxy := h t s y x ht hs hy hx hxy.symm

/-- Cases stand for different things if and only if different spellings do. -/
theorem caseMembers_standApart_iff {α : Type} (standsFor : Text → α → Prop)
    (e : Entity) :
    (caseMembers e).Pairwise (StandApart standsFor) ↔
      ∀ s t x, IsSpelling e s → IsSpelling e t → standsFor s x →
        standsFor t x → s = t := by
  constructor
  · rintro hpairwise s t x ⟨⟨a, ha, hs⟩, hs'⟩ ⟨⟨b, hb, ht⟩, ht'⟩ hx hx'
    obtain ⟨a, ha, hs⟩ :=
      exists_mem_caseMembersFrom ha hs List.not_mem_nil hs'
    obtain ⟨b, hb, ht⟩ :=
      exists_mem_caseMembersFrom hb ht List.not_mem_nil ht'
    by_contra hne
    have hdiffer : a ≠ b := by
      rintro rfl
      exact hne (Option.some.inj (hs.symm.trans ht))
    exact hpairwise.forall ha hb hdiffer s t x x hs ht hx hx' rfl
  · intro hspelling
    refine (caseMembersFrom_pairwise _ _ _).imp_of_mem ?_
    rintro a b ha hb hdiffer s t x _ hs ht hx hx' rfl
    obtain ⟨ha, _, hs'⟩ := mem_of_mem_caseMembersFrom ha hs
    obtain ⟨hb, _, ht'⟩ := mem_of_mem_caseMembersFrom hb ht
    have hsame := hspelling s t x ⟨⟨a, ha, hs⟩, hs'⟩ ⟨⟨b, hb, ht⟩, ht'⟩ hx hx'
    exact hdiffer s hs (hsame ▸ ht)

/-- The text is a decimal or hexadecimal literal, of which zero is one. -/
def SpellsInteger (t : Text) (n : Nat) : Prop :=
  ∃ l : IntegerLiteral, (l.base = .octal → l.digits = ['0']) ∧
    l.text = t ∧ l.value = n

/-- Cases with literals have different numbers if and only if the enumerators
do not spell a number in two ways.  Plain decimal numbers are spelled in one
way, so their cases always differ. -/
theorem case_labels_differ_iff (e : Entity) :
    (∀ ctx : Context,
      switchText ctx e (caseMembers e) <+: (enumGlue ctx e).definitions) ∧
    ((caseMembers e).Pairwise (StandApart SpellsInteger) ↔
      ∀ s t n, IsSpelling e s → IsSpelling e t → SpellsInteger s n →
        SpellsInteger t n → s = t) ∧
    (caseMembers e).Pairwise (StandApart fun t n => t = Text.ofInt n) := by
  refine ⟨fun ctx => switchText_definitions ctx e,
    caseMembers_standApart_iff SpellsInteger e, ?_⟩
  rw [caseMembers_standApart_iff]
  rintro s t n _ _ rfl rfl
  rfl

/-- A number that is spelled both in decimal and in hexadecimal. -/
theorem spellings_repeat_case_label :
    let decimal : Member :=
      { category := .enumValue, name := "ODE_A", value := some "1" }
    let hexadecimal : Member :=
      { category := .enumValue, name := "ODE_B", value := some "0x1" }
    ∃ e ∈ Header.parse {} "typedef enum { ODE_A = 1, ODE_B = 0x1 } ODE_E;",
      caseMembers e = [decimal, hexadecimal] ∧
      caseLine {} e decimal ++ caseLine {} e hexadecimal <:+:
        (enumGlue {} e).definitions ∧
      ¬ (caseMembers e).Pairwise (StandApart SpellsInteger) := by
  intro decimal hexadecimal
  let e : Entity :=
    { category := .enum, name := "ODE_E", members := [decimal, hexadecimal] }
  have hcases : caseMembers e = [decimal, hexadecimal] := by decide +kernel
  refine ⟨e, by decide +kernel, hcases, by decide +kernel, ?_⟩
  rw [hcases, List.pairwise_pair]
  intro hapart
  refine hapart "1" "0x1" 1 1 rfl rfl ?_ ?_ rfl
  · exact ⟨{ base := .decimal, digits := "1" }, by decide, rfl, rfl⟩
  · exact ⟨{ base := .hexadecimal, digits := "1" }, by decide, rfl, rfl⟩

end Bindery.Napi
