import Bindery.Proofs.EnumNumbering
import Bindery.Proofs.IntegerLiterals

/-!
# The values of enumerators in C

C gives an enumerator without initializer the value of the one before it plus
one, and the first one zero.  Numbering by texts gives the same values as long
as the initializer in front of a run of enumerators is read with its value:
`implicit_value_iff`.
-/

namespace Bindery

open Source
open Written (DataModel IntegerConstant)

/-! ## Going back from a printed number -/

theorem Text.ofNat_injective : Function.Injective Text.ofNat := by
  intro a b h
  rw [← ofDigitChars_ofNat a, h, ofDigitChars_ofNat]

theorem Text.ofInt_injective : Function.Injective Text.ofInt := by
  have hdigit (n : Nat) : '-' ∉ Text.ofNat n :=
    fun h => absurd (isDigit_ofNat n '-' h) (by decide)
  intro a b h
  cases a with
  | ofNat a =>
      cases b with
      | ofNat b => rw [Text.ofNat_injective h]
      | negSucc b =>
          rw [Text.ofInt, Text.ofInt] at h
          exact absurd (h ▸ List.mem_cons_self) (hdigit a)
  | negSucc a =>
      cases b with
      | ofNat b =>
          rw [Text.ofInt, Text.ofInt] at h
          exact absurd (h ▸ List.mem_cons_self) (hdigit b)
      | negSucc b =>
          have hsame := Text.ofNat_injective (List.cons.inj h).2
          rw [Nat.succ.inj hsame]

theorem eq_of_integer?_ofInt {n n' : Int}
    (h : integer? (Text.ofInt n) = some n') : n = n' := by
  cases n with
  | ofNat n =>
      rw [Text.ofInt, integer?_of_isDigit (t := Text.ofNat n)
        Nat.toDigits_ne_nil (isDigit_ofNat n), ofDigitChars_ofNat,
        Option.ite_none_right_eq_some] at h
      exact Option.some.inj h.2
  | negSucc n =>
      have hchars : ∀ c ∈ '-' :: Text.ofNat (n + 1),
          c.isDigit = true ∨ c = '-' := by
        intro c hc
        rcases List.mem_cons.mp hc with hc | hc
        · exact .inr hc
        · exact .inl (isDigit_ofNat (n + 1) c hc)
      rw [Text.ofInt, integer?_eq_signed? hchars, signed?_minus,
        natural?_of_isDigit (t := Text.ofNat (n + 1)) Nat.toDigits_ne_nil
          (isDigit_ofNat (n + 1)),
        ofDigitChars_ofNat, Option.bind_some,
        Option.ite_none_right_eq_some] at h
      exact Option.some.inj h.2

theorem nextValue_eq_ofInt_iff {value : Option Text} {n : Int}
    (hlow : -2 ^ 63 ≤ n) (hhigh : n + 1 < 2 ^ 63) :
    nextValue value = some (Text.ofInt (n + 1)) ↔
      value.bind integer? = some n := by
  rw [nextValue, implicitValue, Option.map_eq_some_iff]
  constructor
  · rintro ⟨n', hread, hprinted⟩
    obtain ⟨t, _, hinteger⟩ := Option.bind_eq_some_iff.mp hread
    have hrange := integer?_range hinteger
    have hsame := Text.ofInt_injective hprinted
    have hnext : n' + 1 < 2 ^ 63 := by
      by_contra hgreatest
      -- Behind the greatest number stands the least, which is not `n + 1`.
      rw [show n' = 2 ^ 63 - 1 by omega, increment_greatest] at hsame
      omega
    rw [increment_of_lt hrange.1 hnext] at hsame
    rwa [show n' = n by omega] at hread
  · intro hread
    exact ⟨n, hread, by rw [increment_of_lt hlow hhigh]⟩

/-- A run that starts from a text reaches a number only if the text is read
with the number in front of the run. -/
theorem iterate_nextValue_iff {t : Text} {n : Int} (hlow : -2 ^ 63 ≤ n)
    {k : Nat} (hhigh : n + (k + 1 : Nat) < 2 ^ 63) :
    nextValue^[k + 1] (some t) = some (Text.ofInt (n + (k + 1 : Nat))) ↔
      integer? t = some n := by
  induction k with
  | zero => exact nextValue_eq_ofInt_iff hlow hhigh
  | succ k ih =>
      push_cast at hhigh ih ⊢
      rw [← ih (by omega), Function.iterate_succ_apply', ← add_assoc,
        nextValue_eq_ofInt_iff (by omega) (by omega),
        Function.iterate_succ_apply']
      constructor
      · intro hread
        obtain ⟨printed, hvalue, hread⟩ := Option.bind_eq_some_iff.mp hread
        obtain ⟨n', _, rfl⟩ := Option.map_eq_some_iff.mp hvalue
        rw [hvalue, eq_of_integer?_ofInt hread]
      · intro hvalue
        rw [hvalue]
        exact integer?_ofInt (by omega) (by omega)

/-! ## The values of C -/

/-- The values of enumerators with the given initializers; `next` is that of
the first one if it has no initializer. -/
def assignedFrom (m : DataModel) :
    (next : Int) → List (Option IntegerConstant) → List Int
  | _, [] => []
  | next, k :: ks =>
    let value := (k.map (·.value m)).getD next
    value :: assignedFrom m (value + 1) ks

def assigned (m : DataModel) (ks : List (Option IntegerConstant)) : List Int :=
  assignedFrom m 0 ks

variable {m : DataModel} {ks : List (Option IntegerConstant)}
  {k : IntegerConstant} {next v : Int} {i j : Nat}

theorem assignedFrom_constant (h : ks[i]? = some (some k)) :
    (assignedFrom m next ks)[i]? = some (k.value m) := by
  induction ks generalizing next i with
  | nil => simp at h
  | cons k' ks ih =>
      cases i with
      | zero =>
          rw [List.getElem?_cons_zero, Option.some.injEq] at h
          rw [h]
          rfl
      | succ i => exact ih h

theorem assignedFrom_zero (h : ks[0]? = some none) :
    (assignedFrom m next ks)[0]? = some next := by
  cases ks with
  | nil => simp at h
  | cons k' ks =>
      rw [List.getElem?_cons_zero, Option.some.injEq] at h
      rw [h]
      rfl

theorem assignedFrom_succ (hv : (assignedFrom m next ks)[i]? = some v)
    (h : ks[i + 1]? = some none) :
    (assignedFrom m next ks)[i + 1]? = some (v + 1) := by
  induction ks generalizing next i with
  | nil => simp at h
  | cons k' ks ih =>
      cases i with
      | zero =>
          rw [assignedFrom, List.getElem?_cons_zero, Option.some.injEq] at hv
          rw [assignedFrom, hv]
          exact assignedFrom_zero h
      | succ i => exact ih hv h

theorem assignedFrom_run {n : Nat}
    (hv : (assignedFrom m next ks)[i]? = some v)
    (h : ∀ l, i < l → l ≤ i + n → ks[l]? = some none) :
    (assignedFrom m next ks)[i + n]? = some (v + n) := by
  induction n with
  | zero => simpa using hv
  | succ n ih =>
      have hbefore := ih fun l hl hl' => h l hl (by omega)
      have hstep := assignedFrom_succ hbefore (h (i + n + 1) (by omega) le_rfl)
      have hsum : v + (n + 1 : Nat) = v + n + 1 := by omega
      rw [hsum]
      exact hstep

/-- The constant is the last initializer in front of the index. -/
def LastConstant (ks : List (Option IntegerConstant)) (i : Nat)
    (k : IntegerConstant) : Prop :=
  ∃ j < i, ks[j]? = some (some k) ∧ ∀ l, j < l → l < i → ks[l]? = some none

theorem LastConstant.unique {k' : IntegerConstant} (h : LastConstant ks i k)
    (h' : LastConstant ks i k') : k = k' := by
  obtain ⟨j, hj, hk, hbetween⟩ := h
  obtain ⟨j', hj', hk', hbetween'⟩ := h'
  rcases Nat.lt_trichotomy j j' with hlt | rfl | hlt
  · exact absurd ((hbetween j' hlt hj').symm.trans hk') (by simp)
  · exact Option.some.inj (Option.some.inj (hk.symm.trans hk'))
  · exact absurd ((hbetween' j hlt hj).symm.trans hk) (by simp)

theorem run_or_lastConstant (h : ks[i]? = some none) :
    (∀ l ≤ i, ks[l]? = some none) ∨ ∃ k, LastConstant ks i k := by
  induction i with
  | zero =>
      left
      intro l hl
      rwa [Nat.le_zero.mp hl]
  | succ i ih =>
      have hlength : i < ks.length := by
        have hlt := (List.getElem?_eq_some_iff.mp h).1
        omega
      cases hi : ks[i] with
      | none =>
          have hbefore : ks[i]? = some none := by
            rw [List.getElem?_eq_getElem hlength, hi]
          rcases ih hbefore with hrun | ⟨k, j, hj, hk, hbetween⟩
          · left
            intro l hl
            rcases Nat.le_succ_iff.mp hl with hl | rfl
            · exact hrun l hl
            · exact h
          · right
            refine ⟨k, j, by omega, hk, fun l hl hl' => ?_⟩
            by_cases hlast : l = i
            · rwa [hlast]
            · exact hbetween l hl (by omega)
      | some k =>
          right
          refine ⟨k, i, by omega, ?_, fun l hl hl' => by omega⟩
          rw [List.getElem?_eq_getElem hlength, hi]

theorem initializerAt_eq {es : List Enumerator}
    (h : es.map Enumerator.value = ks.map (Option.map IntegerConstant.text))
    (i : Nat) :
    initializerAt es i = ks[i]?.join.map IntegerConstant.text := by
  have hi := congrArg (·[i]?) h
  simp only [List.getElem?_map] at hi
  unfold initializerAt
  cases hes : es[i]? with
  | none =>
      rw [hes] at hi
      rw [Option.map_eq_none_iff.mp hi.symm]
      rfl
  | some e =>
      rw [hes, Option.map_some] at hi
      obtain ⟨k, hk, hvalue⟩ := Option.map_eq_some_iff.mp hi.symm
      rw [hk, Option.bind_some, ← hvalue]
      rfl

/-- An enumerator without initializer has the value that C gives it if and only
if the last initializer in front of it is read with its value. -/
theorem implicit_value_iff {m : DataModel} {scope : List Text}
    {doc : Option Text} {c : Compound} {entity : Entity}
    (h : enumEntity? scope doc c = some entity)
    {ks : List (Option IntegerConstant)}
    (hks : (enumerators c.body).map Enumerator.value =
      ks.map (Option.map IntegerConstant.text))
    (hfits : ∀ k, some k ∈ ks → k.Fits m) {i : Nat} {member : Member} {v : Int}
    (hmember : entity.members[i]? = some member) (hnone : ks[i]? = some none)
    (hv : (assigned m ks)[i]? = some v) (hsize : v < 2 ^ 63) :
    member.value = some (Text.ofInt v) ↔
      ∀ k, LastConstant ks i k → k.IsRead := by
  obtain ⟨name, _, rfl⟩ := Option.map_eq_some_iff.mp h
  change (enumMembersFrom none (enumerators c.body))[i]? =
    some member at hmember
  have habsent : ∀ l, ks[l]? = some none →
      initializerAt (enumerators c.body) l = none := by
    intro l hl
    rw [initializerAt_eq hks, hl]
    rfl
  rcases run_or_lastConstant hnone with hrun | ⟨k, hlast⟩
  · -- Without an initializer the values are the indices, in C and here.
    have hread : ∀ k, LastConstant ks i k → k.IsRead := by
      rintro k ⟨j, hj, hk, _⟩
      exact absurd ((hrun j (by omega)).symm.trans hk) (by simp)
    have hzero : (assigned m ks)[0]? = some 0 :=
      assignedFrom_zero (hrun 0 (by omega))
    have hcount := assignedFrom_run (n := i) hzero
      fun l _ hl => hrun l (by omega)
    rw [zero_add, zero_add] at hcount
    have hsame : v = i := Option.some.inj (hv.symm.trans hcount)
    have hvalue := value_of_run (fun l hl => habsent l (hrun l hl)) hmember
    have hprinted := iterate_nextValue (n := 0) (by decide) (k := i) (by omega)
    rw [zero_add] at hprinted
    rw [hsame]
    exact ⟨fun _ => hread, fun _ => hvalue.trans hprinted⟩
  · have hunique : (∀ k, LastConstant ks i k → k.IsRead) ↔ k.IsRead :=
      ⟨fun hall => hall k hlast, fun hk k' h' => hlast.unique h' ▸ hk⟩
    obtain ⟨j, hj, hk, hbetween⟩ := hlast
    have hnearest : NearestInitializer (enumerators c.body) i j k.text := by
      refine ⟨hj, ?_, fun l hl hl' => habsent l (hbetween l hl hl')⟩
      rw [initializerAt_eq hks, hk]
      rfl
    obtain ⟨n, rfl⟩ : ∃ n, i = j + (n + 1) := ⟨i - j - 1, by omega⟩
    have hconstant : (assigned m ks)[j]? = some (k.value m) :=
      assignedFrom_constant hk
    have hcount := assignedFrom_run (n := n + 1) hconstant (by
      intro l hl hl'
      by_cases hend : l = j + (n + 1)
      · rwa [hend]
      · exact hbetween l hl (by omega))
    have hsame : v = k.value m + (n + 1 : Nat) :=
      Option.some.inj (hv.symm.trans hcount)
    have hvalue := value_of_nearest hnearest (habsent _ hnone) hmember
    rw [Nat.add_sub_cancel_left] at hvalue
    have hk' : k.Fits m := hfits k (List.mem_of_getElem? hk)
    rw [hsame] at hsize ⊢
    rw [hvalue, hunique, iterate_nextValue_iff hk'.1 hsize,
      IntegerConstant.integer?_text_iff hk']

/-- Behind a hexadecimal literal with a suffix, and further back a negative
one. -/
theorem implicit_value_hexadecimal :
    let m : DataModel := ⟨32, 64, 64, by decide, by decide, by decide⟩
    let minusThree : IntegerConstant :=
      { literal := { base := .decimal, digits := "3" }, minus := some [] }
    let thirtyOne : IntegerConstant :=
      { literal :=
          { base := .hexadecimal, digits := "1f", capital := true
            suffix := { unsignedMark := "u", lengthMark := "LL" } } }
    let ks := [some minusThree, none, some thirtyOne, none, none]
    let c : Compound :=
      { qualifier := some "typedef", tag := []
        body := "ODE_A = -3, ODE_B, ODE_C = 0X1fuLL, ODE_D, ODE_E"
        declarator := "ODE_N" }
    (enumerators c.body).map Enumerator.value =
        ks.map (Option.map IntegerConstant.text) ∧
      (∀ k, some k ∈ ks → k.Fits m) ∧ (assigned m ks)[4]? = some 33 ∧
      ∃ entity member, enumEntity? [] none c = some entity ∧
        entity.members[4]? = some member ∧ ks[4]? = some none ∧
        member.value = some ("33" : Text) := by
  intro m minusThree thirtyOne ks c
  have hks : (enumerators c.body).map Enumerator.value =
      ks.map (Option.map IntegerConstant.text) := by
    decide +kernel
  have hfits : ∀ k, some k ∈ ks → k.Fits m := by
    intro k hk
    simp only [ks, List.mem_cons, Option.some.injEq, reduceCtorEq,
      List.not_mem_nil, or_false, false_or] at hk
    rcases hk with rfl | rfl
    · exact ⟨by decide, by decide⟩
    · exact ⟨by decide, by decide⟩
  have hv : (assigned m ks)[4]? = some 33 := by decide +kernel
  have hfound : ((enumEntity? [] none c).bind (·.members[4]?)).isSome =
      true := by
    decide +kernel
  obtain ⟨member, hmember⟩ := Option.isSome_iff_exists.mp hfound
  obtain ⟨entity, hentity, hmember⟩ := Option.bind_eq_some_iff.mp hmember
  have hlast : LastConstant ks 4 thirtyOne := by
    refine ⟨2, by decide, rfl, fun l hl hl' => ?_⟩
    obtain rfl : l = 3 := by omega
    rfl
  have hread : thirtyOne.IsRead := ⟨by simp [thirtyOne], by simp [thirtyOne]⟩
  refine ⟨hks, hfits, hv, entity, member, hentity, hmember, rfl, ?_⟩
  exact (implicit_value_iff hentity hks hfits hmember rfl hv (by decide)).mpr
    fun k hk => hlast.unique hk ▸ hread

/-- A literal with a leading zero is octal in C and decimal here. -/
theorem octal_initializer_taken_for_decimal :
    let ks : List (Option IntegerConstant) :=
      [some { literal := { base := .octal, digits := "010" } }, none]
    let c : Compound :=
      { qualifier := some "typedef", tag := [], body := "ODE_A = 010, ODE_B"
        declarator := "ODE_E" }
    (enumerators c.body).map Enumerator.value =
        ks.map (Option.map IntegerConstant.text) ∧
      (∀ m, (assigned m ks)[1]? = some 9) ∧
      ∃ entity ∈ Header.parse {} "typedef enum { ODE_A = 010, ODE_B } ODE_E;",
        enumEntity? [] none c = some entity ∧
        entity.members.map Member.value =
          [some ("010" : Text), some ("11" : Text)] := by
  refine ⟨by decide +kernel, fun m => rfl, ?_⟩
  decide +kernel

end Bindery
