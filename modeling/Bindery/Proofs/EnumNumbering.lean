import Bindery.Proofs.Enumerations

/-!
# How enumerators are numbered

An enumerator without initializer has the value of its predecessor plus one.
Values are texts: each is printed and read again by the next enumerator.  A
number of 64 bits survives this, so a run of enumerators without initializer
counts on from the initializer in front of the run, or from zero if there is
none.  If that initializer is no integer literal, nothing is known about the
values behind it, up to the next initializer.
-/

namespace Bindery

open Source

/-! ## One enumerator after another -/

/-- The value of an enumerator without initializer behind one with the given
value. -/
def nextValue (value : Option Text) : Option Text := implicitValue (some value)

/-- The number behind another one, as long as it fits. -/
theorem nextValue_of_integer? {t : Text} {n : Int} (h : integer? t = some n)
    (hhigh : n + 1 < 2 ^ 63) :
    nextValue (some t) = some (Text.ofInt (n + 1)) := by
  rw [nextValue, implicitValue, Option.bind_some, h, Option.map_some,
    increment_of_lt (integer?_range h).1 hhigh]

/-- As long as the numbers fit they can be printed and read any number of
times. -/
theorem iterate_nextValue {n : Int} (hlow : -2 ^ 63 ≤ n) {k : Nat}
    (hhigh : n + k < 2 ^ 63) :
    nextValue^[k] (some (Text.ofInt n)) = some (Text.ofInt (n + k)) := by
  induction k with
  | zero => simp
  | succ k ih =>
      push_cast at hhigh
      have hbefore := ih (by omega)
      have hread : integer? (Text.ofInt (n + k)) = some (n + k) :=
        integer?_ofInt (by omega) (by omega)
      rw [Function.iterate_succ_apply', hbefore,
        nextValue_of_integer? hread (by omega)]
      push_cast
      rw [add_assoc]

theorem iterate_nextValue_none (k : Nat) : nextValue^[k] none = none :=
  Function.iterate_fixed rfl k

/-- The initializer of the enumerator at the index. -/
def initializerAt (es : List Enumerator) (i : Nat) : Option Text :=
  es[i]?.bind Enumerator.value

/-- The initializer `t` at `j` is the last one in front of `i`. -/
structure NearestInitializer (es : List Enumerator) (i j : Nat) (t : Text) :
    Prop where
  before : j < i
  written : initializerAt es j = some t
  between : ∀ k, j < k → k < i → initializerAt es k = none

variable {previous : Option (Option Text)} {es : List Enumerator}
  {i : Nat} {m : Member}

theorem map_name_enumMembersFrom (previous : Option (Option Text))
    (es : List Enumerator) :
    (enumMembersFrom previous es).map Member.name =
      es.map Enumerator.name := by
  induction es generalizing previous with
  | nil => rfl
  | cons e es ih => rw [enumMembersFrom, List.map_cons, List.map_cons, ih]

theorem value_of_initializer {t : Text} (h : initializerAt es i = some t)
    (hm : (enumMembersFrom previous es)[i]? = some m) : m.value = some t := by
  induction es generalizing previous i with
  | nil => simp [enumMembersFrom] at hm
  | cons e es ih =>
      rw [enumMembersFrom] at hm
      cases i with
      | zero =>
          have hvalue : e.value = some t := by simpa [initializerAt] using h
          rw [List.getElem?_cons_zero, Option.some.injEq] at hm
          rw [← hm, hvalue]
          rfl
      | succ i => exact ih h hm

/-- In a run without initializers each value follows from the one before. -/
theorem value_of_run (hnone : ∀ j ≤ i, initializerAt es j = none)
    (hm : (enumMembersFrom previous es)[i]? = some m) :
    m.value = nextValue^[i] (implicitValue previous) := by
  induction es generalizing previous i with
  | nil => simp [enumMembersFrom] at hm
  | cons e es ih =>
      have hvalue : e.value = none := by
        simpa [initializerAt] using hnone 0 (Nat.zero_le i)
      rw [enumMembersFrom, hvalue, Option.none_or] at hm
      cases i with
      | zero =>
          rw [List.getElem?_cons_zero, Option.some.injEq] at hm
          rw [← hm]
          rfl
      | succ i =>
          rw [Function.iterate_succ_apply]
          exact ih (fun j hj => hnone (j + 1) (by omega)) hm

/-- Behind a member the numbering goes on from its value. -/
theorem drop_enumMembersFrom
    (hm : (enumMembersFrom previous es)[i]? = some m) :
    (enumMembersFrom previous es).drop (i + 1) =
      enumMembersFrom (some m.value) (es.drop (i + 1)) := by
  induction es generalizing previous i with
  | nil => simp [enumMembersFrom] at hm
  | cons e es ih =>
      rw [enumMembersFrom] at hm ⊢
      cases i with
      | zero =>
          rw [List.getElem?_cons_zero, Option.some.injEq] at hm
          rw [← hm]
          rfl
      | succ i => exact ih hm

/-- Enumerators behind the last initializer are numbered from it on. -/
theorem value_of_nearest {j : Nat} {t : Text}
    (h : NearestInitializer es i j t) (hi : initializerAt es i = none)
    (hm : (enumMembersFrom previous es)[i]? = some m) :
    m.value = nextValue^[i - j] (some t) := by
  have hbefore := h.before
  obtain ⟨k, rfl⟩ : ∃ k, i = j + 1 + k := ⟨i - j - 1, by omega⟩
  have hlength : j < (enumMembersFrom previous es).length := by
    have hlt := (List.getElem?_eq_some_iff.mp hm).1
    omega
  have hj := List.getElem?_eq_getElem hlength
  have hvalue := value_of_initializer h.written hj
  have hrun : (enumMembersFrom (some (some t)) (es.drop (j + 1)))[k]? =
      some m := by
    rw [← hvalue, ← drop_enumMembersFrom hj, List.getElem?_drop]
    exact hm
  have hnone : ∀ l ≤ k, initializerAt (es.drop (j + 1)) l = none := by
    intro l hl
    unfold initializerAt
    rw [List.getElem?_drop]
    by_cases hlast : l = k
    · rw [hlast]
      exact hi
    · exact h.between (j + 1 + l) (by omega) (by omega)
  rw [value_of_run hnone hrun, show j + 1 + k - j = k + 1 by omega,
    Function.iterate_succ_apply]
  rfl

/-! ## Enumerations -/

/-- The enumerators that are read off the body of an enumeration. -/
def enumerators (body : Text) : List Enumerator :=
  (splitList ',' body).filterMap Enumerator.parse?

/-- The members of an enumeration are its enumerators in order.  An initializer
is the value as it is written.  Without one, the value is the index if there is
no initializer before, and else the value of the last initializer plus the
distance to it; it is missing if that initializer is no integer literal. -/
theorem enumerators_numbered {scope : List Text} {doc : Option Text}
    {c : Compound} {entity : Entity}
    (h : enumEntity? scope doc c = some entity) :
    let es := enumerators c.body
    entity.members.map Member.name = es.map Enumerator.name ∧
    ∀ (i : Nat) (m : Member), entity.members[i]? = some m →
      (∀ t, initializerAt es i = some t → m.value = some t) ∧
      (initializerAt es i = none → (∀ j < i, initializerAt es j = none) →
        i < 2 ^ 63 → m.value = some (Text.ofNat i)) ∧
      (initializerAt es i = none → ∀ j t, NearestInitializer es i j t →
        (∀ v, integer? t = some v → v + (i - j) < 2 ^ 63 →
          m.value = some (Text.ofInt (v + (i - j)))) ∧
        (integer? t = none → m.value = none)) := by
  intro es
  obtain ⟨name, _, rfl⟩ := Option.map_eq_some_iff.mp h
  refine ⟨map_name_enumMembersFrom none es, ?_⟩
  intro i m hm
  change (enumMembersFrom none es)[i]? = some m at hm
  refine ⟨fun t ht => value_of_initializer ht hm, ?_, ?_⟩
  · intro hi hnone hsize
    have hall : ∀ j ≤ i, initializerAt es j = none := by
      intro j hj
      by_cases hlast : j = i
      · rw [hlast]
        exact hi
      · exact hnone j (by omega)
    have hcount := iterate_nextValue (n := 0) (by decide) (k := i) (by omega)
    rw [zero_add] at hcount
    exact (value_of_run hall hm).trans hcount
  · intro hi j t hnearest
    have hvalue := value_of_nearest hnearest hi hm
    have hbefore := hnearest.before
    obtain ⟨k, hk⟩ : ∃ k, i - j = k + 1 := ⟨i - j - 1, by omega⟩
    rw [hk, Function.iterate_succ_apply] at hvalue
    constructor
    · intro v hv hsize
      have hrange := integer?_range hv
      have hdistance : v + ((i : Int) - j) = v + 1 + k := by omega
      rw [hdistance] at hsize ⊢
      rw [hvalue, nextValue_of_integer? hv (by omega),
        iterate_nextValue (by omega) hsize]
    · intro hv
      have hnext : nextValue (some t) = none := by
        rw [nextValue, implicitValue, Option.bind_some, hv]
        rfl
      rw [hvalue, hnext, iterate_nextValue_none]

/-- The third enumerator behind a negative number, with commas in comments and
an initializer that is no literal further on. -/
theorem enumerators_numbered_negative :
    let c : Compound :=
      { qualifier := some "typedef", tag := []
        body := "A, /* x, */ B = -2, // y,\n C, D, E, F = A | B, G"
        declarator := "ODE_E" }
    ∃ entity m, enumEntity? [] none c = some entity ∧
      entity.members[4]? = some m ∧
      initializerAt (enumerators c.body) 4 = none ∧
      NearestInitializer (enumerators c.body) 4 1 "-2" ∧
      integer? "-2" = some (-2) ∧ m.value = some ("1" : Text) := by
  intro c
  have hnone : initializerAt (enumerators c.body) 4 = none := by
    decide +kernel
  have hnearest : NearestInitializer (enumerators c.body) 4 1 "-2" := by
    refine ⟨by decide, by decide +kernel, ?_⟩
    intro k hk hk'
    interval_cases k
    · decide +kernel
    · decide +kernel
  have hread : integer? "-2" = some (-2) := by decide +kernel
  obtain ⟨entity, hentity⟩ : ∃ entity, enumEntity? [] none c = some entity :=
    ⟨_, rfl⟩
  obtain ⟨hnames, hvalues⟩ := enumerators_numbered hentity
  obtain ⟨m, hm⟩ : ∃ m, entity.members[4]? = some m := by
    have hlength := congrArg List.length hnames
    have hcount : (enumerators c.body).length = 7 := by decide +kernel
    rw [List.length_map, List.length_map, hcount] at hlength
    exact ⟨_, List.getElem?_eq_getElem (by omega)⟩
  exact ⟨entity, m, hentity, hm, hnone, hnearest, hread,
    ((hvalues 4 m hm).2.2 hnone 1 _ hnearest).1 (-2) hread (by decide)⟩

end Bindery
