import Bindery.Proofs.Reading

/-!
# Which remainder a matcher prefers

The first remainder that a matcher lists is the one it prefers.  A rule takes
the preferred remainder at every step if that lets the whole rule succeed, so
on a text that was written for it a rule can be followed step by step.  Where
an earlier choice is refused later, the list of all remainders is needed: for
a repetition that has to end with a character of another class this list is
computed by `endsFrom` in one pass over the text.
-/

namespace Bindery

/-- The text does not begin with a character of the class. -/
def Text.Stops (p : Char → Bool) (t : Text) : Prop :=
  ∀ c ∈ t.head?, p c = false

namespace Text

variable {p : Char → Bool}

theorem stops_cons {c : Char} (h : p c = false) (t : Text) :
    Stops p (c :: t) := by
  intro a ha
  rw [List.head?_cons, Option.mem_some_iff] at ha
  exact ha ▸ h

theorem stops_dropWhile (p : Char → Bool) (t : Text) :
    Stops p (t.dropWhile p) := by
  intro c hc
  have hnot := List.head?_dropWhile_not p t
  rw [Option.mem_def.mp hc] at hnot
  simpa using hnot

theorem Stops.dropWhile_eq {t : Text} (h : Stops p t) :
    t.dropWhile p = t := by
  cases t with
  | nil => rfl
  | cons c t =>
      rw [List.dropWhile_cons_of_neg]
      rw [h c rfl]
      simp

theorem Stops.dropWhile_append {x t : Text} (h : Stops p t)
    (hx : ∀ c ∈ x, p c = true) : (x ++ t).dropWhile p = t := by
  rw [List.dropWhile_append_of_pos hx, h.dropWhile_eq]

end Text

namespace Matcher

variable {p q : Char → Bool} {m : Matcher} {ms : List Matcher}
  {t mid rest : Text}

def Prefers (m : Matcher) (t rest : Text) : Prop :=
  (m t).head? = some rest

theorem Prefers.of_eq (h : m t = [rest]) : Prefers m t rest := by
  unfold Prefers
  rw [h]
  rfl

theorem Prefers.exists_cons (h : Prefers m t rest) :
    ∃ others, m t = rest :: others :=
  List.head?_eq_some_iff.mp h

theorem prefers_sequence_nil : Prefers (sequence []) t t :=
  rfl

/-- A sequence prefers what its matchers prefer one after another. -/
theorem Prefers.cons (h : Prefers m t mid)
    (hms : Prefers (sequence ms) mid rest) :
    Prefers (sequence (m :: ms)) t rest := by
  obtain ⟨others, ht⟩ := h.exists_cons
  obtain ⟨others', hmid⟩ := hms.exists_cons
  unfold Prefers
  rw [sequence_cons, ht, List.flatMap_cons, hmid]
  rfl

theorem Prefers.either {n : Matcher} (h : Prefers m t rest) :
    Prefers (either m n) t rest := by
  obtain ⟨others, ht⟩ := h.exists_cons
  unfold Prefers Matcher.either
  rw [ht]
  rfl

theorem Prefers.optional (h : Prefers m t rest) :
    Prefers (optional m) t rest := by
  obtain ⟨others, ht⟩ := h.exists_cons
  unfold Prefers Matcher.optional
  rw [ht]
  rfl

theorem prefers_optional_self (h : m t = []) : Prefers (optional m) t t := by
  unfold Prefers Matcher.optional
  rw [h]
  rfl

theorem prefers_literal (word rest : Text) :
    Prefers (literal word) (word ++ rest) rest := by
  apply Prefers.of_eq
  unfold literal
  rw [Text.after?_eq_some_iff.mpr rfl]
  rfl

theorem prefers_one {c : Char} (h : p c = true) (t : Text) :
    Prefers (one p) (c :: t) t := by
  apply Prefers.of_eq
  rw [one, if_pos h]

theorem prefers_run {x : Text} (hx : ∀ c ∈ x, p c = true)
    (hrest : Text.Stops p rest) : Prefers (run p) (x ++ rest) rest := by
  apply Prefers.of_eq
  unfold run
  rw [hrest.dropWhile_append hx]

theorem prefers_run_self (h : Text.Stops p t) : Prefers (run p) t t :=
  prefers_run (x := []) (by simp) h

theorem prefers_run1 {x : Text} (hne : x ≠ []) (hx : ∀ c ∈ x, p c = true)
    (hrest : Text.Stops p rest) : Prefers (run1 p) (x ++ rest) rest := by
  cases x with
  | nil => contradiction
  | cons c x =>
      simp only [List.mem_cons, forall_eq_or_imp] at hx
      apply Prefers.of_eq
      rw [List.cons_append, run1, if_pos hx.1,
        hrest.dropWhile_append hx.2]

theorem run1_eq_nil (h : Text.Stops p t) : run1 p t = [] := by
  cases t with
  | nil => rfl
  | cons c t =>
      rw [run1, if_neg]
      simp [h c rfl]

theorem manyFrom_append {x : Text} (hx : ∀ c ∈ x, p c = true)
    (hrest : Text.Stops p rest) (shorter : List Text) :
    ∃ others, manyFrom p shorter (x ++ rest) = rest :: others := by
  induction x generalizing shorter with
  | nil =>
      cases rest with
      | nil => exact ⟨shorter, rfl⟩
      | cons c rest =>
          refine ⟨shorter, ?_⟩
          have hc := hrest c rfl
          rw [List.nil_append, manyFrom]
          simp [hc]
  | cons c x ih =>
      simp only [List.mem_cons, forall_eq_or_imp] at hx
      rw [List.cons_append, manyFrom, if_pos hx.1]
      exact ih hx.2 _

theorem prefers_many1 {x : Text} (hne : x ≠ []) (hx : ∀ c ∈ x, p c = true)
    (hrest : Text.Stops p rest) : Prefers (many1 p) (x ++ rest) rest := by
  cases x with
  | nil => contradiction
  | cons c x =>
      simp only [List.mem_cons, forall_eq_or_imp] at hx
      obtain ⟨others, heq⟩ := manyFrom_append hx.2 hrest []
      unfold Prefers
      rw [List.cons_append, many1, if_pos hx.1, many, heq]
      rfl

/-! ## Repetitions -/

theorem prefers_repeated_stop (h : m t = []) : Prefers (repeated m) t t := by
  unfold Prefers
  rw [repeated, h]
  rfl

theorem Prefers.repeated (h : Prefers m t mid)
    (hlt : mid.length < t.length) (hmid : Prefers (repeated m) mid rest) :
    Prefers (repeated m) t rest := by
  obtain ⟨others, ht⟩ := h.exists_cons
  obtain ⟨others', hmid⟩ := hmid.exists_cons
  unfold Prefers
  rw [Matcher.repeated, ht, List.flatMap_cons, dif_pos hlt, hmid]
  rfl

/-! ## A repetition that ends with a character of another class -/

/-- The remainders behind those characters of `q` that follow characters of
`p` only, the last one first. -/
def endsFrom (p q : Char → Bool) (shorter : List Text) : Text → List Text
  | [] => shorter
  | c :: t =>
    let shorter := if q c then t :: shorter else shorter
    if p c then endsFrom p q shorter t else shorter

theorem manyFrom_flatMap_one (shorter : List Text) (t : Text) :
    (manyFrom p shorter t).flatMap (one q) =
      endsFrom p q (shorter.flatMap (one q)) t := by
  fun_induction manyFrom p shorter t with
  | case1 shorter => rfl
  | case2 shorter c t hc ih =>
      rw [ih, endsFrom, if_pos hc, List.flatMap_cons, one]
      by_cases hq : q c
      · simp [hq]
      · simp [hq]
  | case3 shorter c t hc =>
      rw [endsFrom, if_neg hc, List.flatMap_cons, one]
      by_cases hq : q c
      · simp [hq]
      · simp [hq]

theorem sequence_many_one (t : Text) :
    sequence [many p, one q] t = endsFrom p q [] t := by
  rw [sequence_cons]
  exact manyFrom_flatMap_one [] t

theorem endsFrom_skip {x : Text}
    (hx : ∀ c ∈ x, p c = true ∧ q c = false) (shorter : List Text)
    (t : Text) :
    endsFrom p q shorter (x ++ t) = endsFrom p q shorter t := by
  induction x with
  | nil => rfl
  | cons c x ih =>
      simp only [List.mem_cons, forall_eq_or_imp] at hx
      rw [List.cons_append, endsFrom, hx.1.1, hx.1.2]
      exact ih hx.2

theorem endsFrom_end {c : Char} (hp : p c = true) (hq : q c = true)
    (shorter : List Text) (t : Text) :
    endsFrom p q shorter (c :: t) = endsFrom p q (t :: shorter) t := by
  rw [endsFrom, hp, hq]
  rfl

theorem endsFrom_stop {c : Char} (hp : p c = false) (hq : q c = false)
    (shorter : List Text) (t : Text) :
    endsFrom p q shorter (c :: t) = shorter := by
  rw [endsFrom, hp, hq]
  rfl

/-- The repetition goes as far as it can if a character that may end it comes
last. -/
theorem prefers_many_one {x : Text} {a c : Char}
    (hx : ∀ b ∈ x, p b = true) (ha : p a = true ∧ q a = true)
    (hc : p c = false ∧ q c = false) (rest : Text) :
    Prefers (sequence [many p, one q]) (x ++ a :: c :: rest) (c :: rest) := by
  have hgeneral (shorter : List Text) :
      (endsFrom p q shorter (x ++ a :: c :: rest)).head? =
        some (c :: rest) := by
    induction x generalizing shorter with
    | nil =>
        rw [List.nil_append, endsFrom_end ha.1 ha.2, endsFrom_stop hc.1 hc.2]
        rfl
    | cons b x ih =>
        simp only [List.mem_cons, forall_eq_or_imp] at hx
        rw [List.cons_append, endsFrom, hx.1]
        exact ih hx.2 _
  unfold Prefers
  rw [sequence_many_one]
  exact hgeneral []

theorem sequence_many1_one {c : Char} (hc : p c = true) (t : Text) :
    sequence [many1 p, one q] (c :: t) = endsFrom p q [] t := by
  rw [sequence_cons, many1, if_pos hc]
  exact manyFrom_flatMap_one [] t

/-- The remainders behind the ends that come one after another, each between
words that cannot be an end. -/
theorem endsFrom_word_end {x : Text} {a : Char}
    (hx : ∀ c ∈ x, p c = true ∧ q c = false) (ha : p a = true ∧ q a = true)
    (shorter : List Text) (t : Text) :
    endsFrom p q shorter (x ++ a :: t) = endsFrom p q (t :: shorter) t := by
  rw [endsFrom_skip hx, endsFrom_end ha.1 ha.2]

theorem endsFrom_word_stop {x : Text} {c : Char}
    (hx : ∀ c ∈ x, p c = true ∧ q c = false) (hc : p c = false ∧ q c = false)
    (shorter : List Text) (t : Text) :
    endsFrom p q shorter (x ++ c :: t) = shorter := by
  rw [endsFrom_skip hx, endsFrom_stop hc.1 hc.2]

/-- As little as possible is taken: all that would leave more is refused. -/
theorem findSome?_fewest {β : Type} {f : Text → Option β} {b : β}
    {part : Text} (hp : ∀ c ∈ part, p c = true)
    (hpart : ∀ x y, part = x ++ y → y ≠ [] → f (y ++ rest) = none)
    (h : f rest = some b) : (fewest p (part ++ rest)).findSome? f = some b := by
  induction part with
  | nil =>
      cases rest with
      | nil => simpa [fewest] using h
      | cons c rest => simp [fewest, h]
  | cons c part ih =>
      simp only [List.mem_cons, forall_eq_or_imp] at hp
      have hwhole := hpart [] (c :: part) rfl (by simp)
      rw [List.cons_append] at hwhole
      rw [List.cons_append, fewest, if_pos hp.1, List.findSome?_cons, hwhole]
      apply ih hp.2
      intro x y hxy hy
      exact hpart (c :: x) y (by rw [hxy]; rfl) hy

end Matcher

/-! ## Rules -/

namespace Rule

variable {β : Type} {m : Matcher} {t rest : Text} {b : β}

theorem run_skip_of_prefers {k : Unit → Text → Option β}
    (h : m.Prefers t rest) (hk : k () rest = some b) :
    (skip m).run t k = some b := by
  obtain ⟨others, ht⟩ := h.exists_cons
  simp [skip, ht, hk]

theorem run_capture_of_prefers {k : Span → Text → Option β}
    (h : m.Prefers t rest) (hk : k ⟨t, rest⟩ rest = some b) :
    (capture m).run t k = some b := by
  obtain ⟨others, ht⟩ := h.exists_cons
  simp [capture, ht, hk]

theorem run_capture?_of_prefers {k : Option Span → Text → Option β}
    (h : m.Prefers t rest) (hk : k (some ⟨t, rest⟩) rest = some b) :
    (capture? m).run t k = some b := by
  obtain ⟨others, ht⟩ := h.exists_cons
  simp [capture?, ht, hk]

theorem run_capture?_of_eq_nil {k : Option Span → Text → Option β}
    (h : m t = []) : (capture? m).run t k = k none t := by
  simp [capture?, h]

theorem run_capture?_of_eq_singleton {k : Option Span → Text → Option β}
    (h : m t = [rest]) :
    (capture? m).run t k = (k (some ⟨t, rest⟩) rest).or (k none t) := by
  simp [capture?, h]

theorem run_skip_of_eq_nil {k : Unit → Text → Option β} (h : m t = []) :
    (skip m).run t k = none := by
  simp [skip, h]

theorem run_capture_of_eq_nil {k : Span → Text → Option β} (h : m t = []) :
    (capture m).run t k = none := by
  simp [capture, h]

/-- A rule falls back on the second way to match if the first is refused. -/
theorem run_capture_second {k : Span → Text → Option β} {first second : Text}
    (h : m t = [first, second]) (hfirst : k ⟨t, first⟩ first = none) :
    (capture m).run t k = k ⟨t, second⟩ second := by
  simp [capture, h, hfirst]

end Rule

end Bindery
