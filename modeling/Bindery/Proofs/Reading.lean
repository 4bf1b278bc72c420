import Bindery.Text.Matcher
import Mathlib

/-!
# What matchers take and what they leave over

A matcher lists what may be left over of a text.  For every matcher the
lemmas below say which remainders are in that list: the text splits into a
part that was taken, of a known shape, and the remainder.  A rule that
succeeds has chosen one remainder of each of its matchers, so the shape of a
declaration can be read off backwards, step by step.
-/

namespace Bindery

namespace Text

@[simp] theorem upTo_append (taken rest : Text) :
    upTo (taken ++ rest) rest = taken := by
  unfold upTo
  rw [List.length_append, Nat.add_sub_cancel, List.take_left]

/-- Characters of the class are taken off the text until `rest` is left. -/
def Takes (p : Char → Bool) (t rest : Text) : Prop :=
  ∃ part, (∀ c ∈ part, p c = true) ∧ t = part ++ rest

theorem Takes.refl (p : Char → Bool) (t : Text) : Takes p t t :=
  ⟨[], by simp, rfl⟩

theorem takes_nil_iff {p : Char → Bool} {rest : Text} :
    Takes p [] rest ↔ rest = [] := by
  constructor
  · rintro ⟨part, _, heq⟩
    exact (List.append_eq_nil_iff.mp heq.symm).2
  · rintro rfl
    exact Takes.refl p []

theorem takes_cons_iff {p : Char → Bool} {c : Char} {t rest : Text} :
    Takes p (c :: t) rest ↔
      rest = c :: t ∨ (p c = true ∧ Takes p t rest) := by
  constructor
  · rintro ⟨part, hpart, heq⟩
    cases part with
    | nil => exact .inl heq.symm
    | cons a part =>
        simp only [List.cons_append, List.cons.injEq] at heq
        obtain ⟨rfl, rfl⟩ := heq
        simp only [List.mem_cons, forall_eq_or_imp] at hpart
        exact .inr ⟨hpart.1, part, hpart.2, rfl⟩
  · rintro (rfl | ⟨hc, part, hpart, rfl⟩)
    · exact Takes.refl p _
    · exact ⟨c :: part, by simpa [hc] using hpart, rfl⟩

theorem takes_dropWhile (p : Char → Bool) (t : Text) :
    Takes p t (t.dropWhile p) :=
  ⟨t.takeWhile p, fun _ hc => List.mem_takeWhile_imp hc,
    List.takeWhile_append_dropWhile.symm⟩

/-! ## White space at the ends -/

theorem trimStart_append {blanks : Text}
    (h : ∀ c ∈ blanks, isSpace c = true) (t : Text) :
    trimStart (blanks ++ t) = trimStart t := by
  unfold trimStart
  rw [List.dropWhile_append_of_pos h]

theorem trimStart_cons {c : Char}
    (h : isSpace c = false) (t : Text) :
    trimStart (c :: t) = c :: t := by
  unfold trimStart
  rw [List.dropWhile_cons_of_neg]
  simp [h]

theorem trim_eq_of_ends {blanks t blanks' : Text}
    (hblanks : ∀ c ∈ blanks, isSpace c = true)
    (hblanks' : ∀ c ∈ blanks', isSpace c = true)
    (hhead : ∀ c ∈ t.head?, isSpace c = false)
    (hlast : ∀ c ∈ t.getLast?, isSpace c = false) :
    trim (blanks ++ (t ++ blanks')) = t := by
  unfold trim
  rw [trimStart_append hblanks]
  cases t with
  | nil =>
      have hall : trimStart blanks' = [] := by
        unfold trimStart
        rw [List.dropWhile_eq_nil_iff]
        exact hblanks'
      rw [List.nil_append, hall]
      rfl
  | cons c t =>
      have hc := hhead c rfl
      rw [List.cons_append, trimStart_cons hc]
      unfold trimEnd
      rw [← List.cons_append, List.reverse_append,
        List.dropWhile_append_of_pos (by simpa using hblanks')]
      cases hreverse : (c :: t).reverse with
      | nil => simp at hreverse
      | cons a u =>
          have hlast' := hlast a (by
            rw [← List.head?_reverse, hreverse]
            rfl)
          rw [List.dropWhile_cons_of_neg (by simp [hlast']), ← hreverse,
            List.reverse_reverse]

theorem trim_eq_self_of_ends {t : Text}
    (hhead : ∀ c ∈ t.head?, isSpace c = false)
    (hlast : ∀ c ∈ t.getLast?, isSpace c = false) : trim t = t := by
  have htrim := trim_eq_of_ends (List.forall_mem_nil (isSpace · = true))
    (List.forall_mem_nil _) hhead hlast
  simpa using htrim

theorem trim_eq_self {t : Text} (h : ∀ c ∈ t, isSpace c = false) :
    trim t = t :=
  trim_eq_self_of_ends (fun c hc => h c (List.mem_of_mem_head? hc))
    (fun c hc => h c (List.mem_of_getLast? hc))

theorem isSpace_blank : ∀ c ∈ [' '], isSpace c = true :=
  List.forall_mem_singleton.mpr rfl

theorem trim_append_blank {t : Text}
    (hhead : ∀ c ∈ t.head?, isSpace c = false)
    (hlast : ∀ c ∈ t.getLast?, isSpace c = false) :
    trim (t ++ [' ']) = t :=
  trim_eq_of_ends (List.forall_mem_nil _) isSpace_blank hhead hlast

theorem trim_append_star {t : Text} (hne : t ≠ [])
    (hhead : ∀ c ∈ t.head?, isSpace c = false) :
    trim (t ++ [' ', '*']) = t ++ [' ', '*'] := by
  apply trim_eq_self_of_ends
  · rwa [List.head?_append_of_ne_nil _ hne]
  · intro c hc
    rw [List.getLast?_append_of_ne_nil _ (by simp)] at hc
    rw [← Option.mem_some_iff.mp hc]
    rfl

theorem trim_cons {c : Char} (h : isSpace c = true) (t : Text) :
    trim (c :: t) = trim t := by
  unfold trim
  rw [← List.singleton_append, trimStart_append (by simpa using h)]

/-- Trimming takes white space off both ends. -/
theorem trim_split (t : Text) :
    ∃ blanks blanks', (∀ c ∈ blanks, isSpace c = true) ∧
      (∀ c ∈ blanks', isSpace c = true) ∧
      t = blanks ++ (trim t ++ blanks') := by
  obtain ⟨blanks, hblanks, hstart⟩ := takes_dropWhile isSpace t
  obtain ⟨blanks', hblanks', hend⟩ :=
    takes_dropWhile isSpace (trimStart t).reverse
  refine ⟨blanks, blanks'.reverse, hblanks, by simpa using hblanks', ?_⟩
  have hend' := congrArg List.reverse hend
  rw [List.reverse_reverse, List.reverse_append] at hend'
  unfold trim trimEnd
  rw [← hend']
  exact hstart

/-! ## Pieces -/

theorem splitOn_of_notMem {a : Char} {t : Text} (h : a ∉ t) :
    t.splitOn a = [t] := by
  apply List.splitOnP_eq_singleton
  intro c hc
  rw [beq_eq_false_iff_ne]
  rintro rfl
  exact h hc

theorem splitOn_append_cons (a : Char) (t rest : Text) :
    (t ++ a :: rest).splitOn a = t.splitOn a ++ rest.splitOn a :=
  List.splitOnP_append_cons t rest (beq_self_eq_true a)

/-- Pieces hold nothing of what separates them. -/
theorem not_of_mem_splitOnP {p : Char → Bool} {t piece : Text}
    (h : piece ∈ t.splitOnP p) : ∀ c ∈ piece, p c = false := by
  induction t generalizing piece with
  | nil =>
      rw [List.splitOnP_nil, List.mem_singleton] at h
      simp [h]
  | cons x t ih =>
      rw [List.splitOnP_cons_eq_if_modifyHead] at h
      split at h
      · rcases List.mem_cons.mp h with rfl | h
        · simp
        · exact ih h
      · next hx =>
        obtain ⟨first, others, hsplit⟩ :=
          List.exists_cons_of_ne_nil (List.splitOnP_ne_nil p t)
        rw [hsplit, List.modifyHead_cons] at h
        rcases List.mem_cons.mp h with rfl | h
        · intro c hc
          rcases List.mem_cons.mp hc with rfl | hc
          · simpa using hx
          · exact ih (hsplit ▸ List.mem_cons_self) c hc
        · exact ih (hsplit ▸ List.mem_cons_of_mem _ h)

end Text

namespace Matcher

theorem mem_one {p : Char → Bool} {t rest : Text} :
    rest ∈ one p t ↔ ∃ c, p c = true ∧ t = c :: rest := by
  cases t with
  | nil => simp [one]
  | cons c t =>
      simp only [one, List.cons.injEq]
      split
      · next hc =>
        constructor
        · intro h
          exact ⟨c, hc, rfl, (List.mem_singleton.mp h).symm⟩
        · rintro ⟨_, _, _, rfl⟩
          exact List.mem_singleton_self _
      · next hc =>
        constructor
        · simp
        · rintro ⟨_, hc', rfl, _⟩
          contradiction

theorem mem_literal {word t rest : Text} :
    rest ∈ literal word t ↔ t = word ++ rest := by
  simp [literal, Text.after?_eq_some_iff]

theorem mem_manyFrom_iff {p : Char → Bool} {shorter : List Text}
    {t rest : Text} :
    rest ∈ manyFrom p shorter t ↔ rest ∈ shorter ∨ Text.Takes p t rest := by
  fun_induction manyFrom p shorter t with
  | case1 shorter =>
      rw [List.mem_cons, Text.takes_nil_iff, or_comm]
  | case2 shorter c t hc ih =>
      rw [ih, List.mem_cons, Text.takes_cons_iff]
      simp only [hc, true_and]
      tauto
  | case3 shorter c t hc =>
      rw [List.mem_cons, Text.takes_cons_iff]
      simp only [hc, Bool.false_eq_true, false_and, or_false]
      tauto

theorem mem_many {p : Char → Bool} {t rest : Text} :
    rest ∈ many p t ↔ Text.Takes p t rest := by
  simp [many, mem_manyFrom_iff]

theorem mem_many1 {p : Char → Bool} {t rest : Text} :
    rest ∈ many1 p t ↔
      ∃ c tail, t = c :: tail ∧ p c = true ∧ Text.Takes p tail rest := by
  cases t with
  | nil => simp [many1]
  | cons c t =>
      simp only [many1, List.cons.injEq]
      split
      · next hc =>
        rw [mem_many]
        constructor
        · intro h
          exact ⟨c, t, ⟨rfl, rfl⟩, hc, h⟩
        · rintro ⟨_, _, ⟨rfl, rfl⟩, _, h⟩
          exact h
      · next hc =>
        constructor
        · simp
        · rintro ⟨_, _, ⟨rfl, _⟩, hc', _⟩
          contradiction

/-- The shortest part that is accepted is the one that is taken. -/
theorem of_findSome?_fewest {β : Type} {p : Char → Bool} {t : Text}
    {f : Text → Option β} {b : β} (h : (fewest p t).findSome? f = some b) :
    ∃ part rest, t = part ++ rest ∧ f rest = some b ∧
      ∀ x y, part = x ++ y → y ≠ [] → f (y ++ rest) = none := by
  induction t with
  | nil =>
      refine ⟨[], [], rfl, by simpa [fewest] using h, ?_⟩
      intro x y hxy hy
      exact absurd (List.append_eq_nil_iff.mp hxy.symm).2 hy
  | cons c t ih =>
      rw [fewest, List.findSome?_cons] at h
      cases hhere : f (c :: t) with
      | some b' =>
          rw [hhere] at h
          refine ⟨[], c :: t, rfl, hhere.trans h, ?_⟩
          intro x y hxy hy
          exact absurd (List.append_eq_nil_iff.mp hxy.symm).2 hy
      | none =>
          rw [hhere] at h
          simp only at h
          split at h
          · obtain ⟨part, rest, rfl, hrest, hfirst⟩ := ih h
            refine ⟨c :: part, rest, rfl, hrest, ?_⟩
            intro x y hxy hy
            cases x with
            | nil =>
                rw [List.nil_append] at hxy
                rw [← hxy]
                exact hhere
            | cons a x =>
                simp only [List.cons_append, List.cons.injEq] at hxy
                exact hfirst x y hxy.2 hy
          · contradiction

theorem mem_run {p : Char → Bool} {t rest : Text} :
    rest ∈ run p t ↔ rest = t.dropWhile p := by
  simp [run]

theorem mem_run1 {p : Char → Bool} {t rest : Text} :
    rest ∈ run1 p t ↔
      ∃ c tail, t = c :: tail ∧ p c = true ∧ rest = tail.dropWhile p := by
  cases t with
  | nil => simp [run1]
  | cons c t =>
      simp only [run1, List.cons.injEq]
      split
      · next hc =>
        rw [List.mem_singleton]
        constructor
        · intro h
          exact ⟨c, t, ⟨rfl, rfl⟩, hc, h⟩
        · rintro ⟨_, _, ⟨rfl, rfl⟩, _, h⟩
          exact h
      · next hc =>
        constructor
        · simp
        · rintro ⟨_, _, ⟨rfl, _⟩, hc', _⟩
          contradiction

theorem mem_either {m n : Matcher} {t rest : Text} :
    rest ∈ either m n t ↔ rest ∈ m t ∨ rest ∈ n t :=
  List.mem_append

theorem mem_optional {m : Matcher} {t rest : Text} :
    rest ∈ optional m t ↔ rest ∈ m t ∨ rest = t := by
  simp [optional]

/-- The first matcher of a sequence chooses, the others go on from there. -/
theorem sequence_cons (m : Matcher) (ms : List Matcher) (t : Text) :
    sequence (m :: ms) t = (m t).flatMap (sequence ms) := by
  cases ms with
  | nil =>
      have hsingle : sequence [] = fun t => [t] := rfl
      rw [hsingle, List.flatMap_singleton']
      rfl
  | cons m' ms => rfl

theorem mem_sequence_nil {t rest : Text} :
    rest ∈ sequence [] t ↔ rest = t :=
  List.mem_singleton

theorem mem_sequence_cons {m : Matcher} {ms : List Matcher} {t rest : Text} :
    rest ∈ sequence (m :: ms) t ↔ ∃ mid ∈ m t, rest ∈ sequence ms mid := by
  rw [sequence_cons, List.mem_flatMap]

theorem length_lt_of_mem_word {t rest : Text} (h : rest ∈ word t) :
    rest.length < t.length := by
  obtain ⟨c, tail, rfl, _, rfl⟩ := mem_run1.mp h
  exact Nat.lt_succ_of_le (List.dropWhile_suffix _).length_le

end Matcher

@[simp] theorem Span.text_append (taken rest : Text) :
    Span.text ⟨taken ++ rest, rest⟩ = taken :=
  Text.upTo_append taken rest

theorem Span.text_self (t : Text) : Span.text ⟨t, t⟩ = [] :=
  Span.text_append [] t

end Bindery
