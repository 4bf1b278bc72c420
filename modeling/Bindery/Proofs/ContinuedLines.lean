import Bindery.Header
import Bindery.Proofs.ListPieces

/-!
# Which lines are continued

A line feed continues its line if an odd number of backslashes stands in front
of it.  There are three ways to go by this rule.  Backslashes can be paired
from the left, as `spliceLines` does.  A text can be copied character by
character, with a look back at the backslashes that end the copy.  Or all
continuations are found in the text as it is and taken out at once.

The copy lacks the continuations that were taken out before, so that runs of
backslashes from several lines meet in it.  What is left of a run is even
whenever a line was continued, hence the runs of the copy and those of the text
agree in parity, and the three ways lead to the same text.
-/

namespace Bindery.Source

/-- The number of backslashes that a text ends with. -/
def endingBackslashes (t : Text) : Nat :=
  (t.reverse.takeWhile (· == '\\')).length

/-- A line feed stands at the index, behind an odd run of backslashes. -/
def continuesAt (t : Text) (i : Nat) : Bool :=
  t[i]? == some '\n' && endingBackslashes (t.take i) % 2 == 1

/-- The character at the index is neither a line feed that continues a line
nor the backslash in front of one. -/
def staysAt (t : Text) (i : Nat) : Bool :=
  !(continuesAt t i || continuesAt t (i + 1))

/-- A text without its continuations, all taken out at once. -/
def withoutContinuations (t : Text) : Text :=
  (t.zipIdx.filter fun x => staysAt t x.2).map Prod.fst

/-- Copies one more character.  A line feed behind an odd run of backslashes
is left out and takes the last of them along. -/
def copyChar (copy : Text) (c : Char) : Text :=
  if c = '\n' ∧ endingBackslashes copy % 2 = 1 then copy.dropLast
  else copy ++ [c]

/-! ## Runs of backslashes -/

@[simp] theorem endingBackslashes_concat (t : Text) (c : Char) :
    endingBackslashes (t ++ [c]) =
      if c = '\\' then endingBackslashes t + 1 else 0 := by
  unfold endingBackslashes
  rw [List.reverse_append, List.reverse_singleton, List.singleton_append,
    List.takeWhile_cons]
  by_cases hc : c = '\\'
  · simp [hc]
  · simp [hc]

/-- What comes next does not meet a backslash that is left over by the pairing
of those in front. -/
def Settled (read t : Text) : Prop :=
  endingBackslashes read % 2 = 0 ∨ ∀ c ∈ t.head?, c ≠ '\\' ∧ c ≠ '\n'

theorem settled_nil (t : Text) : Settled [] t := .inl rfl

theorem Settled.even {read t : Text} {c : Char} (h : Settled read (c :: t))
    (hc : c = '\\' ∨ c = '\n') : endingBackslashes read % 2 = 0 := by
  rcases h with h | h
  · exact h
  · have hne := h c rfl
    tauto

theorem Settled.pair {read t : Text} (h : Settled read ('\\' :: '\\' :: t)) :
    Settled (read ++ ['\\'] ++ ['\\']) t := by
  have heven := h.even (.inl rfl)
  left
  simp only [endingBackslashes_concat, if_true]
  omega

theorem settled_feed (read t : Text) : Settled (read ++ ['\n']) t := by
  left
  simp

/-- A backslash that is left over is followed by another character, which ends
the run. -/
theorem Settled.other {read t : Text} {c : Char} (h : Settled read (c :: t))
    (hpair : ∀ u, c = '\\' → t = '\\' :: u → False)
    (hfeed : ∀ u, c = '\\' → t = '\n' :: u → False) :
    Settled (read ++ [c]) t := by
  by_cases hc : c = '\\'
  · right
    intro a ha
    obtain ⟨u, rfl⟩ := List.head?_eq_some_iff.mp ha
    constructor
    · rintro rfl
      exact hpair u hc rfl
    · rintro rfl
      exact hfeed u hc rfl
  · left
    simp [hc]

/-! ## Copying -/

theorem copyChar_of_settled {copy t : Text} {c : Char}
    (h : Settled copy (c :: t)) : copyChar copy c = copy ++ [c] := by
  unfold copyChar
  rw [if_neg]
  rintro ⟨hc, hodd⟩
  have heven := h.even (.inr hc)
  omega

/-- Copying goes on behind what was copied as if it began there. -/
theorem foldl_copyChar {copy t : Text} (h : Settled copy t) :
    t.foldl copyChar copy = copy ++ spliceLines t := by
  fun_induction spliceLines t generalizing copy with
  | case1 t ih =>
      have hsecond : copyChar (copy ++ ['\\']) '\\' =
          copy ++ ['\\'] ++ ['\\'] := by
        simp [copyChar]
      rw [List.foldl_cons, List.foldl_cons, copyChar_of_settled h, hsecond,
        ih h.pair]
      simp
  | case2 t ih =>
      -- The backslash is copied first and makes the run odd.
      have heven := h.even (.inl rfl)
      have hfeed : copyChar (copy ++ ['\\']) '\n' = copy := by
        have hodd : endingBackslashes (copy ++ ['\\']) % 2 = 1 := by
          rw [endingBackslashes_concat, if_pos rfl]
          omega
        rw [copyChar, if_pos ⟨rfl, hodd⟩, List.dropLast_concat]
      rw [List.foldl_cons, List.foldl_cons, copyChar_of_settled h, hfeed]
      exact ih (.inl heven)
  | case3 c t hpair hfeed ih =>
      rw [List.foldl_cons, copyChar_of_settled h, ih (h.other hpair hfeed),
        List.append_assoc, List.singleton_append]
  | case4 => simp

theorem spliceLines_eq_foldl (t : Text) :
    spliceLines t = t.foldl copyChar [] :=
  (foldl_copyChar (settled_nil t)).symm

/-- The runs at the ends of the text and of its copy agree in parity. -/
theorem endingBackslashes_spliceLines (t : Text) :
    endingBackslashes (spliceLines t) % 2 = endingBackslashes t % 2 := by
  induction t using List.reverseRecOn with
  | nil => rfl
  | append_singleton t c ih =>
      rw [spliceLines_eq_foldl, List.foldl_append, ← spliceLines_eq_foldl]
      change endingBackslashes (copyChar (spliceLines t) c) % 2 = _
      unfold copyChar
      by_cases hjoin : c = '\n' ∧ endingBackslashes (spliceLines t) % 2 = 1
      · -- One backslash less leaves an even run; the line feed ends its own.
        rw [if_pos hjoin, hjoin.1]
        rcases List.eq_nil_or_concat (spliceLines t) with hnil | ⟨u, a, hlast⟩
        · rw [hnil] at hjoin
          simp [endingBackslashes] at hjoin
        · rw [List.concat_eq_append] at hlast
          have hodd := hjoin.2
          rw [hlast, endingBackslashes_concat] at hodd
          rw [hlast, List.dropLast_concat]
          by_cases ha : a = '\\'
          · simp only [ha, if_true] at hodd
            rw [endingBackslashes_concat, if_neg (by decide)]
            omega
          · simp [ha] at hodd
      · rw [if_neg hjoin]
        by_cases hc : c = '\\'
        · simp only [endingBackslashes_concat, hc, if_true]
          omega
        · simp [hc]

theorem Settled.spliceLines {a b : Text} (h : Settled a b) :
    Settled (spliceLines a) b := by
  rcases h with h | h
  · left
    rw [endingBackslashes_spliceLines]
    exact h
  · exact .inr h

theorem spliceLines_append {a b : Text} (h : Settled a b) :
    spliceLines (a ++ b) = spliceLines a ++ spliceLines b := by
  rw [spliceLines_eq_foldl, List.foldl_append, ← spliceLines_eq_foldl]
  exact foldl_copyChar h.spliceLines

/-! ## Taking out all at once -/

theorem continuesAt_append (read t : Text) :
    continuesAt (read ++ t) read.length =
      (t.head? == some '\n' && endingBackslashes read % 2 == 1) := by
  unfold continuesAt
  rw [List.take_left, List.getElem?_append_right (Nat.le_refl _),
    Nat.sub_self, List.head?_eq_getElem?]

theorem staysAt_append (read t : Text) (c : Char) :
    staysAt (read ++ c :: t) read.length =
      !((c == '\n' && endingBackslashes read % 2 == 1) ||
        (t.head? == some '\n' &&
          endingBackslashes (read ++ [c]) % 2 == 1)) := by
  have hnext := continuesAt_append (read ++ [c]) t
  rw [List.length_append, List.length_singleton, List.append_assoc,
    List.singleton_append] at hnext
  unfold staysAt
  rw [continuesAt_append, hnext]
  rfl

theorem staysAt_of_even {read t : Text} {c : Char}
    (hhere : c = '\n' → endingBackslashes read % 2 = 0)
    (hnext : t.head? = some '\n' →
      endingBackslashes (read ++ [c]) % 2 = 0) :
    staysAt (read ++ c :: t) read.length = true := by
  rw [staysAt_append]
  simp only [Bool.not_eq_true', Bool.or_eq_false_iff, Bool.and_eq_false_iff,
    beq_eq_false_iff_ne, ne_eq]
  constructor
  · by_cases hc : c = '\n'
    · have heven := hhere hc
      omega
    · exact .inl hc
  · by_cases hhead : t.head? = some '\n'
    · have heven := hnext hhead
      omega
    · exact .inl hhead

/-- What stays of a text that follows another one. -/
def stayingBehind (read t : Text) : Text :=
  ((t.zipIdx read.length).filter fun x => staysAt (read ++ t) x.2).map Prod.fst

theorem stayingBehind_cons (read t : Text) (c : Char) :
    stayingBehind read (c :: t) =
      (if staysAt (read ++ c :: t) read.length then [c] else []) ++
        stayingBehind (read ++ [c]) t := by
  unfold stayingBehind
  rw [List.zipIdx_cons, List.filter_cons, List.length_append,
    List.length_singleton, List.append_assoc, List.singleton_append]
  by_cases hstays : staysAt (read ++ c :: t) read.length
  · simp [hstays]
  · simp [hstays]

theorem stayingBehind_eq {read t : Text} (h : Settled read t) :
    stayingBehind read t = spliceLines t := by
  fun_induction spliceLines t generalizing read with
  | case1 t ih =>
      have hfirst : staysAt (read ++ '\\' :: '\\' :: t) read.length = true :=
        staysAt_of_even (by simp) (by simp)
      have hsecond : staysAt (read ++ ['\\'] ++ '\\' :: t)
          (read ++ ['\\']).length = true := by
        have heven := h.even (.inl rfl)
        apply staysAt_of_even (by simp)
        intro _
        simp only [endingBackslashes_concat, if_true]
        omega
      rw [stayingBehind_cons, stayingBehind_cons, hfirst, hsecond, ih h.pair]
      rfl
  | case2 t ih =>
      -- The run is odd with the backslash, so that both characters go.
      have hodd : endingBackslashes (read ++ ['\\']) % 2 = 1 := by
        have heven := h.even (.inl rfl)
        rw [endingBackslashes_concat, if_pos rfl]
        omega
      have hfirst :
          staysAt (read ++ '\\' :: '\n' :: t) read.length = false := by
        rw [staysAt_append, hodd]
        rfl
      have hsecond : staysAt (read ++ ['\\'] ++ '\n' :: t)
          (read ++ ['\\']).length = false := by
        rw [staysAt_append, hodd]
        rfl
      rw [stayingBehind_cons, stayingBehind_cons, hfirst, hsecond]
      exact ih (settled_feed _ t)
  | case3 c t hpair hfeed ih =>
      have hsettled := h.other hpair hfeed
      have hstays : staysAt (read ++ c :: t) read.length = true := by
        apply staysAt_of_even
        · exact fun hc => h.even (.inr hc)
        · intro hhead
          obtain ⟨u, rfl⟩ := List.head?_eq_some_iff.mp hhead
          exact hsettled.even (.inr rfl)
      rw [stayingBehind_cons, hstays, ih hsettled]
      rfl
  | case4 => rfl

theorem spliceLines_eq_withoutContinuations (t : Text) :
    spliceLines t = withoutContinuations t :=
  (stayingBehind_eq (settled_nil t)).symm

/-- A line can be continued anywhere but behind an odd run of backslashes,
where the new backslash would be paired with the last of them. -/
theorem spliceLines_insert {a : Text} (h : endingBackslashes a % 2 = 0)
    (b : Text) :
    spliceLines (a ++ '\\' :: '\n' :: b) = spliceLines (a ++ b) := by
  rw [spliceLines_append (.inl h), spliceLines_append (.inl h), spliceLines]

/-- Pairing backslashes, looking back at the copy and taking out all
continuations at once give the same text, in which no line is continued.  A
continuation may be put behind any even run of backslashes: the text and the
entities that it declares are the same without it. -/
theorem continued_lines_joined :
    (∀ t : Text, spliceLines t = withoutContinuations t ∧
      spliceLines t = t.foldl copyChar [] ∧
      spliceLines (spliceLines t) = spliceLines t) ∧
    ∀ a b : Text, endingBackslashes a % 2 = 0 →
      spliceLines (a ++ '\\' :: '\n' :: b) = spliceLines (a ++ b) ∧
      ∀ d, Header.parse d (a ++ '\\' :: '\n' :: b) =
        Header.parse d (a ++ b) := by
  constructor
  · intro t
    exact ⟨spliceLines_eq_withoutContinuations t, spliceLines_eq_foldl t,
      spliceLines_spliceLines t⟩
  · intro a b heven
    have hinsert := spliceLines_insert heven b
    refine ⟨hinsert, fun d => ?_⟩
    unfold Header.parse
    rw [hinsert]

/-- Two continued lines whose backslashes meet in the copy, and a line that is
continued behind an escaped backslash. -/
theorem continued_lines_joined_runs :
    let t : Text := "a\\\\\\\n\\\nb\\\\\nc"
    let a : Text := "#define ODE_A 1 // \\\\"
    let b : Text := "\ntypedef int ODE_B;"
    spliceLines t = "a\\\\b\\\\\nc" ∧ withoutContinuations t = spliceLines t ∧
      endingBackslashes a % 2 = 0 ∧
      Header.parse {} (a ++ '\\' :: '\n' :: b) = Header.parse {} (a ++ b) := by
  intro t a b
  have heven : endingBackslashes a % 2 = 0 := by decide
  exact ⟨by decide, (continued_lines_joined.1 t).1.symm, heven,
    (continued_lines_joined.2 a b heven).2 {}⟩

end Bindery.Source
