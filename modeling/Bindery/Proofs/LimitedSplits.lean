import Bindery.Proofs.BindingMacros

/-!
# Splitting with a limit

The arguments of a binding macro are split into a limited number of pieces, and
the last piece is not looked into.  Splitting it later gives what a split
without limit would have given.  A split goes on from a bracket depth and from
what was read of the current piece.  Both start afresh behind each separator
that counts, so the last piece can be split on its own.  Only the white space
around it is lost, which is no separator and lies at the ends of pieces.
-/

namespace Bindery.Source

variable {separator : Char} {limit depth : Nat} {read blanks : Text}

/-! ## One step of a split -/

theorem splitTopLevelFrom_one (t : Text) :
    splitTopLevelFrom separator 1 depth read t =
      [Text.trim (read.reverse ++ t)] := by
  rw [splitTopLevelFrom]

theorem splitTopLevelFrom_nil :
    splitTopLevelFrom separator limit depth read [] =
      [Text.trim read.reverse] := by
  by_cases hlimit : limit = 1
  · rw [hlimit, splitTopLevelFrom_one, List.append_nil]
  · rw [splitTopLevelFrom]
    exact hlimit

/-- A character goes to the current piece, or it ends this piece and is
dropped. -/
theorem splitTopLevelFrom_cons (separator : Char) (depth : Nat) (c : Char) :
    (∃ depth', ∀ limit ≠ 1, ∀ read t,
      splitTopLevelFrom separator limit depth read (c :: t) =
        splitTopLevelFrom separator limit depth' (c :: read) t) ∨
    ∀ limit ≠ 1, ∀ read t,
      splitTopLevelFrom separator limit depth read (c :: t) =
        Text.trim read.reverse ::
          splitTopLevelFrom separator (limit - 1) 0 [] t := by
  by_cases hopening : isOpening c = true
  · exact .inl ⟨depth + 1, fun _ hlimit _ _ =>
      splitTopLevelFrom_opening hlimit hopening⟩
  · by_cases hclosing : isClosing c = true
    · exact .inl ⟨depth - 1, fun _ hlimit _ _ =>
        splitTopLevelFrom_closing hlimit hclosing⟩
    · by_cases hcut : c = separator ∧ depth = 0
      · right
        intro limit hlimit read t
        rw [splitTopLevelFrom, if_neg hopening, if_neg hclosing, if_pos hcut]
        exact hlimit
      · left
        refine ⟨depth, fun limit hlimit read t => ?_⟩
        rw [splitTopLevelFrom, if_neg hopening, if_neg hclosing, if_neg hcut]
        exact hlimit

/-! ## White space around the text -/

theorem passed_of_isSpace (hseparator : Text.isSpace separator = false)
    {c : Char} (hc : Text.isSpace c = true) (depth : Nat) :
    Passed separator depth c := by
  refine ⟨?_, ?_, ?_⟩
  · by_contra hopening
    simp only [isOpening, Bool.not_eq_false, Bool.or_eq_true,
      beq_iff_eq] at hopening
    rcases hopening with (rfl | rfl) | rfl
    all_goals contradiction
  · by_contra hclosing
    simp only [isClosing, Bool.not_eq_false, Bool.or_eq_true,
      beq_iff_eq] at hclosing
    rcases hclosing with (rfl | rfl) | rfl
    all_goals contradiction
  · rintro rfl
    rw [hseparator] at hc
    contradiction

theorem splitTopLevelFrom_blanks (hseparator : Text.isSpace separator = false)
    (h : ∀ c ∈ blanks, Text.isSpace c = true) (t : Text) :
    splitTopLevelFrom separator 0 depth read (blanks ++ t) =
      splitTopLevelFrom separator 0 depth (blanks.reverse ++ read) t :=
  splitTopLevelFrom_append Nat.zero_ne_one fun c hc =>
    passed_of_isSpace hseparator (h c hc) depth

/-- White space at the beginning of the current piece goes when the piece is
trimmed. -/
theorem splitTopLevelFrom_read_blanks
    (h : ∀ c ∈ blanks, Text.isSpace c = true) (t : Text) :
    splitTopLevelFrom separator 0 depth (read ++ blanks) t =
      splitTopLevelFrom separator 0 depth read t := by
  have htrim (read : Text) :
      Text.trim (read ++ blanks).reverse = Text.trim read.reverse := by
    rw [List.reverse_append]
    exact Text.trim_spaces_append (by simpa using h) _
  induction t generalizing depth read with
  | nil => rw [splitTopLevelFrom_nil, splitTopLevelFrom_nil, htrim]
  | cons c t ih =>
      rcases splitTopLevelFrom_cons separator depth c with
        ⟨depth', hstep⟩ | hstep
      · rw [hstep 0 Nat.zero_ne_one, hstep 0 Nat.zero_ne_one,
          ← List.cons_append, ih]
      · rw [hstep 0 Nat.zero_ne_one, hstep 0 Nat.zero_ne_one, htrim]

theorem splitTopLevelFrom_append_blanks
    (hseparator : Text.isSpace separator = false)
    (h : ∀ c ∈ blanks, Text.isSpace c = true) (t : Text) :
    splitTopLevelFrom separator 0 depth read (t ++ blanks) =
      splitTopLevelFrom separator 0 depth read t := by
  induction t generalizing depth read with
  | nil =>
      rw [List.nil_append, ← List.append_nil blanks,
        splitTopLevelFrom_blanks hseparator h, splitTopLevelFrom_nil,
        splitTopLevelFrom_nil, List.reverse_append, List.reverse_reverse,
        Text.trim_append_spaces _ h]
  | cons c t ih =>
      rcases splitTopLevelFrom_cons separator depth c with
        ⟨depth', hstep⟩ | hstep
      · rw [List.cons_append, hstep 0 Nat.zero_ne_one, hstep 0 Nat.zero_ne_one,
          ih]
      · rw [List.cons_append, hstep 0 Nat.zero_ne_one, hstep 0 Nat.zero_ne_one,
          ih]

theorem splitTopLevel_trim (hseparator : Text.isSpace separator = false)
    (t : Text) :
    splitTopLevel separator 0 (Text.trim t) = splitTopLevel separator 0 t := by
  obtain ⟨blanks, blanks', hblanks, hblanks', ht⟩ := Text.trim_split t
  have hread : splitTopLevelFrom separator 0 0 ([] ++ blanks.reverse)
      (Text.trim t) = splitTopLevelFrom separator 0 0 [] (Text.trim t) :=
    splitTopLevelFrom_read_blanks (by simpa using hblanks) _
  conv_rhs => rw [ht]
  unfold splitTopLevel
  rw [splitTopLevelFrom_blanks hseparator hblanks,
    splitTopLevelFrom_append_blanks hseparator hblanks', List.append_nil]
  exact hread.symm

/-! ## Going on with a split -/

/-- A split that goes on from here splits what was read together with what
follows. -/
def Resumes (separator : Char) (depth : Nat) (read : Text) : Prop :=
  ∀ t, splitTopLevelFrom separator 0 depth read t =
    splitTopLevel separator 0 (read.reverse ++ t)

theorem resumes_nil (separator : Char) : Resumes separator 0 [] := fun _ => rfl

theorem Resumes.cons {depth' : Nat} {c : Char}
    (h : Resumes separator depth read)
    (hstep : ∀ t, splitTopLevelFrom separator 0 depth read (c :: t) =
      splitTopLevelFrom separator 0 depth' (c :: read) t) :
    Resumes separator depth' (c :: read) := by
  intro t
  rw [← hstep, h, List.reverse_cons, List.append_assoc, List.singleton_append]

/-- `all` are the pieces of a split without limit, and `pieces` and `last` those
of the same split with a limit. -/
structure Postponed (separator : Char) (limit : Nat) (all pieces : List Text)
    (last : Text) : Prop where
  length_le : pieces.length + 1 ≤ limit
  all_eq : all = pieces ++ splitTopLevel separator 0 last
  full_or_done : pieces.length + 1 = limit ∨
    splitTopLevel separator 0 last = [last]

theorem splitTopLevelFrom_postponed
    (hseparator : Text.isSpace separator = false) (hlimit : 1 ≤ limit)
    (h : Resumes separator depth read) (t : Text) :
    ∃ pieces last,
      splitTopLevelFrom separator limit depth read t = pieces ++ [last] ∧
        Postponed separator limit
          (splitTopLevelFrom separator 0 depth read t) pieces last := by
  induction t generalizing limit depth read with
  | nil =>
      have hlast : splitTopLevel separator 0 (Text.trim read.reverse) =
          [Text.trim read.reverse] := by
        rw [splitTopLevel_trim hseparator, ← List.append_nil read.reverse, ← h,
          splitTopLevelFrom_nil, List.append_nil]
      refine ⟨[], Text.trim read.reverse, splitTopLevelFrom_nil, ?_⟩
      exact ⟨hlimit, by rw [splitTopLevelFrom_nil, hlast]; rfl, .inr hlast⟩
  | cons c t ih =>
      by_cases hone : limit = 1
      · subst hone
        refine ⟨[], _, splitTopLevelFrom_one _, le_rfl, ?_, .inl rfl⟩
        rw [splitTopLevel_trim hseparator, h]
        rfl
      · rcases splitTopLevelFrom_cons separator depth c with
          ⟨depth', hstep⟩ | hstep
        · rw [hstep limit hone, hstep 0 Nat.zero_ne_one]
          exact ih hlimit (h.cons (hstep 0 Nat.zero_ne_one read))
        · obtain ⟨pieces, last, hpieces, hpostponed⟩ :=
            ih (show 1 ≤ limit - 1 by omega) (resumes_nil separator)
          refine ⟨Text.trim read.reverse :: pieces, last, ?_, ?_⟩
          · rw [hstep limit hone, hpieces, List.cons_append]
          · have hlength := hpostponed.length_le
            constructor
            · rw [List.length_cons]
              omega
            · rw [hstep 0 Nat.zero_ne_one, hpostponed.all_eq, List.cons_append]
            · rw [List.length_cons]
              exact hpostponed.full_or_done.imp_left fun hfull => by omega

/-- A limit only puts off splitting.  There are at least one and at most as many
pieces as the limit says, and splitting the last one without limit completes
the split of the whole text.  With fewer pieces there is nothing left to
split. -/
theorem splitTopLevel_limit_postpones
    (hseparator : Text.isSpace separator = false) (hlimit : 1 ≤ limit)
    (t : Text) :
    ∃ pieces last,
      splitTopLevel separator limit t = pieces ++ [last] ∧
        pieces.length + 1 ≤ limit ∧
        splitTopLevel separator 0 t =
          pieces ++ splitTopLevel separator 0 last ∧
        (pieces.length + 1 = limit ∨
          splitTopLevel separator 0 last = [last]) := by
  obtain ⟨pieces, last, hpieces, h⟩ :=
    splitTopLevelFrom_postponed hseparator hlimit (resumes_nil separator) t
  exact ⟨pieces, last, hpieces, h.length_le, h.all_eq, h.full_or_done⟩

/-- Closing brackets that nothing opened, and a separator in brackets. -/
theorem splitTopLevel_limit_postpones_unbalanced :
    let t : Text := "a), f(b, [c]) , ]d\x7d,\t(e"
    Text.isSpace ',' = false ∧ 1 ≤ 3 ∧
    splitTopLevel ',' 3 t = ["a)", "f(b, [c])", "]d\x7d,\t(e"] ∧
    splitTopLevel ',' 0 t = ["a)", "f(b, [c])", "]d\x7d", "(e"] ∧
    ∃ pieces last,
      splitTopLevel ',' 3 t = pieces ++ [last] ∧
        pieces.length + 1 ≤ 3 ∧
        splitTopLevel ',' 0 t = pieces ++ splitTopLevel ',' 0 last ∧
        (pieces.length + 1 = 3 ∨ splitTopLevel ',' 0 last = [last]) := by
  intro t
  have hseparator : Text.isSpace ',' = false := by decide
  have hlimit : 1 ≤ 3 := by decide
  exact ⟨hseparator, hlimit, by decide, by decide,
    splitTopLevel_limit_postpones hseparator hlimit t⟩

end Bindery.Source
