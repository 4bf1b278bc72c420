import Bindery.Proofs.Lists
import Bindery.Proofs.Reading
import Bindery.Source.Split

/-!
# The pieces of a list

A list is split at the separators outside comments, and its pieces are
trimmed.  A piece is lexed alone as it is lexed in the list: it begins and
ends in code, and the white space around it only matters to a comment that is
open at its end.  It follows that comments may be removed before a list is
split or after it, and that a piece which is split again stays whole.

For the latter the piece also has to keep its line feeds.  A line feed is
taken away because of the backslashes in front of it, and no cut falls between
these, unless they separate the pieces themselves.
-/

namespace Bindery

/-! ## Pieces in general -/

section Pieces

variable {α β : Type}

/-- What passes to both sides of a separator holds of every piece, and no
piece holds a separator. -/
theorem of_mem_splitOnP {p : α → Bool} {Q : List α → Prop}
    (hcut : ∀ u separator v, p separator = true →
      Q (u ++ separator :: v) → Q u ∧ Q v)
    {xs piece : List α} (hxs : Q xs) (h : piece ∈ xs.splitOnP p) :
    Q piece ∧ ∀ x ∈ piece, p x = false := by
  induction hn : xs.length using Nat.strong_induction_on
    generalizing xs with
  | _ n ih =>
      cases hfind : xs.find? p with
      | none =>
          have hclean : ∀ x ∈ xs, p x = false := by
            simpa using List.find?_eq_none.mp hfind
          rw [List.splitOnP_eq_singleton hclean, List.mem_singleton] at h
          exact h ▸ ⟨hxs, hclean⟩
      | some separator =>
          obtain ⟨hseparator, u, v, rfl, hu⟩ :=
            List.find?_eq_some_iff_append.mp hfind
          have hclean : ∀ x ∈ u, p x = false := by simpa using hu
          obtain ⟨hQu, hQv⟩ := hcut u separator v hseparator hxs
          rw [List.splitOnP_append_cons _ _ hseparator,
            List.splitOnP_eq_singleton hclean, List.singleton_append,
            List.mem_cons] at h
          rcases h with rfl | h
          · exact ⟨hQu, hclean⟩
          · refine ih v.length ?_ hQv h rfl
            rw [← hn, List.length_append, List.length_cons]
            omega

theorem flatMap_intercalate (f : α → List β) (separator : List α)
    (xs : List (List α)) :
    (separator.intercalate xs).flatMap f =
      (separator.flatMap f).intercalate (xs.map (·.flatMap f)) := by
  induction xs with
  | nil => rfl
  | cons x xs ih =>
      cases xs with
      | nil => simp
      | cons y xs =>
          rw [List.intercalate_cons_cons, List.flatMap_append,
            List.flatMap_append, ih]
          simp only [List.map_cons, List.intercalate_cons_cons]

end Pieces

namespace Text

/-! ## White space at the ends -/

theorem trim_ends (t : Text) :
    (∀ c ∈ (trim t).head?, isSpace c = false) ∧
      ∀ c ∈ (trim t).getLast?, isSpace c = false := by
  constructor
  · intro c hc
    obtain ⟨blanks, _, hstart⟩ :=
      takes_dropWhile isSpace (trimStart t).reverse
    have hsplit := congrArg List.reverse hstart
    rw [List.reverse_reverse, List.reverse_append] at hsplit
    apply stops_dropWhile isSpace t
    change c ∈ (trimStart t).head?
    rw [hsplit, List.head?_append, Option.mem_def, Option.or_eq_some_iff]
    exact .inl hc
  · intro c hc
    unfold trim trimEnd at hc
    rw [List.getLast?_reverse] at hc
    exact stops_dropWhile isSpace _ c hc

theorem trim_trim (t : Text) : trim (trim t) = trim t :=
  trim_eq_self_of_ends (trim_ends t).1 (trim_ends t).2

theorem trim_append_spaces (t : Text) {blanks : Text}
    (h : ∀ c ∈ blanks, isSpace c = true) : trim (t ++ blanks) = trim t := by
  obtain ⟨before, after, hbefore, hafter, hsplit⟩ := trim_split t
  have hblanks : ∀ c ∈ after ++ blanks, isSpace c = true :=
    List.forall_mem_append.mpr ⟨hafter, h⟩
  have htrim := trim_eq_of_ends hbefore hblanks (trim_ends t).1 (trim_ends t).2
  rw [← htrim]
  conv_lhs => rw [hsplit]
  simp only [List.append_assoc]

theorem trim_spaces_append {blanks : Text}
    (h : ∀ c ∈ blanks, isSpace c = true) (t : Text) :
    trim (blanks ++ t) = trim t := by
  unfold trim
  rw [trimStart_append h]

theorem mem_of_mem_trim {t : Text} {c : Char} (h : c ∈ trim t) : c ∈ t := by
  obtain ⟨blanks, blanks', _, _, ht⟩ := trim_split t
  rw [ht]
  simp [h]

theorem trimStart_append_cons {c : Char} (hc : isSpace c = false)
    (t rest : Text) :
    trimStart (t ++ c :: rest) = trimStart t ++ c :: rest := by
  unfold trimStart
  rw [List.dropWhile_append]
  split
  · next hempty =>
    rw [List.isEmpty_iff.mp hempty, List.nil_append]
    exact trimStart_cons hc rest
  · rfl

end Text

namespace Source

open Lexeme

/-! ## Lexing a piece alone -/

/-- Behind a lexeme the text is lexed as if it began there. -/
theorem lex_textOf_of_cons {mode : LexMode} {t : Text} {l : Lexeme}
    {ls : List Lexeme} (h : lexFrom mode t = l :: ls) :
    lex (textOf ls) = ls := by
  have hcode {t : Text} (h : lexFrom .code t = ls) : lex (textOf ls) = ls := by
    rw [← h, ← lex, textOf_lex]
  fun_induction lexFrom mode t with
  | case1 => simp at h
  | case2 t ih => exact ih h
  | case3 t ih => exact ih h
  | case4 c t _ _ ih => exact hcode (List.cons.inj h).2
  | case5 read =>
      rw [← (List.cons.inj h).2]
      rfl
  | case6 read t ih => exact hcode (List.cons.inj h).2
  | case7 read c t _ ih => exact ih h
  | case8 read =>
      rw [← (List.cons.inj h).2]
      rfl
  | case9 read t ih => exact hcode (List.cons.inj h).2
  | case10 read c t _ ih => exact ih h

theorem lex_textOf_of_append {u v : List Lexeme}
    (h : lex (textOf (u ++ v)) = u ++ v) : lex (textOf v) = v := by
  induction u with
  | nil => exact h
  | cons l u ih => exact ih (lex_textOf_of_cons h)

/-- Both sides of a character of code are lexed alone as they are lexed
together. -/
theorem lex_textOf_cut {u v : List Lexeme} {c : Char}
    (h : lex (textOf (u ++ .code c :: v)) = u ++ .code c :: v) :
    lex (textOf u) = u ∧ lex (textOf v) = v := by
  constructor
  · -- A text that reaches a character of code is in no comment before it.
    obtain ⟨x, _, _, htext, hlex, _⟩ := lexFrom_cut h
    rw [LexMode.pending, List.nil_append] at htext
    rw [htext]
    exact hlex
  · exact lex_textOf_of_cons (lex_textOf_of_append h)

variable {separator : Char} {t : Text}

theorem lex_textOf_piece {piece : List Lexeme}
    (h : piece ∈ (lex t).splitOnP (· = .code separator)) :
    lex (textOf piece) = piece ∧ .code separator ∉ piece := by
  obtain ⟨hlex, hclean⟩ := of_mem_splitOnP
    (Q := fun ls => lex (textOf ls) = ls)
    (by
      intro u l v hl hlex
      rw [of_decide_eq_true hl] at hlex
      exact lex_textOf_cut hlex)
    (congrArg lex (textOf_lex t)) h
  refine ⟨hlex, fun hmem => ?_⟩
  have hsame := hclean _ hmem
  simp at hsame

theorem intercalate_pieces (separator : Char) (ls : List Lexeme) :
    [Lexeme.code separator].intercalate
      (ls.splitOnP (· = .code separator)) = ls :=
  List.intercalate_splitOn (Lexeme.code separator)

theorem join_rawPieces (separator : Char) (t : Text) :
    Text.join [separator] (rawPieces separator t) = t := by
  have htext := congrArg textOf (intercalate_pieces separator (lex t))
  rw [textOf_lex, textOf, flatMap_intercalate] at htext
  exact htext

theorem rawPieces_ne_nil (separator : Char) (t : Text) :
    rawPieces separator t ≠ [] := by
  unfold rawPieces
  simp

theorem notMem_lex_of_mem_rawPieces {raw : Text}
    (h : raw ∈ rawPieces separator t) : .code separator ∉ lex raw := by
  obtain ⟨piece, hpiece, rfl⟩ := List.mem_map.mp h
  obtain ⟨hlex, hclean⟩ := lex_textOf_piece hpiece
  rwa [hlex]

/-! ## Removing comments -/

theorem strippedOf_append (xs ys : List Lexeme) :
    strippedOf (xs ++ ys) = strippedOf xs ++ strippedOf ys :=
  List.flatMap_append

/-- A piece without comments holds no separator, if the separator is none of
the characters that comments leave behind. -/
theorem notMem_strippedOf (hblank : separator ≠ ' ')
    (hfeed : separator ≠ '\n') {piece : List Lexeme}
    (h : .code separator ∉ piece) : separator ∉ strippedOf piece := by
  intro hmem
  obtain ⟨l, hl, hmem⟩ := List.mem_flatMap.mp hmem
  cases l with
  | code c =>
      obtain rfl := List.mem_singleton.mp hmem
      exact h hl
  | lineComment body ended =>
      cases ended with
      | false => simp [Lexeme.stripped] at hmem
      | true => exact hfeed (by simpa [Lexeme.stripped] using hmem)
  | blockComment body closed =>
      exact hblank (by simpa [Lexeme.stripped] using hmem)

theorem splitOn_stripComments (hblank : separator ≠ ' ')
    (hfeed : separator ≠ '\n') (t : Text) :
    (stripComments t).splitOn separator =
      (rawPieces separator t).map stripComments := by
  have hjoin : stripComments t = [separator].intercalate
      (((lex t).splitOnP (· = .code separator)).map strippedOf) := by
    rw [stripComments, ← congrArg strippedOf (intercalate_pieces separator _),
      strippedOf, flatMap_intercalate]
    rfl
  have hpieces : (rawPieces separator t).map stripComments =
      ((lex t).splitOnP (· = .code separator)).map strippedOf := by
    rw [rawPieces, List.map_map]
    apply List.map_congr_left
    intro piece hpiece
    rw [Function.comp, stripComments, (lex_textOf_piece hpiece).1]
  rw [hjoin, hpieces]
  apply List.splitOn_intercalate
  · intro stripped hstripped
    obtain ⟨piece, hpiece, rfl⟩ := List.mem_map.mp hstripped
    exact notMem_strippedOf hblank hfeed (lex_textOf_piece hpiece).2
  · simp

/-- Whatever is read behind a text, the reader has handed out the same lexemes
and is in the middle of the same thing. -/
theorem exists_lexFrom_append (mode : LexMode) (x : Text) :
    ∃ done mode', ∀ y, ResumesCode y →
      lexFrom mode (x ++ y) = done ++ lexFrom mode' y := by
  fun_induction lexFrom mode x with
  | case1 => exact ⟨[], .code, fun y _ => rfl⟩
  | case2 t ih => exact ih
  | case3 t ih => exact ih
  | case4 c t hline hblock ih =>
      obtain ⟨done, mode', h⟩ := ih
      refine ⟨.code c :: done, mode', fun y hy => ?_⟩
      rw [List.cons_append, lexFrom_code_cons_append hline hblock hy, h y hy,
        List.cons_append]
  | case5 read => exact ⟨[], .lineComment read, fun y _ => rfl⟩
  | case6 read t ih =>
      obtain ⟨done, mode', h⟩ := ih
      refine ⟨.lineComment read.reverse true :: done, mode', fun y hy => ?_⟩
      rw [List.cons_append, lexFrom, h y hy, List.cons_append]
  | case7 read c t hc ih =>
      obtain ⟨done, mode', h⟩ := ih
      refine ⟨done, mode', fun y hy => ?_⟩
      rw [List.cons_append, lexFrom, h y hy]
      exact hc
  | case8 read => exact ⟨[], .blockComment read, fun y _ => rfl⟩
  | case9 read t ih =>
      obtain ⟨done, mode', h⟩ := ih
      refine ⟨.blockComment read.reverse true :: done, mode', fun y hy => ?_⟩
      rw [List.cons_append, List.cons_append, lexFrom, h y hy,
        List.cons_append]
  | case10 read c t hc ih =>
      obtain ⟨done, mode', h⟩ := ih
      refine ⟨done, mode', fun y hy => ?_⟩
      rw [List.cons_append, lexFrom_block_cons_append hc hy, h y hy]

/-- White space behind a text only matters to what the reader is in the middle
of there. -/
theorem exists_lex_append_spaces (t : Text) :
    ∃ done mode, lex t = done ++ lexFrom mode [] ∧
      ∀ blanks : Text, (∀ c ∈ blanks, Text.isSpace c = true) →
        lex (t ++ blanks) = done ++ lexFrom mode blanks := by
  obtain ⟨done, mode, hread⟩ := exists_lexFrom_append .code t
  have hshort := hread [] (by simp [ResumesCode])
  rw [List.append_nil] at hshort
  exact ⟨done, mode, hshort,
    fun blanks h => hread blanks (spaces_resumesCode h)⟩

/-- Without comments only a blank may be new. -/
theorem mem_of_mem_strippedOf {mode : LexMode} {t : Text} {c : Char}
    (h : c ∈ strippedOf (lexFrom mode t)) : c = ' ' ∨ c ∈ t := by
  unfold strippedOf at h
  fun_induction lexFrom mode t with
  | case1 => simp at h
  | case2 t ih => exact (ih h).imp_right fun hc => by simp [hc]
  | case3 t ih => exact (ih h).imp_right fun hc => by simp [hc]
  | case4 a t _ _ ih =>
      rcases List.mem_cons.mp h with rfl | h
      · exact .inr List.mem_cons_self
      · exact (ih h).imp_right (List.mem_cons_of_mem a)
  | case5 read => simp [Lexeme.stripped] at h
  | case6 read t ih =>
      rcases List.mem_cons.mp h with rfl | h
      · exact .inr List.mem_cons_self
      · exact (ih h).imp_right (List.mem_cons_of_mem _)
  | case7 read a t _ ih => exact (ih h).imp_right (List.mem_cons_of_mem a)
  | case8 read => exact .inl (by simpa [Lexeme.stripped] using h)
  | case9 read t ih =>
      rcases List.mem_cons.mp h with rfl | h
      · exact .inl rfl
      · exact (ih h).imp_right fun hc => by simp [hc]
  | case10 read a t _ ih => exact (ih h).imp_right (List.mem_cons_of_mem a)

theorem isSpace_strippedOf {blanks : Text}
    (h : ∀ c ∈ blanks, Text.isSpace c = true) (mode : LexMode) :
    ∀ c ∈ strippedOf (lexFrom mode blanks), Text.isSpace c = true := by
  intro c hc
  rcases mem_of_mem_strippedOf hc with rfl | hc
  · rfl
  · exact h c hc

theorem trim_stripComments_append_spaces (t : Text) {blanks : Text}
    (h : ∀ c ∈ blanks, Text.isSpace c = true) :
    Text.trim (stripComments (t ++ blanks)) =
      Text.trim (stripComments t) := by
  obtain ⟨done, mode, hshort, hlong⟩ := exists_lex_append_spaces t
  unfold stripComments
  rw [hshort, hlong blanks h, strippedOf_append, strippedOf_append]
  exact (Text.trim_append_spaces _ (isSpace_strippedOf h mode)).trans
    (Text.trim_append_spaces _
      (isSpace_strippedOf (List.forall_mem_nil _) mode)).symm

theorem lex_spaces_append {blanks : Text}
    (h : ∀ c ∈ blanks, Text.isSpace c = true) (t : Text) :
    lex (blanks ++ t) = blanks.map .code ++ lex t :=
  lex_append_of_notMem (slash_notMem_spaces h) t

theorem trim_stripComments_trim (t : Text) :
    Text.trim (stripComments (Text.trim t)) =
      Text.trim (stripComments t) := by
  obtain ⟨before, after, hbefore, hafter, hsplit⟩ := Text.trim_split t
  have hstripped : stripComments t =
      before ++ stripComments (Text.trim t ++ after) := by
    conv_lhs => rw [hsplit]
    rw [stripComments, lex_spaces_append hbefore, strippedOf_append,
      ← stripComments, strippedOf, List.flatMap_map]
    congr 1
    exact List.flatMap_singleton' before
  rw [hstripped, Text.trim_spaces_append hbefore,
    trim_stripComments_append_spaces _ hafter]

/-! ## Continued lines in a piece -/

theorem length_spliceLines_le (t : Text) :
    (spliceLines t).length ≤ t.length := by
  fun_induction spliceLines t with
  | case1 t ih =>
      simp only [List.length_cons]
      omega
  | case2 t ih =>
      simp only [List.length_cons]
      omega
  | case3 c t _ _ ih =>
      simp only [List.length_cons]
      omega
  | case4 => exact Nat.le_refl _

theorem spliceLines_cons {c : Char} (hc : c ≠ '\\') (t : Text) :
    spliceLines (c :: t) = c :: spliceLines t := by
  rw [spliceLines]
  · intro u h
    exact absurd h hc
  · intro u h
    exact absurd h hc

/-- Whether a backslash stays is decided by the character behind it. -/
theorem spliceLines_cons_cons {a b : Char} {u : Text}
    (hpair : ∀ x, a = '\\' → b :: u = '\\' :: x → False)
    (hfeed : ∀ x, a = '\\' → b :: u = '\n' :: x → False) (v : Text) :
    spliceLines (a :: b :: v) = a :: spliceLines (b :: v) := by
  rw [spliceLines]
  · intro x ha heq
    exact hpair u ha (by rw [(List.cons.inj heq).1])
  · intro x ha heq
    exact hfeed u ha (by rw [(List.cons.inj heq).1])

theorem spliceLines_spliceLines (t : Text) :
    spliceLines (spliceLines t) = spliceLines t := by
  fun_induction spliceLines t with
  | case1 t ih => rw [spliceLines, ih]
  | case2 t ih => exact ih
  | case3 a t hpair hfeed ih =>
      cases t with
      | nil => simp [spliceLines]
      | cons b t =>
          by_cases ha : a = '\\'
          · -- The character behind the backslash comes out next.
            have hb : b ≠ '\\' := by
              rintro rfl
              exact hpair t ha rfl
            rw [spliceLines_cons hb] at ih ⊢
            rw [spliceLines_cons_cons hpair hfeed, ih]
          · rw [spliceLines_cons ha, ih]
  | case4 => rfl

/-- A character other than a backslash ends a run of backslashes. -/
theorem spliceLines_append_cons {c : Char} (hc : c ≠ '\\') (u v : Text) :
    spliceLines (u ++ c :: v) = spliceLines (u ++ [c]) ++ spliceLines v := by
  fun_induction spliceLines u with
  | case1 u ih => simp only [List.cons_append, spliceLines, ih]
  | case2 u ih => simp only [List.cons_append, spliceLines, ih]
  | case3 a u hpair hfeed ih =>
      cases u with
      | nil =>
          by_cases hcut : a = '\\' ∧ c = '\n'
          · rw [hcut.1, hcut.2]
            rfl
          · have hstep := spliceLines_cons_cons (a := a) (b := c) (u := [])
              (fun _ _ heq => hc (List.cons.inj heq).1)
              (fun _ ha heq => hcut ⟨ha, (List.cons.inj heq).1⟩)
            simp only [List.singleton_append, hstep, spliceLines_cons hc]
            rfl
      | cons b u =>
          have hstep := spliceLines_cons_cons hpair hfeed
          simp only [List.cons_append, hstep] at ih ⊢
          rw [ih]
  | case4 =>
      simp only [List.nil_append, spliceLines_cons hc]
      rfl

/-- A part of a text without continued lines has none either, if no backslash
stands in front of it. -/
theorem spliceLines_of_append_cons {c : Char} (hc : c ≠ '\\') {u v : Text}
    (h : spliceLines (u ++ c :: v) = u ++ c :: v) : spliceLines v = v := by
  have hparts : spliceLines (u ++ [c]) ++ spliceLines v = (u ++ [c]) ++ v := by
    rw [← spliceLines_append_cons hc, h, ← List.append_cons]
  have hu := length_spliceLines_le (u ++ [c])
  have hv := length_spliceLines_le v
  have hlength := congrArg List.length hparts
  rw [List.length_append, List.length_append] at hlength
  exact (List.append_inj' hparts (by omega)).2

theorem spliceLines_of_append {u v : Text}
    (h : spliceLines (u ++ v) = u ++ v) : spliceLines u = u := by
  fun_induction spliceLines u with
  | case1 u ih =>
      simp only [List.cons_append, spliceLines, List.cons.injEq, true_and] at h
      rw [ih h]
  | case2 u ih =>
      -- Something would be taken away.
      have hlength := congrArg List.length h
      have hle := length_spliceLines_le (u ++ v)
      simp only [List.cons_append, spliceLines, List.length_cons] at hlength
      omega
  | case3 a u hpair hfeed ih =>
      cases u with
      | nil => rfl
      | cons b u =>
          have hstep := spliceLines_cons_cons hpair hfeed
          simp only [List.cons_append, hstep, List.cons.injEq, true_and] at h
          rw [ih h]
  | case4 => rfl

theorem spliceLines_of_mem_rawPieces (hseparator : separator ≠ '\\')
    (ht : spliceLines t = t) {raw : Text}
    (h : raw ∈ rawPieces separator t) : spliceLines raw = raw := by
  obtain ⟨piece, hpiece, rfl⟩ := List.mem_map.mp h
  refine (of_mem_splitOnP
    (Q := fun ls => spliceLines (textOf ls) = textOf ls) ?_ ?_ hpiece).1
  · intro u l v hl htext
    have hsplit : textOf (u ++ l :: v) =
        textOf u ++ separator :: textOf v := by
      rw [of_decide_eq_true hl, textOf, List.flatMap_append,
        List.flatMap_cons]
      rfl
    rw [hsplit] at htext
    exact ⟨spliceLines_of_append htext,
      spliceLines_of_append_cons hseparator htext⟩
  · rw [textOf_lex]
    exact ht

/-- White space at the ends has no part in continued lines. -/
theorem spliceLines_trim (h : spliceLines t = t) :
    spliceLines (Text.trim t) = Text.trim t := by
  -- The white space in front ends with no backslash.
  obtain ⟨before, after, hbefore, _, hsplit⟩ := Text.trim_split t
  rw [hsplit] at h
  have hrest : spliceLines (Text.trim t ++ after) = Text.trim t ++ after := by
    rcases List.eq_nil_or_concat before with rfl | ⟨blanks, c, rfl⟩
    · exact h
    · have hc : c ≠ '\\' := by
        rintro rfl
        have hspace := hbefore '\\' (by simp)
        contradiction
      rw [List.concat_eq_append, ← List.append_cons] at h
      exact spliceLines_of_append_cons hc h
  exact spliceLines_of_append hrest

/-! ## Splitting -/

/-- A list is split into its trimmed pieces; the last one is left out if
nothing is left of it. -/
theorem splitList_eq (separator : Char) (t : Text) :
    ∃ kept last,
      (rawPieces separator (spliceLines t)).map Text.trim = kept ++ [last] ∧
      splitList separator t = kept ++ if last = [] then [] else [last] := by
  have hne : (rawPieces separator (spliceLines t)).map Text.trim ≠ [] := by
    simp [rawPieces_ne_nil]
  obtain ⟨kept, last, hpieces⟩ :=
    (List.eq_nil_or_concat _).resolve_left hne
  rw [List.concat_eq_append] at hpieces
  refine ⟨kept, last, hpieces, ?_⟩
  unfold splitList
  simp only [hpieces, List.getLast?_concat, Option.some.injEq,
    List.dropLast_concat]
  split
  · rw [List.append_nil]
  · rfl

theorem exists_of_mem_splitList {piece : Text}
    (h : piece ∈ splitList separator t) :
    ∃ raw ∈ rawPieces separator (spliceLines t), piece = Text.trim raw := by
  obtain ⟨kept, last, hpieces, hsplit⟩ := splitList_eq separator t
  have hmem : piece ∈ kept ++ [last] := by
    rw [hsplit] at h
    split at h
    · rw [List.append_nil] at h
      exact List.mem_append_left _ h
    · exact h
  rw [← hpieces] at hmem
  obtain ⟨raw, hraw, rfl⟩ := List.mem_map.mp hmem
  exact ⟨raw, hraw, rfl⟩

theorem code_mem_lex_of_trim {raw : Text} {c : Char}
    (h : .code c ∈ lex (Text.trim raw)) : .code c ∈ lex raw := by
  obtain ⟨before, after, hbefore, hafter, hsplit⟩ := Text.trim_split raw
  obtain ⟨done, mode, hshort, hlong⟩ := exists_lex_append_spaces (Text.trim raw)
  rw [hshort, List.mem_append] at h
  rw [hsplit, lex_spaces_append hbefore, hlong after hafter]
  rcases h with h | h
  · exact List.mem_append_right _ (List.mem_append_left _ h)
  · cases mode with
    | code => simp [lexFrom] at h
    | lineComment read => simp [lexFrom] at h
    | blockComment read => simp [lexFrom] at h

theorem splitList_of_mem (hseparator : separator ≠ '\\') {piece : Text}
    (h : piece ∈ splitList separator t) (hne : piece ≠ []) :
    splitList separator piece = [piece] := by
  obtain ⟨raw, hraw, rfl⟩ := exists_of_mem_splitList h
  have hsplice : spliceLines (Text.trim raw) = Text.trim raw :=
    spliceLines_trim (spliceLines_of_mem_rawPieces hseparator
      (spliceLines_spliceLines t) hraw)
  have hclean : ∀ l ∈ lex (Text.trim raw),
      decide (l = .code separator) = false := by
    intro l hl
    rw [decide_eq_false_iff_not]
    rintro rfl
    exact notMem_lex_of_mem_rawPieces hraw (code_mem_lex_of_trim hl)
  have hpieces : rawPieces separator (Text.trim raw) = [Text.trim raw] := by
    rw [rawPieces, List.splitOnP_eq_singleton hclean, List.map_singleton,
      textOf_lex]
  simp [splitList, hsplice, hpieces, Text.trim_trim, hne]

/-- Splitting a list loses nothing but white space at the ends of its pieces
and an empty piece at the end, cuts at all separators outside comments and
only there, and leaves each of its own pieces whole. -/
theorem splitList_lossless_stable (separator : Char)
    (hseparator : separator ≠ '\\') (t : Text) :
    (∃ raw kept last,
      spliceLines t = Text.join [separator] raw ∧
      (∀ piece ∈ raw, .code separator ∉ lex piece) ∧
      raw.map Text.trim = kept ++ [last] ∧
      splitList separator t = kept ++ if last = [] then [] else [last]) ∧
    ∀ piece ∈ splitList separator t, piece ≠ [] →
      splitList separator piece = [piece] := by
  constructor
  · obtain ⟨kept, last, hpieces, hsplit⟩ := splitList_eq separator t
    exact ⟨rawPieces separator (spliceLines t), kept, last,
      (join_rawPieces separator _).symm,
      fun _ => notMem_lex_of_mem_rawPieces, hpieces, hsplit⟩
  · exact fun _ hpiece hne => splitList_of_mem hseparator hpiece hne

/-- Separators in comments, a continued line and an escaped backslash. -/
theorem splitList_lossless_stable_comments :
    let t : Text := "a /* , */, \\\\\n // b,\\\nc,\n /*/, d ,"
    splitList ',' t =
      ["a /* , */", "\\\\\n // b,c,\n /*/, d ,"] ∧
    splitList ',' ("\\\\\n // b,c,\n /*/, d ," : Text) =
      [("\\\\\n // b,c,\n /*/, d ," : Text)] := by
  intro t
  have hsplit : splitList ',' t =
      ["a /* , */", "\\\\\n // b,c,\n /*/, d ,"] := by decide +kernel
  refine ⟨hsplit, ?_⟩
  exact (splitList_lossless_stable ',' (by decide) t).2 _
    (by rw [hsplit]; simp) (by decide)

/-- Comments may be removed before a list is split or after it.  The result is
the same up to an empty piece at the end, and there is one exactly if nothing
but white space follows the last separator. -/
theorem splitList_stripComments (separator : Char) (hblank : separator ≠ ' ')
    (hfeed : separator ≠ '\n') (t : Text) :
    let after := (splitList separator t).map fun piece =>
      Text.trim (stripComments piece)
    let before := ((stripComments (spliceLines t)).splitOn separator).map
      Text.trim
    (before = after ∨ before = after ++ [[]]) ∧
      (before = after ↔ ∀ raw ∈ (rawPieces separator (spliceLines t)).getLast?,
        Text.trim raw ≠ []) := by
  intro after before
  obtain ⟨kept, last, hpieces, hsplit⟩ := splitList_eq separator t
  have hbefore : before =
      (kept ++ [last]).map fun piece => Text.trim (stripComments piece) := by
    rw [← hpieces, List.map_map]
    simp only [before, splitOn_stripComments hblank hfeed, List.map_map]
    apply List.map_congr_left
    intro raw _
    exact (trim_stripComments_trim raw).symm
  -- A comment at the end is a piece, although nothing is left of it later.
  have hlast : (∀ raw ∈ (rawPieces separator (spliceLines t)).getLast?,
      Text.trim raw ≠ []) ↔ last ≠ [] := by
    have hmap := congrArg List.getLast? hpieces
    rw [List.getLast?_map, List.getLast?_concat, Option.map_eq_some_iff]
      at hmap
    obtain ⟨raw, hraw, rfl⟩ := hmap
    simp [hraw]
  rw [hlast]
  simp only [after, hsplit, hbefore]
  by_cases hnil : last = []
  · simp [hnil, stripComments, lex, lexFrom, strippedOf, Text.trim,
      Text.trimStart, Text.trimEnd]
  · simp [hnil]

/-- A comment that is cut off by the end, one that holds a separator, and
slashes that begin no comment. -/
theorem splitList_stripComments_open :
    let t : Text := "a/ *b /* , */ c, // d,\n / , /* e, "
    ((stripComments (spliceLines t)).splitOn ',').map Text.trim =
        (splitList ',' t).map (fun piece =>
          Text.trim (stripComments piece)) ∧
      (splitList ',' t).map (fun piece =>
        Text.trim (stripComments piece)) = ["a/ *b   c", "/", ""] := by
  intro t
  refine ⟨?_, by decide +kernel⟩
  refine (splitList_stripComments ',' (by decide) (by decide) t).2.mpr ?_
  decide +kernel

end Source

end Bindery
