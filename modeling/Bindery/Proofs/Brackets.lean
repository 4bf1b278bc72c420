import Bindery.Source.Delimiter
import Mathlib

/-!
# Balanced texts and the delimiters around them

A text is balanced if its comments end in it and, outside comments, its
delimiters pair up.  The number of open delimiters is followed lexeme by
lexeme.  The delimiter that matches an opening one is the first behind a
balanced text, and there is only one such place: `enclosed_eq_some_iff`.

Comments make the order of lexing and cutting matter.  A text can be lexed in
two parts if no comment is open between them and no two characters around the
cut begin a comment; conversely a lexing can be cut in front of a character of
code.
-/

namespace Bindery.Source

/-- The number of open delimiters behind the lexemes.  There is none if a
closing delimiter has no partner. -/
def depthAfter (opening closing : Char) :
    (depth : Nat) → List Lexeme → Option Nat
  | depth, [] => some depth
  | depth, l :: ls =>
    if l = .code closing then
      match depth with
      | 0 => none
      | depth + 1 => depthAfter opening closing depth ls
    else
      depthAfter opening closing
        (if l = .code opening then depth + 1 else depth) ls

/-- The comment that a lexeme may be has its end. -/
def Lexeme.closed : Lexeme → Bool
  | .code _ => true
  | .lineComment _ ended => ended
  | .blockComment _ closed => closed

/-- The comments end, and outside of them the delimiters pair up. -/
structure Balanced (opening closing : Char) (t : Text) : Prop where
  closed : ∀ l ∈ lex t, l.closed = true
  depth : depthAfter opening closing 0 (lex t) = some 0

variable {opening closing : Char}

/-! ## Counting open delimiters -/

theorem depthAfter_closing_zero (ls : List Lexeme) :
    depthAfter opening closing 0 (.code closing :: ls) = none := by
  simp [depthAfter]

theorem depthAfter_closing_succ (depth : Nat) (ls : List Lexeme) :
    depthAfter opening closing (depth + 1) (.code closing :: ls) =
      depthAfter opening closing depth ls := by
  simp [depthAfter]

theorem depthAfter_other {l : Lexeme} (hl : l ≠ .code closing)
    (depth : Nat) (ls : List Lexeme) :
    depthAfter opening closing depth (l :: ls) =
      depthAfter opening closing
        (if l = .code opening then depth + 1 else depth) ls := by
  conv_lhs => unfold depthAfter
  rw [if_neg hl]

theorem enclosedLexemes_closing_zero (ls : List Lexeme) :
    enclosedLexemes opening closing 0 (.code closing :: ls) =
      some ([], ls) := by
  simp [enclosedLexemes]

theorem enclosedLexemes_closing_succ (depth : Nat) (ls : List Lexeme) :
    enclosedLexemes opening closing (depth + 1) (.code closing :: ls) =
      (enclosedLexemes opening closing depth ls).map
        fun (inside, rest) => (.code closing :: inside, rest) := by
  simp [enclosedLexemes]

theorem enclosedLexemes_other {l : Lexeme} (hl : l ≠ .code closing)
    (depth : Nat) (ls : List Lexeme) :
    enclosedLexemes opening closing depth (l :: ls) =
      (enclosedLexemes opening closing
        (if l = .code opening then depth + 1 else depth) ls).map
          fun (inside, rest) => (l :: inside, rest) := by
  conv_lhs => unfold enclosedLexemes
  rw [if_neg hl]

theorem depthAfter_append (depth : Nat) (xs ys : List Lexeme) :
    depthAfter opening closing depth (xs ++ ys) =
      (depthAfter opening closing depth xs).bind fun depth' =>
        depthAfter opening closing depth' ys := by
  induction xs generalizing depth with
  | nil => rfl
  | cons x xs ih =>
      rw [List.cons_append]
      by_cases hx : x = .code closing
      · subst x
        cases depth with
        | zero => rw [depthAfter_closing_zero, depthAfter_closing_zero]; rfl
        | succ depth =>
            rw [depthAfter_closing_succ, depthAfter_closing_succ, ih]
      · rw [depthAfter_other hx, depthAfter_other hx, ih]

theorem enclosedLexemes_append {depth depth' : Nat} {xs : List Lexeme}
    (h : depthAfter opening closing depth xs = some depth')
    (ys : List Lexeme) :
    enclosedLexemes opening closing depth (xs ++ ys) =
      (enclosedLexemes opening closing depth' ys).map
        fun (inside, rest) => (xs ++ inside, rest) := by
  induction xs generalizing depth with
  | nil =>
      simp only [depthAfter, Option.some.injEq] at h
      subst depth'
      simp
  | cons x xs ih =>
      rw [List.cons_append]
      by_cases hx : x = .code closing
      · subst x
        cases depth with
        | zero =>
            rw [depthAfter_closing_zero] at h
            contradiction
        | succ depth =>
            rw [depthAfter_closing_succ] at h
            rw [enclosedLexemes_closing_succ, ih h, Option.map_map]
            rfl
      · rw [depthAfter_other hx] at h
        rw [enclosedLexemes_other hx, ih h, Option.map_map]
        rfl

theorem depthAfter_of_enclosedLexemes {depth : Nat}
    {ls inside rest : List Lexeme}
    (h : enclosedLexemes opening closing depth ls = some (inside, rest)) :
    depthAfter opening closing depth inside = some 0 := by
  induction ls generalizing depth inside rest with
  | nil => simp [enclosedLexemes] at h
  | cons l ls ih =>
      by_cases hl : l = .code closing
      · subst l
        cases depth with
        | zero =>
            rw [enclosedLexemes_closing_zero] at h
            simp only [Option.some.injEq, Prod.mk.injEq] at h
            rw [← h.1]
            rfl
        | succ depth =>
            rw [enclosedLexemes_closing_succ] at h
            obtain ⟨⟨inside', rest'⟩, hrec, heq⟩ :=
              Option.map_eq_some_iff.mp h
            simp only [Prod.mk.injEq] at heq
            rw [← heq.1, depthAfter_closing_succ]
            exact ih hrec
      · rw [enclosedLexemes_other hl] at h
        obtain ⟨⟨inside', rest'⟩, hrec, heq⟩ :=
          Option.map_eq_some_iff.mp h
        simp only [Prod.mk.injEq] at heq
        rw [← heq.1, depthAfter_other hl]
        exact ih hrec

theorem enclosedLexemes_eq_some_iff {depth : Nat}
    {ls inside rest : List Lexeme} :
    enclosedLexemes opening closing depth ls = some (inside, rest) ↔
      ls = inside ++ .code closing :: rest ∧
        depthAfter opening closing depth inside = some 0 := by
  constructor
  · intro h
    exact ⟨enclosedLexemes_eq h, depthAfter_of_enclosedLexemes h⟩
  · rintro ⟨rfl, hdepth⟩
    rw [enclosedLexemes_append hdepth, enclosedLexemes_closing_zero]
    simp

/-! ## Lexing in two parts -/

/-- A text does not begin with the second character of a comment. -/
def ResumesCode (t : Text) : Prop := ∀ c ∈ t.head?, c ≠ '/' ∧ c ≠ '*'

/-- Two characters around a cut do not begin a comment. -/
theorem lexFrom_code_cons_append {c : Char} {t y : Text}
    (hline : ∀ u, c = '/' → t = '/' :: u → False)
    (hblock : ∀ u, c = '/' → t = '*' :: u → False) (hy : ResumesCode y) :
    lexFrom .code (c :: (t ++ y)) = .code c :: lexFrom .code (t ++ y) := by
  rw [lexFrom]
  · intro u hc hu
    cases t with
    | nil =>
        rw [List.nil_append] at hu
        exact (hy '/' (by rw [hu]; rfl)).1 rfl
    | cons a t =>
        simp only [List.cons_append, List.cons.injEq] at hu
        exact hline t hc (by rw [hu.1])
  · intro u hc hu
    cases t with
    | nil =>
        rw [List.nil_append] at hu
        exact (hy '*' (by rw [hu]; rfl)).2 rfl
    | cons a t =>
        simp only [List.cons_append, List.cons.injEq] at hu
        exact hblock t hc (by rw [hu.1])

/-- Two characters around a cut do not end a comment. -/
theorem lexFrom_block_cons_append {read : Text} {c : Char} {t y : Text}
    (hend : ∀ u, c = '*' → t = '/' :: u → False) (hy : ResumesCode y) :
    lexFrom (.blockComment read) (c :: (t ++ y)) =
      lexFrom (.blockComment (c :: read)) (t ++ y) := by
  rw [lexFrom]
  intro u hc hu
  cases t with
  | nil =>
      rw [List.nil_append] at hu
      exact (hy '/' (by rw [hu]; rfl)).1 rfl
  | cons a t =>
      simp only [List.cons_append, List.cons.injEq] at hu
      exact hend t hc (by rw [hu.1])

theorem lexFrom_append {mode : LexMode} {x : Text}
    (hclosed : ∀ l ∈ lexFrom mode x, l.closed = true) {y : Text}
    (hy : ResumesCode y) :
    lexFrom mode (x ++ y) = lexFrom mode x ++ lex y := by
  fun_induction lexFrom mode x with
  | case1 => rfl
  | case2 t ih => exact ih hclosed
  | case3 t ih => exact ih hclosed
  | case4 c t hline hblock ih =>
      simp only [List.mem_cons, forall_eq_or_imp] at hclosed
      rw [List.cons_append, lexFrom_code_cons_append hline hblock hy,
        ih hclosed.2, List.cons_append]
  | case5 read => simp [Lexeme.closed] at hclosed
  | case6 read t ih =>
      simp only [List.mem_cons, forall_eq_or_imp] at hclosed
      rw [List.cons_append, lexFrom, ih hclosed.2, List.cons_append]
  | case7 read c t hc ih =>
      rw [List.cons_append, lexFrom, ih hclosed]
      exact hc
  | case8 read => simp [Lexeme.closed] at hclosed
  | case9 read t ih =>
      simp only [List.mem_cons, forall_eq_or_imp] at hclosed
      rw [List.cons_append, List.cons_append, lexFrom, ih hclosed.2,
        List.cons_append]
  | case10 read c t hc ih =>
      rw [List.cons_append, lexFrom_block_cons_append hc hy, ih hclosed]

/-- A lexing can be cut in front of a character of code. -/
theorem lexFrom_cut {mode : LexMode} {t : Text} {ls rest : List Lexeme}
    {c : Char} (h : lexFrom mode t = ls ++ .code c :: rest) :
    ∃ x y, t = x ++ y ∧ Lexeme.textOf ls = mode.pending ++ x ∧
      lexFrom mode x = ls ∧ ∀ l ∈ ls, l.closed = true := by
  fun_induction lexFrom mode t generalizing ls with
  | case1 => simp at h
  | case2 t ih =>
      obtain ⟨x, y, rfl, htext, hlex, hclosed⟩ := ih h
      exact ⟨'/' :: '/' :: x, y, rfl, htext, hlex, hclosed⟩
  | case3 t ih =>
      obtain ⟨x, y, rfl, htext, hlex, hclosed⟩ := ih h
      exact ⟨'/' :: '*' :: x, y, rfl, htext, hlex, hclosed⟩
  | case4 a t hline hblock ih =>
      cases ls with
      | nil => exact ⟨[], a :: t, rfl, rfl, rfl, by simp⟩
      | cons l ls =>
          simp only [List.cons_append, List.cons.injEq] at h
          obtain ⟨x, y, rfl, htext, hlex, hclosed⟩ := ih h.2
          refine ⟨a :: x, y, rfl, ?_, ?_, ?_⟩
          · rw [← h.1]
            simpa [Lexeme.textOf, Lexeme.text, LexMode.pending] using htext
          · rw [lexFrom, hlex, h.1]
            · intro u ha hx
              exact hline (u ++ y) ha (by rw [hx]; rfl)
            · intro u ha hx
              exact hblock (u ++ y) ha (by rw [hx]; rfl)
          · simp only [List.mem_cons, forall_eq_or_imp]
            exact ⟨by rw [← h.1]; rfl, hclosed⟩
  | case5 read =>
      cases ls with
      | nil => simp at h
      | cons l ls => simp at h
  | case6 read t ih =>
      cases ls with
      | nil => simp at h
      | cons l ls =>
          simp only [List.cons_append, List.cons.injEq] at h
          obtain ⟨x, y, rfl, htext, hlex, hclosed⟩ := ih h.2
          refine ⟨'\n' :: x, y, rfl, ?_, ?_, ?_⟩
          · rw [← h.1]
            simpa [Lexeme.textOf, Lexeme.text, LexMode.pending] using htext
          · rw [lexFrom, hlex, h.1]
          · simp only [List.mem_cons, forall_eq_or_imp]
            exact ⟨by rw [← h.1]; rfl, hclosed⟩
  | case7 read a t ha ih =>
      obtain ⟨x, y, rfl, htext, hlex, hclosed⟩ := ih h
      refine ⟨a :: x, y, rfl, ?_, ?_, hclosed⟩
      · simpa [LexMode.pending] using htext
      · rw [lexFrom, hlex]
        exact ha
  | case8 read =>
      cases ls with
      | nil => simp at h
      | cons l ls => simp at h
  | case9 read t ih =>
      cases ls with
      | nil => simp at h
      | cons l ls =>
          simp only [List.cons_append, List.cons.injEq] at h
          obtain ⟨x, y, rfl, htext, hlex, hclosed⟩ := ih h.2
          refine ⟨'*' :: '/' :: x, y, rfl, ?_, ?_, ?_⟩
          · rw [← h.1]
            simpa [Lexeme.textOf, Lexeme.text, LexMode.pending] using htext
          · rw [lexFrom, hlex, h.1]
          · simp only [List.mem_cons, forall_eq_or_imp]
            exact ⟨by rw [← h.1]; rfl, hclosed⟩
  | case10 read a t ha ih =>
      obtain ⟨x, y, rfl, htext, hlex, hclosed⟩ := ih h
      refine ⟨a :: x, y, rfl, ?_, ?_, hclosed⟩
      · simpa [LexMode.pending] using htext
      · rw [lexFrom, hlex]
        intro u hstar hx
        exact ha (u ++ y) hstar (by rw [hx]; rfl)

theorem lex_append {x : Text} (hclosed : ∀ l ∈ lex x, l.closed = true)
    {y : Text} (hy : ResumesCode y) : lex (x ++ y) = lex x ++ lex y :=
  lexFrom_append hclosed hy

theorem lex_cons_of_ne {c : Char} (hc : c ≠ '/') (t : Text) :
    lex (c :: t) = .code c :: lex t := by
  unfold lex
  rw [lexFrom]
  · intro u h
    exact absurd h hc
  · intro u h
    exact absurd h hc

/-- A text without slashes is all code, whatever follows it. -/
theorem lex_append_of_notMem {x : Text} (hx : '/' ∉ x) (y : Text) :
    lex (x ++ y) = x.map .code ++ lex y := by
  induction x with
  | nil => rfl
  | cons c x ih =>
      simp only [List.mem_cons, not_or] at hx
      rw [List.cons_append, lex_cons_of_ne (Ne.symm hx.1), ih hx.2]
      rfl

theorem lex_of_notMem {x : Text} (hx : '/' ∉ x) : lex x = x.map .code := by
  have happend := lex_append_of_notMem hx []
  rw [List.append_nil] at happend
  rw [happend]
  simp [lex, lexFrom]

/-! ## The matching delimiter -/

theorem closingOf_ne {opening closing : Char}
    (h : closingOf opening = some closing) :
    closing ≠ '/' ∧ closing ≠ '*' := by
  unfold closingOf at h
  split at h
  · cases h
    decide
  · split at h
    · cases h
      decide
    · split at h
      · cases h
        decide
      · contradiction

/-- The matching delimiter is the closing one behind a balanced text. -/
theorem enclosed_eq_some_iff {opening closing : Char}
    (hclosing : closingOf opening = some closing) {t inside rest : Text} :
    enclosed opening t = some (inside, rest) ↔
      t = inside ++ closing :: rest ∧ Balanced opening closing inside := by
  have hne := closingOf_ne hclosing
  have hresumes : ResumesCode (closing :: rest) := by
    intro c hc
    simp only [List.head?_cons, Option.mem_some_iff] at hc
    exact hc ▸ hne
  constructor
  · intro h
    simp only [enclosed, hclosing, Option.bind_eq_bind,
      Option.bind_some, Option.bind_eq_some_iff] at h
    obtain ⟨⟨ls, ls'⟩, hls, heq⟩ := h
    simp only [Option.pure_def, Option.some.injEq, Prod.mk.injEq] at heq
    obtain ⟨hsplit, hdepth⟩ := enclosedLexemes_eq_some_iff.mp hls
    obtain ⟨x, y, hxy, htext, hlex, hclosed⟩ := lexFrom_cut hsplit
    have hx : x = inside := by
      rw [← heq.1, htext]
      rfl
    have hwhole := congrArg Lexeme.textOf hsplit
    rw [textOf_lex] at hwhole
    refine ⟨?_, ?_, ?_⟩
    · rw [hwhole, ← heq.1, ← heq.2]
      simp [Lexeme.textOf, Lexeme.text]
    · rw [← hx]
      unfold lex
      rw [hlex]
      exact hclosed
    · rw [← hx]
      unfold lex
      rw [hlex]
      exact hdepth
  · rintro ⟨rfl, hbalanced⟩
    have hlex : lex (inside ++ closing :: rest) =
        lex inside ++ .code closing :: lex rest := by
      rw [lex_append hbalanced.closed hresumes, lex_cons_of_ne hne.1]
    have hfound : enclosedLexemes opening closing 0
        (lex (inside ++ closing :: rest)) = some (lex inside, lex rest) :=
      enclosedLexemes_eq_some_iff.mpr ⟨hlex, hbalanced.depth⟩
    simp [enclosed, hclosing, hfound]

/-! ## White space behind a text -/

theorem depthAfter_spaces (hopening : Text.isSpace opening = false)
    (hclosing : Text.isSpace closing = false) {blanks : Text}
    (hblanks : ∀ c ∈ blanks, Text.isSpace c = true) (depth : Nat) :
    depthAfter opening closing depth (blanks.map .code) = some depth := by
  induction blanks with
  | nil => rfl
  | cons c blanks ih =>
      simp only [List.mem_cons, forall_eq_or_imp] at hblanks
      have hne : ∀ a, Text.isSpace a = false →
          Lexeme.code c ≠ Lexeme.code a := by
        intro a ha heq
        rw [Lexeme.code.injEq] at heq
        rw [← heq, hblanks.1] at ha
        contradiction
      rw [List.map_cons, depthAfter_other (hne closing hclosing),
        if_neg (hne opening hopening)]
      exact ih hblanks.2

theorem spaces_resumesCode {blanks : Text}
    (hblanks : ∀ c ∈ blanks, Text.isSpace c = true) :
    ResumesCode blanks := by
  intro c hc
  have hspace := hblanks c (List.mem_of_mem_head? hc)
  constructor
  · rintro rfl
    contradiction
  · rintro rfl
    contradiction

theorem slash_notMem_spaces {blanks : Text}
    (hblanks : ∀ c ∈ blanks, Text.isSpace c = true) : '/' ∉ blanks := by
  intro hmem
  have hspace := hblanks '/' hmem
  contradiction

theorem depthAfter_comment {l : Lexeme} (hl : ∀ c, l ≠ .code c)
    (depth : Nat) (ls : List Lexeme) :
    depthAfter opening closing depth (l :: ls) =
      depthAfter opening closing depth ls := by
  rw [depthAfter_other (hl closing), if_neg (hl opening)]

/-- A comment that is open in front of white space is all that is left, but
for white space. -/
theorem depthAfter_lexFrom_spaces (hopening : Text.isSpace opening = false)
    (hclosing : Text.isSpace closing = false) {blanks : Text}
    (hblanks : ∀ c ∈ blanks, Text.isSpace c = true) (mode : LexMode)
    (depth : Nat) :
    depthAfter opening closing depth (lexFrom mode blanks) = some depth := by
  have hcode {blanks : Text} (hblanks : ∀ c ∈ blanks, Text.isSpace c = true) :
      depthAfter opening closing depth (lexFrom .code blanks) =
        some depth := by
    have hlex := lex_of_notMem (slash_notMem_spaces hblanks)
    unfold lex at hlex
    rw [hlex]
    exact depthAfter_spaces hopening hclosing hblanks depth
  cases mode with
  | code => exact hcode hblanks
  | lineComment read =>
      induction blanks generalizing read with
      | nil =>
          rw [lexFrom, depthAfter_comment (by simp)]
          rfl
      | cons c blanks ih =>
          simp only [List.mem_cons, forall_eq_or_imp] at hblanks
          by_cases hc : c = '\n'
          · rw [hc, lexFrom, depthAfter_comment (by simp)]
            exact hcode hblanks.2
          · rw [lexFrom]
            · exact ih hblanks.2 _
            · exact hc
  | blockComment read =>
      induction blanks generalizing read with
      | nil =>
          rw [lexFrom, depthAfter_comment (by simp)]
          rfl
      | cons c blanks ih =>
          simp only [List.mem_cons, forall_eq_or_imp] at hblanks
          rw [lexFrom]
          · exact ih hblanks.2 _
          · rintro u rfl
            have hstar := hblanks.1
            contradiction

/-- White space behind a text opens and closes nothing, also if it ends a
comment. -/
theorem depthAfter_lexFrom_append_spaces
    (hopening : Text.isSpace opening = false)
    (hclosing : Text.isSpace closing = false) {blanks : Text}
    (hblanks : ∀ c ∈ blanks, Text.isSpace c = true)
    (mode : LexMode) (t : Text) (depth : Nat) :
    depthAfter opening closing depth (lexFrom mode (t ++ blanks)) =
      depthAfter opening closing depth (lexFrom mode t) := by
  have hresumes := spaces_resumesCode hblanks
  have hblank (mode : LexMode) (depth : Nat) :=
    depthAfter_lexFrom_spaces hopening hclosing hblanks mode depth
  fun_induction lexFrom mode t generalizing depth with
  | case1 => exact hblank .code depth
  | case2 t ih => exact ih depth
  | case3 t ih => exact ih depth
  | case4 c t hline hblock ih =>
      rw [List.cons_append, lexFrom_code_cons_append hline hblock hresumes]
      by_cases hc : Lexeme.code c = .code closing
      · rw [hc]
        cases depth with
        | zero => rw [depthAfter_closing_zero, depthAfter_closing_zero]
        | succ depth =>
            rw [depthAfter_closing_succ, depthAfter_closing_succ, ih]
      · rw [depthAfter_other hc, depthAfter_other hc, ih]
  | case5 read =>
      rw [List.nil_append, hblank, depthAfter_comment (by simp)]
      rfl
  | case6 read t ih =>
      rw [List.cons_append, lexFrom, depthAfter_comment (by simp),
        depthAfter_comment (by simp), ih]
  | case7 read c t hc ih =>
      rw [List.cons_append, lexFrom, ih]
      exact hc
  | case8 read =>
      rw [List.nil_append, hblank, depthAfter_comment (by simp)]
      rfl
  | case9 read t ih =>
      rw [List.cons_append, List.cons_append, lexFrom,
        depthAfter_comment (by simp), depthAfter_comment (by simp), ih]
  | case10 read c t hc ih =>
      rw [List.cons_append, lexFrom_block_cons_append hc hresumes, ih]

/-! ## Delimiters inside a balanced text -/

/-- If fewer delimiters are open at the end than somewhere before, one that
was open there has been closed. -/
theorem exists_enclosedLexemes {depth below final : Nat}
    {ls : List Lexeme}
    (h : depthAfter opening closing (depth + below + 1) ls = some final)
    (hfinal : final ≤ below) :
    ∃ inside rest, enclosedLexemes opening closing depth ls =
      some (inside, rest) := by
  induction ls generalizing depth with
  | nil =>
      simp only [depthAfter, Option.some.injEq] at h
      omega
  | cons l ls ih =>
      by_cases hl : l = .code closing
      · subst l
        cases depth with
        | zero => exact ⟨[], ls, enclosedLexemes_closing_zero ls⟩
        | succ depth =>
            rw [show depth + 1 + below + 1 = (depth + below + 1) + 1 by omega,
              depthAfter_closing_succ] at h
            obtain ⟨inside, rest, hrec⟩ := ih h
            rw [enclosedLexemes_closing_succ, hrec]
            exact ⟨_, _, rfl⟩
      · rw [depthAfter_other hl] at h
        rw [enclosedLexemes_other hl]
        by_cases hopen : l = .code opening
        · simp only [hopen, if_true] at h ⊢
          rw [show depth + below + 1 + 1 = (depth + 1) + below + 1 by omega]
            at h
          obtain ⟨inside, rest, hrec⟩ := ih h
          rw [hrec]
          exact ⟨_, _, rfl⟩
        · simp only [hopen, if_false] at h ⊢
          obtain ⟨inside, rest, hrec⟩ := ih h
          rw [hrec]
          exact ⟨_, _, rfl⟩

/-- A delimiter that opens inside a balanced text, outside comments, closes
inside it. -/
theorem Balanced.exists_enclosed (hclosing : closingOf opening = some closing)
    (hopening : ResumesCode [opening]) (hne : opening ≠ closing)
    {x y : Text} (h : Balanced opening closing (x ++ opening :: y))
    (hx : ∀ l ∈ lex x, l.closed = true) (tail : Text) :
    ∃ inside rest, y = inside ++ closing :: rest ∧
      enclosed opening (y ++ tail) = some (inside, rest ++ tail) := by
  have hslash : opening ≠ '/' := (hopening opening rfl).1
  have hlex : lex (x ++ opening :: y) = lex x ++ .code opening :: lex y := by
    rw [lex_append hx, lex_cons_of_ne hslash]
    intro c hc
    exact hopening c (by simpa using hc)
  have hdepth := h.depth
  rw [hlex, depthAfter_append, Option.bind_eq_some_iff] at hdepth
  obtain ⟨below, _, hdepth⟩ := hdepth
  rw [depthAfter_other (by simpa using hne), if_pos rfl] at hdepth
  have hdepth' : depthAfter opening closing (0 + below + 1) (lex y) =
      some 0 := by
    simpa using hdepth
  obtain ⟨ls, ls', hls⟩ :=
    exists_enclosedLexemes hdepth' (Nat.zero_le below)
  have henclosed : enclosed opening y =
      some (Lexeme.textOf ls, Lexeme.textOf ls') := by
    simp [enclosed, hclosing, hls]
  obtain ⟨hy, hbalanced⟩ := (enclosed_eq_some_iff hclosing).mp henclosed
  refine ⟨_, _, hy, (enclosed_eq_some_iff hclosing).mpr ⟨?_, hbalanced⟩⟩
  rw [hy]
  simp

/-! ## Byte offsets -/

theorem utf8Size_append (x y : Text) :
    Text.utf8Size (x ++ y) = Text.utf8Size x + Text.utf8Size y := by
  induction x with
  | nil => simp [Text.utf8Size]
  | cons c x ih =>
      rw [List.cons_append, Text.utf8Size, Text.utf8Size, ih, Nat.add_assoc]

theorem eq_nil_of_utf8Size {x : Text} (h : Text.utf8Size x = 0) : x = [] := by
  cases x with
  | nil => rfl
  | cons c x =>
      have hpos := Char.utf8Size_pos c
      rw [Text.utf8Size] at h
      omega

theorem dropBytes?_utf8Size (x y : Text) :
    dropBytes? (Text.utf8Size x) (x ++ y) = some y := by
  induction x with
  | nil => simp [Text.utf8Size, dropBytes?]
  | cons c x ih =>
      obtain ⟨n, hn⟩ : ∃ n, Text.utf8Size (c :: x) = n + 1 := by
        have hpos := Char.utf8Size_pos c
        refine ⟨Text.utf8Size (c :: x) - 1, ?_⟩
        rw [Text.utf8Size]
        omega
      have hsize : n + 1 - c.utf8Size = Text.utf8Size x := by
        rw [← hn, Text.utf8Size, Nat.add_sub_cancel_left]
      have hle : c.utf8Size ≤ n + 1 := by
        rw [← hn, Text.utf8Size]
        exact Nat.le_add_right _ _
      rw [hn, List.cons_append, dropBytes?, if_pos hle, hsize]
      exact ih

theorem matchingDelimiter_append (lead : Text) (opening : Char)
    (after : Text) :
    matchingDelimiter (lead ++ opening :: after) (Text.utf8Size lead) =
      (enclosed opening after).map fun (inside, _) =>
        Text.utf8Size (lead ++ opening :: inside) := by
  simp only [matchingDelimiter, dropBytes?_utf8Size, Option.bind_eq_bind,
    Option.bind_some]
  cases enclosed opening after with
  | none => rfl
  | some parts =>
      simp [utf8Size_append, Text.utf8Size, Nat.add_assoc]

/-- Of two beginnings of a text with the same size, each is the other. -/
theorem eq_of_utf8Size_eq {x x' y y' : Text} (h : x ++ y = x' ++ y')
    (hsize : Text.utf8Size x = Text.utf8Size x') : x = x' := by
  rcases List.append_eq_append_iff.mp h with ⟨z, hz, _⟩ | ⟨z, hz, _⟩
  · rw [hz, utf8Size_append] at hsize
    rw [hz, eq_nil_of_utf8Size (by omega : Text.utf8Size z = 0),
      List.append_nil]
  · rw [hz, utf8Size_append] at hsize
    rw [hz, eq_nil_of_utf8Size (by omega : Text.utf8Size z = 0),
      List.append_nil]

theorem matchingDelimiter_eq_some_iff {opening closing : Char}
    (hclosing : closingOf opening = some closing) {lead inside tail : Text} :
    matchingDelimiter (lead ++ opening :: (inside ++ closing :: tail))
        (Text.utf8Size lead) =
      some (Text.utf8Size (lead ++ opening :: inside)) ↔
    enclosed opening (inside ++ closing :: tail) = some (inside, tail) := by
  rw [matchingDelimiter_append]
  constructor
  · intro h
    obtain ⟨⟨inside', tail'⟩, hfound, hsize⟩ := Option.map_eq_some_iff.mp h
    obtain ⟨hsplit, hbalanced⟩ := (enclosed_eq_some_iff hclosing).mp hfound
    have hinside : inside = inside' := by
      apply eq_of_utf8Size_eq hsplit
      simp only [utf8Size_append, Text.utf8Size] at hsize
      omega
    subst inside'
    have htail := List.append_cancel_left hsplit
    rw [List.cons.injEq] at htail
    rw [hfound, htail.2]
  · intro h
    rw [h]
    rfl

end Bindery.Source
