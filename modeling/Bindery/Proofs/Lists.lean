import Bindery.Proofs.Brackets
import Bindery.Proofs.Identifiers
import Bindery.Source.Split

/-!
# Written lists

Lists are written with a comma and a blank between neighbours.  Splitting such
a list at its commas gives its pieces back, if they hold no comma themselves
and nothing that could begin a comment or continue a line.
-/

namespace Bindery.Written

open Source

/-- A list with commas between its pieces and a blank in front of each. -/
def listed (pieces : List Text) : Text :=
  Text.join [','] (pieces.map (' ' :: ·))

/-- A list with commas and blanks between its pieces. -/
def commaed (pieces : List Text) : Text := Text.join [',', ' '] pieces

theorem listed_cons (piece : Text) (pieces : List Text) :
    listed (piece :: pieces) =
      ' ' :: (piece ++ pieces.flatMap fun p => ',' :: ' ' :: p) := by
  induction pieces generalizing piece with
  | nil => simp [listed, Text.join]
  | cons p pieces ih =>
      have hjoin : listed (piece :: p :: pieces) =
          (' ' :: piece) ++ [','] ++ listed (p :: pieces) :=
        List.intercalate_cons_cons
      rw [hjoin, ih]
      simp

theorem splitOn_listed {pieces : List Text} (hne : pieces ≠ [])
    (h : ∀ p ∈ pieces, ',' ∉ p) :
    (listed pieces).splitOn ',' = pieces.map (' ' :: ·) := by
  apply List.splitOn_intercalate
  · intro l hl
    obtain ⟨p, hp, rfl⟩ := List.mem_map.mp hl
    simp [h p hp]
  · simp [hne]

theorem mem_listed {c : Char} {pieces : List Text} (h : c ∈ listed pieces) :
    c = ' ' ∨ c = ',' ∨ ∃ p ∈ pieces, c ∈ p := by
  cases pieces with
  | nil => contradiction
  | cons p pieces =>
      simp only [listed_cons, List.mem_cons, List.mem_append,
        List.mem_flatMap] at h
      rcases h with h | h | ⟨q, hq, h | h | h⟩
      · exact .inl h
      · exact .inr (.inr ⟨p, by simp, h⟩)
      · exact .inr (.inl h)
      · exact .inl h
      · exact .inr (.inr ⟨q, by simp [hq], h⟩)

/-- A piece that a list may be made of. -/
structure IsPiece (p : Text) : Prop where
  ne_nil : p ≠ []
  clean : ∀ c ∈ p, c ≠ '/' ∧ c ≠ '\\' ∧ c ≠ ','
  head : ∀ c ∈ p.head?, Text.isSpace c = false
  last : ∀ c ∈ p.getLast?, Text.isSpace c = false

/-- A piece that begins with an identifier and ends with another one, with
blanks and a sign between them. -/
theorem isPiece_of_identifier {a : Char} (ha : a ≠ '/' ∧ a ≠ '\\' ∧ a ≠ ',')
    (i : Identifier) {x : Text}
    (hchars : ∀ c ∈ i.text ++ x, Text.isIdent c = true ∨ c = ' ' ∨ c = a)
    (hlast : ∀ c ∈ (i.text ++ x).getLast?, Text.isIdent c = true) :
    IsPiece (i.text ++ x) := by
  refine ⟨?_, ?_, ?_, ?_⟩
  · simp [i.text_ne_nil]
  · intro c hc
    rcases hchars c hc with hc | rfl | rfl
    · exact ⟨Text.ne_of_isIdent hc (by decide),
        Text.ne_of_isIdent hc (by decide), Text.ne_of_isIdent hc (by decide)⟩
    · decide
    · exact ha
  · intro c hc
    rw [List.head?_append_of_ne_nil _ i.text_ne_nil] at hc
    exact i.notSpace c (List.mem_of_mem_head? hc)
  · intro c hc
    exact Text.isSpace_of_isIdent (hlast c hc)

theorem IsPiece.trim_eq {p : Text} (h : IsPiece p) : Text.trim p = p :=
  Text.trim_eq_self_of_ends h.head h.last

theorem commaed_cons_cons (p q : Text) (pieces : List Text) :
    commaed (p :: q :: pieces) =
      (p ++ [',', ' ']) ++ commaed (q :: pieces) :=
  List.intercalate_cons_cons

theorem commaed_singleton (p : Text) : commaed [p] = p := by
  simp [commaed, Text.join]

theorem listed_eq_commaed {pieces : List Text} (hne : pieces ≠ []) :
    listed pieces = ' ' :: commaed pieces := by
  induction pieces with
  | nil => contradiction
  | cons p pieces ih =>
      cases pieces with
      | nil => simp [listed, Text.join, commaed_singleton]
      | cons q pieces =>
          have hlisted : listed (p :: q :: pieces) =
              (' ' :: p) ++ [','] ++ listed (q :: pieces) :=
            List.intercalate_cons_cons
          rw [hlisted, ih (by simp), commaed_cons_cons]
          simp

theorem mem_commaed {c : Char} {pieces : List Text} (h : c ∈ commaed pieces) :
    c = ' ' ∨ c = ',' ∨ ∃ p ∈ pieces, c ∈ p := by
  cases pieces with
  | nil => contradiction
  | cons p pieces =>
      apply mem_listed
      rw [listed_eq_commaed (by simp)]
      exact List.mem_cons_of_mem _ h

theorem commaed_head {p : Text} (pieces : List Text) (h : IsPiece p) :
    ∀ c ∈ (commaed (p :: pieces)).head?, Text.isSpace c = false := by
  intro c hc
  apply h.head
  cases pieces with
  | nil => rwa [commaed_singleton] at hc
  | cons q pieces =>
      rwa [commaed_cons_cons, List.append_assoc,
        List.head?_append_of_ne_nil _ h.ne_nil] at hc

theorem commaed_last {p : Text} {pieces : List Text}
    (h : ∀ q ∈ p :: pieces, IsPiece q) :
    commaed (p :: pieces) ≠ [] ∧
      ∀ c ∈ (commaed (p :: pieces)).getLast?, Text.isSpace c = false := by
  induction pieces generalizing p with
  | nil =>
      have hp := h p (by simp)
      rw [commaed_singleton]
      exact ⟨hp.ne_nil, hp.last⟩
  | cons q pieces ih =>
      obtain ⟨hne, hlast⟩ := ih fun r hr => h r (List.mem_cons_of_mem p hr)
      rw [commaed_cons_cons]
      refine ⟨by simp, ?_⟩
      intro c hc
      rw [List.getLast?_append_of_ne_nil _ hne] at hc
      exact hlast c hc

/-- Trimming leaves the pieces with their commas. -/
theorem trim_listed {pieces : List Text} (h : ∀ p ∈ pieces, IsPiece p) :
    Text.trim (listed pieces ++ [' ']) = commaed pieces := by
  cases pieces with
  | nil => decide
  | cons p pieces =>
      rw [listed_eq_commaed (by simp), List.cons_append,
        Text.trim_cons (by decide)]
      exact Text.trim_append_blank (commaed_head pieces (h p (by simp)))
        (commaed_last h).2

end Bindery.Written

namespace Bindery.Source

open Written

theorem spliceLines_of_notMem {t : Text} (h : '\\' ∉ t) :
    spliceLines t = t := by
  fun_induction spliceLines t with
  | case1 t ih => simp at h
  | case2 t ih => simp at h
  | case3 c t _ _ ih =>
      rw [ih fun hmem => h (List.mem_cons_of_mem c hmem)]
  | case4 => rfl

/-- Without comments, pieces are cut at every separator. -/
theorem rawPieces_of_notMem {t : Text} (h : '/' ∉ t) (separator : Char) :
    rawPieces separator t = t.splitOn separator := by
  have hpieces (u : Text) :
      ((u.map Lexeme.code).splitOnP (· = .code separator)).map
        Lexeme.textOf = u.splitOnP (· == separator) := by
    induction u with
    | nil => rfl
    | cons c u ih =>
        rw [List.map_cons, List.splitOnP_cons_eq_if_modifyHead,
          List.splitOnP_cons_eq_if_modifyHead, ← ih]
        by_cases hc : c = separator
        · simp [hc, Lexeme.textOf]
        · simp only [Lexeme.code.injEq, hc, decide_false, beq_iff_eq]
          generalize (u.map Lexeme.code).splitOnP
            (decide <| · = .code separator) = pieces
          cases pieces with
          | nil => rfl
          | cons piece pieces => rfl
  unfold rawPieces List.splitOn
  rw [lex_of_notMem h, hpieces]

theorem splitOn_commaed {p : Text} {pieces : List Text}
    (h : ∀ q ∈ p :: pieces, ',' ∉ q) :
    (commaed (p :: pieces)).splitOn ',' = p :: pieces.map (' ' :: ·) := by
  have hlisted := splitOn_listed (List.cons_ne_nil p pieces) h
  rw [listed_eq_commaed (by simp), List.splitOn,
    List.splitOnP_cons_eq_if_modifyHead, if_neg (by decide)] at hlisted
  unfold List.splitOn
  generalize (commaed (p :: pieces)).splitOnP (· == ',') = parts at hlisted ⊢
  cases parts with
  | nil => contradiction
  | cons q parts => simpa using hlisted

theorem notMem_commaed {pieces : List Text} (h : ∀ p ∈ pieces, IsPiece p) :
    '/' ∉ commaed pieces ∧ '\\' ∉ commaed pieces := by
  constructor
  · intro hc
    rcases mem_commaed hc with hc | hc | ⟨q, hq, hc⟩
    · contradiction
    · contradiction
    · exact ((h q hq).clean _ hc).1 rfl
  · intro hc
    rcases mem_commaed hc with hc | hc | ⟨q, hq, hc⟩
    · contradiction
    · contradiction
    · exact ((h q hq).clean _ hc).2.1 rfl

/-- A written list is split into its pieces. -/
theorem splitList_commaed {pieces : List Text}
    (h : ∀ p ∈ pieces, IsPiece p) :
    splitList ',' (commaed pieces) = pieces := by
  cases pieces with
  | nil => rfl
  | cons p pieces =>
      obtain ⟨hslash, hbackslash⟩ := notMem_commaed h
      have hcomma : ∀ q ∈ p :: pieces, ',' ∉ q :=
        fun q hq hmem => ((h q hq).clean _ hmem).2.2 rfl
      have hothers : pieces.map (Text.trim ∘ (' ' :: ·)) = pieces := by
        conv_rhs => rw [← List.map_id pieces]
        apply List.map_congr_left
        intro q hq
        exact (Text.trim_cons (by decide) q).trans (h q (by simp [hq])).trim_eq
      have hlast : (p :: pieces).getLast? ≠ some [] := by
        intro hlast
        exact (h [] (List.mem_of_getLast? hlast)).ne_nil rfl
      unfold splitList
      rw [spliceLines_of_notMem hbackslash, rawPieces_of_notMem hslash,
        splitOn_commaed hcomma, List.map_cons, List.map_map,
        (h p (by simp)).trim_eq, hothers]
      simp only [hlast, if_false]

end Bindery.Source
