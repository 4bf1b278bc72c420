import Bindery.Proofs.Declarators
import Bindery.Proofs.StructText

/-!
# Reading lines of members

The rule for members prefers a type of as many words as possible, so on a
written line it first takes the name of the first declarator for the end of
the type.  What follows that name does not begin a declarator, and the rule
falls back on the type that was meant.  The declarators are then read up to
the semicolon, and each of them gives back its stars, its name and its
dimensions.
-/

namespace Bindery.Written

open Source Matcher

/-! ## The characters of a declarator -/

namespace Declarator

variable (d : Declarator)

theorem mem_dimsText {c : Char} (h : c ∈ d.dimsText) :
    c = '[' ∨ c = ']' ∨ Text.isIdent c = true := by
  simp only [dimsText, List.mem_flatMap, List.mem_cons, List.mem_append,
    List.not_mem_nil, or_false] at h
  obtain ⟨n, _, h | h | h⟩ := h
  · exact .inl h
  · exact .inr (.inr (n.isIdent c h))
  · exact .inr (.inl h)

theorem mem_text {c : Char} (h : c ∈ d.text) :
    c = '*' ∨ c = '[' ∨ c = ']' ∨ Text.isIdent c = true := by
  rcases List.mem_append.mp h with h | h
  · exact .inl (List.eq_of_mem_replicate h)
  · rcases List.mem_append.mp h with h | h
    · exact .inr (.inr (.inr (d.name.isIdent c h)))
    · exact .inr (d.mem_dimsText h)

/-- A class that holds stars, brackets and identifiers holds all of a
declarator. -/
theorem all_text {p : Char → Bool} (hstar : p '*' = true)
    (hopen : p '[' = true) (hclose : p ']' = true)
    (hident : ∀ c, Text.isIdent c = true → p c = true) :
    ∀ c ∈ d.text, p c = true := by
  intro c hc
  rcases d.mem_text hc with rfl | rfl | rfl | hc
  · exact hstar
  · exact hopen
  · exact hclose
  · exact hident c hc

theorem text_ne_nil : d.text ≠ [] := by
  simp [text, d.name.text_ne_nil]

/-- A declarator ends with a name or with a bracket. -/
theorem getLast?_text {c : Char} (h : c ∈ d.text.getLast?) :
    Text.isIdent c = true ∨ c = ']' := by
  rw [text, List.getLast?_append_of_ne_nil _
    (by simp [d.name.text_ne_nil])] at h
  rcases List.eq_nil_or_concat' d.dims with hdims | ⟨dims, n, hdims⟩
  · rw [dimsText, hdims, List.flatMap_nil, List.append_nil] at h
    exact .inl (d.name.isIdent c (List.mem_of_getLast? h))
  · have htext : d.name.text ++ d.dimsText =
        (d.name.text ++ dims.flatMap fun n => '[' :: (n.text ++ [']'])) ++
          ('[' :: n.text ++ [']']) := by
      simp [dimsText, hdims]
    rw [htext, List.getLast?_append_of_ne_nil _ (by simp),
      List.getLast?_concat, Option.mem_some_iff] at h
    exact .inr h.symm

end Declarator

end Bindery.Written

/-! ## The words of a type -/

namespace Bindery.Source.BodyItem

open Matcher

variable {t : Text} (shorter : List Text)

theorem wordEndsFrom_word {w : Text} (hne : w ≠ [])
    (hw : ∀ c ∈ w, Text.isWord c = true) (ht : Text.Stops Text.isWord t) :
    wordEndsFrom shorter (w ++ t) = wordEndsFrom (t :: shorter) t := by
  induction w with
  | nil => contradiction
  | cons c w ih =>
      simp only [List.mem_cons, forall_eq_or_imp] at hw
      rw [List.cons_append, wordEndsFrom, if_pos hw.1]
      cases w with
      | nil =>
          have hhead : t.head?.any Text.isWord = false := by
            cases t with
            | nil => rfl
            | cons a t => exact ht a rfl
          rw [List.nil_append, hhead]
          rfl
      | cons a w =>
          have ha : Text.isWord a = true := hw.2 a (by simp)
          rw [List.cons_append, List.head?_cons, Option.any_some, ha]
          exact ih (by simp) hw.2

theorem wordEndsFrom_blanks {x : Text}
    (hx : ∀ c ∈ x, Text.isWord c = false ∧ Declaration.isTypeEnd c = true) :
    wordEndsFrom shorter (x ++ t) = wordEndsFrom shorter t := by
  induction x with
  | nil => rfl
  | cons c x ih =>
      simp only [List.mem_cons, forall_eq_or_imp] at hx
      rw [List.cons_append, wordEndsFrom, if_neg (by simp [hx.1.1]),
        if_pos hx.1.2]
      exact ih hx.2

theorem wordEndsFrom_stop (hword : Text.Stops Text.isWord t)
    (hend : Text.Stops Declaration.isTypeEnd t) :
    wordEndsFrom shorter t = shorter := by
  cases t with
  | nil => rfl
  | cons c t =>
      rw [wordEndsFrom, if_neg (by simp [hword c rfl]),
        if_neg (by simp [hend c rfl])]

end Bindery.Source.BodyItem

namespace Bindery.Written.MemberLine

open Source Source.BodyItem Matcher

/-! ## The rule for members -/

variable (l : MemberLine) (rest : Text)

/-- The declarators `ds` behind another one. -/
def othersText (ds : List Declarator) : Text :=
  ds.flatMap fun d => ',' :: ' ' :: d.text

/-- What follows the name of the first declarator. -/
def tailText : Text := l.first.dimsText ++ othersText l.others

theorem listed_declarators :
    listed (l.declarators.map Declarator.text) =
      ' ' :: (l.first.sigils ++ (l.first.name.text ++ l.tailText)) := by
  simp [declarators, listed_cons, Declarator.text, tailText, othersText,
    List.flatMap_map]

theorem stops_tailText {p : Char → Bool} (hopen : p '[' = false)
    (hcomma : p ',' = false) (hend : p ';' = false) :
    Text.Stops p (l.tailText ++ ';' :: rest) := by
  unfold tailText Declarator.dimsText othersText
  cases l.first.dims with
  | nil =>
      cases l.others with
      | nil => exact Text.stops_cons hend rest
      | cons d ds => exact Text.stops_cons hcomma _
  | cons n ns => exact Text.stops_cons hopen _

/-- The type may end with its own word or with the first name. -/
theorem typeWords_text :
    typeWords (l.type.text ++ ' ' :: (l.first.sigils ++
        (l.first.name.text ++ (l.tailText ++ ';' :: rest)))) =
      [l.tailText ++ ';' :: rest,
        ' ' :: (l.first.sigils ++
          (l.first.name.text ++ (l.tailText ++ ';' :: rest)))] := by
  have hblanks : ∀ c ∈ ' ' :: l.first.sigils,
      Text.isWord c = false ∧ Declaration.isTypeEnd c = true := by
    intro c hc
    rcases List.mem_cons.mp hc with rfl | hc
    · decide
    · rw [List.eq_of_mem_replicate hc]
      decide
  have hhead : (l.type.text ++ ' ' :: (l.first.sigils ++
      (l.first.name.text ++ (l.tailText ++ ';' :: rest)))).head?.any
        Text.isWord = true :=
    Text.isWord_of_isIdent l.type.head_isIdent
  have hstop := l.stops_tailText rest (p := Text.isWord) (by decide)
    (by decide) (by decide)
  rw [typeWords, if_pos hhead, wordEndsFrom_word [] l.type.text_ne_nil
    l.type.isWord (Text.stops_cons (by decide) _), ← List.cons_append,
    wordEndsFrom_blanks _ hblanks, wordEndsFrom_word _
    l.first.name.text_ne_nil l.first.name.isWord hstop,
    wordEndsFrom_stop _ hstop (l.stops_tailText rest (by decide) (by decide)
      (by decide))]

def dimension : Matcher :=
  sequence [spaces, literal "[", spaces, Matcher.run Text.isWord, spaces,
    literal "]"]

theorem prefers_dims (dims : List Digits) {t : Text}
    (hspace : Text.Stops Text.isSpace t) (hopen : t.head? ≠ some '[') :
    Prefers (repeated dimension)
      ((dims.flatMap fun n => '[' :: (n.text ++ [']'])) ++ t) t := by
  induction dims with
  | nil =>
      apply prefers_repeated_stop
      exact sequence_spaces_eq_nil hspace
        (sequence_eq_nil (literal_eq_nil rfl hopen) _)
  | cons n dims ih =>
      rw [List.flatMap_cons, List.append_assoc]
      generalize (dims.flatMap fun n => '[' :: (n.text ++ [']'])) ++ t = u
        at ih
      have htext : '[' :: (n.text ++ [']']) ++ u =
          '[' :: (n.text ++ ']' :: u) := by
        simp
      rw [htext]
      have hdigits : Text.Stops Text.isSpace (n.text ++ ']' :: u) :=
        Text.stops_cons (Text.isSpace_of_isIdent
          (Text.isIdent_of_isDigit n.head_isDigit)) _
      have hclose : Text.Stops Text.isSpace (']' :: u) :=
        Text.stops_cons (by decide) u
      have hone : Prefers dimension ('[' :: (n.text ++ ']' :: u)) u :=
        (prefers_spaces_self (Text.stops_cons (by decide) _)).cons
          ((prefers_literal ("[" : Text) _).cons
            ((prefers_spaces_self hdigits).cons
              ((prefers_run (fun c hc => Text.isWord_of_isIdent
                (n.isIdent c hc)) (Text.stops_cons (by decide) u)).cons
                ((prefers_spaces_self hclose).cons
                  ((prefers_literal ("]" : Text) u).cons
                    prefers_sequence_nil)))))
      exact hone.repeated (by simp; omega) ih

theorem isDeclaratorChar_othersText (ds : List Declarator) :
    ∀ c ∈ othersText ds, isDeclaratorChar c = true := by
  intro c hc
  simp only [othersText, List.mem_flatMap, List.mem_cons] at hc
  obtain ⟨d, _, rfl | rfl | hc⟩ := hc
  · decide
  · decide
  · apply d.all_text (by decide) (by decide) (by decide) _ c hc
    intro a ha
    simp [isDeclaratorChar, Text.isWord_of_isIdent ha]

theorem isDeclaratorEnd_othersText (ds : List Declarator) {c : Char}
    (h : c ∈ (othersText ds).getLast?) : isDeclaratorEnd c = true := by
  rcases List.eq_nil_or_concat' ds with rfl | ⟨ds, d, rfl⟩
  · contradiction
  · have htext : othersText (ds ++ [d]) =
        (othersText ds ++ [',', ' ']) ++ d.text := by
      simp [othersText]
    rw [htext, List.getLast?_append_of_ne_nil _ d.text_ne_nil] at h
    rcases d.getLast?_text h with h | rfl
    · simp [isDeclaratorEnd, Text.isWord_of_isIdent h]
    · decide

/-- The declarators after the first extend to the semicolon. -/
theorem prefers_others (ds : List Declarator) :
    Prefers (optional (sequence [spaces, literal ",", many isDeclaratorChar,
        one isDeclaratorEnd])) (othersText ds ++ ';' :: rest)
      (';' :: rest) := by
  cases hds : othersText ds with
  | nil =>
      apply prefers_optional_self
      exact sequence_spaces_eq_nil (Text.stops_cons (by decide) rest)
        (sequence_eq_nil (literal_eq_nil (a := ',') rfl (by simp)) _)
  | cons c w =>
      obtain ⟨d, ds, rfl⟩ : ∃ d ds', ds = d :: ds' := by
        apply List.exists_cons_of_ne_nil
        rintro rfl
        contradiction
      have hw : c = ',' ∧ w = ' ' :: d.text ++ othersText ds := by
        simpa [othersText, eq_comm] using hds
      obtain ⟨x, a, hx⟩ : ∃ x a, w = x ++ [a] := by
        apply (List.eq_nil_or_concat' w).resolve_left
        simp [hw.2]
      have hall := isDeclaratorChar_othersText (d :: ds)
      rw [hds, hx] at hall
      have hend : isDeclaratorEnd a = true := by
        apply isDeclaratorEnd_othersText (d :: ds)
        rw [hds, hx, ← List.cons_append, List.getLast?_concat]
        rfl
      have hmany : Prefers (sequence [many isDeclaratorChar,
          one isDeclaratorEnd]) (w ++ ';' :: rest) (';' :: rest) := by
        rw [hx, List.append_assoc, List.singleton_append]
        apply prefers_many_one
        · intro b hb
          exact hall b (by simp [hb])
        · exact ⟨hall a (by simp), hend⟩
        · decide
      rw [hw.1]
      apply Prefers.optional
      exact (prefers_spaces_self (Text.stops_cons (by decide) _)).cons
        ((prefers_literal ("," : Text) _).cons hmany)

/-- The declarators as the rule for members reads them. -/
def declaratorList : Matcher :=
  sequence [run1 isSigil, word, repeated dimension,
    optional (sequence [spaces, literal ",", many isDeclaratorChar,
      one isDeclaratorEnd])]

theorem prefers_declaratorList :
    Prefers declaratorList
      (listed (l.declarators.map Declarator.text) ++ ';' :: rest)
      (';' :: rest) := by
  have htext : listed (l.declarators.map Declarator.text) ++ ';' :: rest =
      (' ' :: l.first.sigils) ++ (l.first.name.text ++
        (l.first.dimsText ++ (othersText l.others ++ ';' :: rest))) := by
    simp [listed_declarators, tailText]
  have hsigils : ∀ c ∈ ' ' :: l.first.sigils, isSigil c = true := by
    intro c hc
    rcases List.mem_cons.mp hc with rfl | hc
    · decide
    · rw [List.eq_of_mem_replicate hc]
      decide
  have hname (c : Char) (hc : Text.isIdent c = true) : isSigil c = false := by
    simp only [isSigil, Bool.or_eq_false_iff, beq_eq_false_iff_ne]
    exact ⟨⟨Text.isSpace_of_isIdent hc, Text.ne_of_isIdent hc (by decide)⟩,
      Text.ne_of_isIdent hc (by decide)⟩
  have hstop := l.stops_tailText rest (p := Text.isWord) (by decide)
    (by decide) (by decide)
  rw [tailText, List.append_assoc] at hstop
  obtain ⟨c, u, hu, hspace, hopen⟩ : ∃ c u,
      othersText l.others ++ ';' :: rest = c :: u ∧
        Text.isSpace c = false ∧ c ≠ '[' := by
    unfold othersText
    cases l.others with
    | nil => exact ⟨';', rest, rfl, by decide⟩
    | cons d ds => exact ⟨',', _, rfl, by decide⟩
  have hdims : Prefers (repeated dimension)
      (l.first.dimsText ++ (othersText l.others ++ ';' :: rest))
      (othersText l.others ++ ';' :: rest) := by
    apply prefers_dims
    · rw [hu]
      exact Text.stops_cons hspace u
    · simpa [hu] using hopen
  rw [htext]
  exact (prefers_run1 (by simp) hsigils (l.first.name.stops hname _)).cons
    ((prefers_word l.first.name hstop).cons
      (hdims.cons ((prefers_others rest l.others).cons prefers_sequence_nil)))

/-- A written line of members is read back. -/
theorem variablesRule_text :
    variablesRule.first? (l.text ++ rest) =
      some (.variables l.type.text
        (listed (l.declarators.map Declarator.text)), rest) := by
  have htext : l.text ++ rest = l.type.text ++
      (listed (l.declarators.map Declarator.text) ++ ';' :: rest) := by
    simp [text]
  have hwords : typeWords (l.text ++ rest) =
      [l.tailText ++ ';' :: rest,
        listed (l.declarators.map Declarator.text) ++ ';' :: rest] := by
    have h := l.typeWords_text rest
    rw [htext, listed_declarators]
    simpa using h
  have hrefused : declaratorList (l.tailText ++ ';' :: rest) = [] :=
    sequence_eq_nil (run1_eq_nil
      (l.stops_tailText rest (by decide) (by decide) (by decide))) _
  have htype : Text.trim l.type.text = l.type.text :=
    Text.trim_eq_self l.type.notSpace
  unfold Rule.first? variablesRule
  simp only [Rule.run_bind]
  -- The longer type takes the first name too, which leaves no declarator.
  rw [Rule.run_capture_second hwords (Rule.run_capture_of_eq_nil hrefused)]
  apply Rule.run_capture_of_prefers (l.prefers_declaratorList rest)
  apply Rule.run_skip_of_prefers (prefers_semicolon rest)
  rw [Rule.run_pure, Span.text_append, htext, Span.text_append, htype]

end Bindery.Written.MemberLine

/-! ## Declarators -/

namespace Bindery

namespace Written.Declarator

open Source

theorem notSpace_text (d : Declarator) :
    ∀ c ∈ d.text, Text.isSpace c = false := by
  intro c hc
  rcases d.mem_text hc with rfl | rfl | rfl | hc
  · decide
  · decide
  · decide
  · exact Text.isSpace_of_isIdent hc

/-- A written declarator is taken apart into its stars, its name and its
dimensions. -/
theorem parse?_text (d : Declarator) :
    Source.Declarator.parse? (' ' :: d.text) =
      some ⟨d.sigils, d.name.text, d.dims.map Digits.text⟩ := by
  have hdims : Text.concat (dimTokens (d.dims.map Digits.text)) =
      d.dimsText := by
    rw [concat_dimTokens, List.flatMap_map]
    rfl
  apply Source.Declarator.parse?_of_spaced
  · refine ⟨fun c hc => .inl (List.eq_of_mem_replicate hc), ⟨d.name, rfl⟩, ?_⟩
    intro dim hdim
    obtain ⟨n, _, rfl⟩ := List.mem_map.mp hdim
    refine ⟨Text.trim_eq_self fun c hc =>
      Text.isSpace_of_isIdent (n.isIdent c hc), ?_, ?_⟩
    · exact fun hmem => absurd (n.isIdent '[' hmem) (by decide)
    · exact fun hmem => absurd (n.isIdent ']' hmem) (by decide)
  · rw [text, ← hdims, ← Source.Declarator.concat_tokens
      ⟨d.sigils, d.name.text, d.dims.map Digits.text⟩]
    exact (Text.spaced_concat _).blank_cons

end Written.Declarator

end Bindery
