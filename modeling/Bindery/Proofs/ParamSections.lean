import Bindery.Proofs.ListPieces
import Bindery.Source.Documentation

/-!
# Sections of a function's documentation

An `@` begins a section.  Sections about parameters are taken out of the
documentation, and the others stay as they are.  A section counts as one about
a parameter if the five letters of `param` begin it and a word follows, with
white space between the two or without: so a tag that only begins with these
letters is taken for a parameter as well, and its section is lost.
-/

namespace Bindery

namespace Text

/-- White space and then a dash stand in front of `said`. -/
def Dashed (t said : Text) : Prop :=
  ∃ blanks, (∀ c ∈ blanks, isSpace c = true) ∧ t = blanks ++ '-' :: said

theorem after?_dash_iff {t said : Text} :
    after? "-" (trimStart t) = some said ↔ Dashed t said := by
  rw [after?_eq_some_iff]
  constructor
  · intro hstart
    obtain ⟨blanks, hblanks, hsplit⟩ := takes_dropWhile isSpace t
    exact ⟨blanks, hblanks, hsplit.trans (congrArg (blanks ++ ·) hstart)⟩
  · rintro ⟨blanks, hblanks, rfl⟩
    exact (trimStart_append hblanks _).trans (trimStart_cons (by decide) said)

theorem count_trim {a : Char} (ha : isSpace a = false) (t : Text) :
    (trim t).count a = t.count a := by
  obtain ⟨blanks, blanks', hblanks, hblanks', hsplit⟩ := trim_split t
  have hcount {x : Text} (hx : ∀ c ∈ x, isSpace c = true) :
      x.count a = 0 := by
    rw [List.count_eq_zero]
    intro hmem
    rw [hx a hmem] at ha
    contradiction
  conv_rhs => rw [hsplit]
  rw [List.count_append, List.count_append, hcount hblanks, hcount hblanks']
  omega

end Text

namespace Source

/-! ## Sections -/

/-- A text and its sections; each follows its `@`. -/
structure Sectioned (t first : Text) (sections : List Text) : Prop where
  text_eq : t = first ++ sections.flatMap ('@' :: ·)
  first_clean : '@' ∉ first
  sections_clean : ∀ s ∈ sections, '@' ∉ s

theorem join_at (first : Text) (sections : List Text) :
    Text.join "@" (first :: sections) =
      first ++ sections.flatMap ('@' :: ·) := by
  induction sections generalizing first with
  | nil => simp [Text.join]
  | cons s sections ih =>
      have hjoin : Text.join "@" (first :: s :: sections) =
          first ++ ['@'] ++ Text.join "@" (s :: sections) :=
        List.intercalate_cons_cons
      rw [hjoin, ih, List.flatMap_cons, List.append_assoc]
      rfl

theorem sectioned_iff {t first : Text} {sections : List Text} :
    Sectioned t first sections ↔ t.splitOn '@' = first :: sections := by
  constructor
  · rintro ⟨rfl, hfirst, hsections⟩
    rw [← join_at]
    exact List.splitOn_intercalate '@'
      (List.forall_mem_cons.mpr ⟨hfirst, hsections⟩) (List.cons_ne_nil _ _)
  · intro hsplit
    have hclean : ∀ s ∈ first :: sections, '@' ∉ s := by
      intro s hs hmem
      rw [← hsplit] at hs
      have hnot := Text.not_of_mem_splitOnP hs '@' hmem
      contradiction
    rw [List.forall_mem_cons] at hclean
    refine ⟨?_, hclean.1, hclean.2⟩
    rw [← join_at, ← hsplit]
    exact (List.intercalate_splitOn '@').symm

theorem exists_sectioned (t : Text) :
    ∃ first sections, Sectioned t first sections := by
  obtain ⟨first, sections, hsplit⟩ :=
    List.exists_cons_of_ne_nil (List.splitOnP_ne_nil (· == '@') t)
  exact ⟨first, sections, sectioned_iff.mpr hsplit⟩

theorem Sectioned.unique {t first first' : Text}
    {sections sections' : List Text} (h : Sectioned t first sections)
    (h' : Sectioned t first' sections') :
    first = first' ∧ sections = sections' :=
  List.cons.inj ((sectioned_iff.mp h).symm.trans (sectioned_iff.mp h'))

theorem count_at {first : Text} (hfirst : '@' ∉ first)
    {sections : List Text} (h : ∀ s ∈ sections, '@' ∉ s) :
    (first ++ sections.flatMap ('@' :: ·)).count '@' = sections.length := by
  induction sections with
  | nil => simp [List.count_eq_zero.mpr hfirst]
  | cons s sections ih =>
      rw [List.forall_mem_cons] at h
      have hcount := ih h.2
      rw [List.count_append] at hcount ⊢
      rw [List.flatMap_cons, List.count_append, List.count_cons_self,
        List.count_eq_zero.mpr h.1, List.length_cons]
      omega

/-! ## Sections about parameters -/

/-- `param`, a gap, a word, and what follows the word. -/
structure ParamSection where
  gap : Text
  word : Text
  rest : Text
  gap_isSpace : ∀ c ∈ gap, Text.isSpace c = true
  word_ne_nil : word ≠ []
  word_isIdent : ∀ c ∈ word, Text.isIdent c = true
  rest_stops : Text.Stops Text.isIdent rest

namespace ParamSection

def text (p : ParamSection) : Text := "param" ++ (p.gap ++ (p.word ++ p.rest))

/-- What the section says about the parameter: a dash may stand behind the
name. -/
def Says (p : ParamSection) (said : Text) : Prop :=
  (∃ u, Text.Dashed p.rest u ∧ said = Text.trim u) ∨
    (¬ ∃ u, Text.Dashed p.rest u) ∧ said = Text.trim p.rest

/-- The tag is the word `param`, and what follows is an identifier. -/
def IsProper (p : ParamSection) : Prop :=
  p.gap ≠ [] ∧ ∃ i : Identifier, i.text = p.word

theorem says_iff (p : ParamSection) {said : Text} :
    p.Says said ↔ said = Text.trim
      ((Text.after? "-" (Text.trimStart p.rest)).getD
        (Text.trimStart p.rest)) := by
  unfold Says
  simp only [← Text.after?_dash_iff]
  cases Text.after? "-" (Text.trimStart p.rest) with
  | some u => simp
  | none =>
      have htrim : Text.trim (Text.trimStart p.rest) = Text.trim p.rest := by
        obtain ⟨blanks, hblanks, hsplit⟩ :=
          Text.takes_dropWhile Text.isSpace p.rest
        conv_rhs => rw [hsplit, Text.trim_spaces_append hblanks]
        rfl
      simp [htrim]

theorem trimStart_word (p : ParamSection) :
    Text.trimStart (p.gap ++ (p.word ++ p.rest)) = p.word ++ p.rest := by
  obtain ⟨c, word, hword⟩ := List.exists_cons_of_ne_nil p.word_ne_nil
  have hc := p.word_isIdent c (hword ▸ List.mem_cons_self)
  rw [Text.trimStart_append p.gap_isSpace, hword]
  exact Text.trimStart_cons (Text.isSpace_of_isIdent hc) _

theorem takeWhile_word (p : ParamSection) :
    (p.word ++ p.rest).takeWhile Text.isIdent = p.word ∧
      (p.word ++ p.rest).dropWhile Text.isIdent = p.rest := by
  have hdrop := p.rest_stops.dropWhile_append p.word_isIdent
  have hsplit := List.takeWhile_append_dropWhile (p := Text.isIdent)
    (l := p.word ++ p.rest)
  rw [hdrop] at hsplit
  exact ⟨List.append_cancel_right hsplit, hdrop⟩

theorem text_injective {p q : ParamSection} (h : p.text = q.text) : p = q := by
  have hrest := List.append_cancel_left h
  have hstart := congrArg Text.trimStart hrest
  rw [p.trimStart_word, q.trimStart_word] at hstart
  have hword := congrArg (List.takeWhile Text.isIdent) hstart
  rw [p.takeWhile_word.1, q.takeWhile_word.1] at hword
  have hbehind := congrArg (List.dropWhile Text.isIdent) hstart
  rw [p.takeWhile_word.2, q.takeWhile_word.2] at hbehind
  rw [hword, hbehind] at hrest
  have hgap := List.append_cancel_right hrest
  cases p
  cases q
  simp only [mk.injEq]
  exact ⟨hgap, hword, hbehind⟩

end ParamSection

/-- The section is one of those about a parameter, and says this about it. -/
def Documents (P : ParamSection → Prop) (s name said : Text) : Prop :=
  ∃ p : ParamSection, P p ∧ p.text = s ∧ p.word = name ∧ p.Says said

theorem paramSection?_eq_some_iff {s name said : Text} :
    paramSection? s = some (name, said) ↔
      Documents (fun _ => True) s name said := by
  simp only [paramSection?, Option.bind_eq_bind, Option.bind_eq_some_iff,
    Text.after?_eq_some_iff, Option.ite_none_left_eq_some, Option.pure_def,
    Option.some.injEq, Prod.mk.injEq]
  constructor
  · rintro ⟨behind, rfl, hne, rfl, rfl⟩
    obtain ⟨gap, hgap, hbehind⟩ := Text.takes_dropWhile Text.isSpace behind
    let p : ParamSection :=
      { gap
        word := (Text.trimStart behind).takeWhile Text.isIdent
        rest := (Text.trimStart behind).dropWhile Text.isIdent
        gap_isSpace := hgap
        word_ne_nil := by simpa using hne
        word_isIdent := fun _ hc => List.mem_takeWhile_imp hc
        rest_stops := Text.stops_dropWhile Text.isIdent _ }
    refine ⟨p, trivial, ?_, rfl, p.says_iff.mpr rfl⟩
    change "param".toList ++ (gap ++ _) = _
    rw [List.takeWhile_append_dropWhile]
    exact congrArg ("param".toList ++ ·) hbehind.symm
  · rintro ⟨p, -, rfl, rfl, hsays⟩
    refine ⟨p.gap ++ (p.word ++ p.rest), rfl, ?_⟩
    rw [p.trimStart_word, p.takeWhile_word.1, p.takeWhile_word.2]
    exact ⟨by simpa using p.word_ne_nil, rfl, (p.says_iff.mp hsays).symm⟩

/-! ## Sorting the sections -/

section Sorting

variable {documents documents' : Text → Text → Text → Prop}

/-- Sections that document a parameter are taken out with what they say, and
the others are kept in their order. -/
inductive Sorts (documents : Text → Text → Text → Prop) :
    List Text → List Text → List (Text × Text) → Prop
  | nil : Sorts documents [] [] []
  | kept {s : Text} {sections kept : List Text} {params : List (Text × Text)}
      (hs : ¬ ∃ name said, documents s name said)
      (h : Sorts documents sections kept params) :
      Sorts documents (s :: sections) (s :: kept) params
  | taken {s name said : Text} {sections kept : List Text}
      {params : List (Text × Text)} (hs : documents s name said)
      (h : Sorts documents sections kept params) :
      Sorts documents (s :: sections) kept ((name, said) :: params)

theorem Sorts.sublist {sections kept : List Text} {params : List (Text × Text)}
    (h : Sorts documents sections kept params) : kept.Sublist sections := by
  induction h with
  | nil => exact List.Sublist.slnil
  | kept _ _ ih => exact ih.cons_cons _
  | taken _ _ ih => exact ih.cons _

theorem Sorts.congr {sections kept : List Text} {params : List (Text × Text)}
    (hsame : ∀ s ∈ sections, ∀ name said,
      documents s name said ↔ documents' s name said)
    (h : Sorts documents sections kept params) :
    Sorts documents' sections kept params := by
  induction h with
  | nil => exact .nil
  | kept hs _ ih =>
      rw [List.forall_mem_cons] at hsame
      exact .kept (by simpa only [hsame.1] using hs) (ih hsame.2)
  | taken hs _ ih =>
      rw [List.forall_mem_cons] at hsame
      exact .taken ((hsame.1 _ _).mp hs) (ih hsame.2)

/-- Who takes out more sections keeps fewer of them. -/
theorem Sorts.length_le
    (hmore : ∀ s name said, documents' s name said → documents s name said)
    {sections kept kept' : List Text} {params params' : List (Text × Text)}
    (h : Sorts documents sections kept params)
    (h' : Sorts documents' sections kept' params') :
    kept.length ≤ kept'.length ∧
      (kept.length = kept'.length → ∀ s ∈ sections,
        (∃ name said, documents s name said) →
          ∃ name said, documents' s name said) := by
  induction h generalizing kept' params' with
  | nil =>
      cases h'
      exact ⟨Nat.le_refl _, fun _ => List.forall_mem_nil _⟩
  | kept hs _ ih =>
      cases h' with
      | kept hs' h' =>
          obtain ⟨hle, hsame⟩ := ih h'
          refine ⟨Nat.succ_le_succ hle, fun hlength => ?_⟩
          rw [List.forall_mem_cons]
          exact ⟨fun hdoc => absurd hdoc hs, hsame (Nat.succ.inj hlength)⟩
      | taken hs' h' => exact absurd ⟨_, _, hmore _ _ _ hs'⟩ hs
  | taken hs _ ih =>
      cases h' with
      | kept hs' h' =>
          obtain ⟨hle, _⟩ := ih h'
          refine ⟨Nat.le_succ_of_le hle, fun hlength => ?_⟩
          rw [List.length_cons] at hlength
          omega
      | taken hs' h' =>
          obtain ⟨hle, hsame⟩ := ih h'
          refine ⟨hle, fun hlength => ?_⟩
          rw [List.forall_mem_cons]
          exact ⟨fun _ => ⟨_, _, hs'⟩, hsame hlength⟩

/-- The description consists of the text in front of all sections and of those
that document no parameter; for each parameter the last section counts. -/
def Extracts (documents : Text → Text → Text → Prop) (t : Text)
    (d : Description) : Prop :=
  ∃ first sections kept params,
    Sectioned t first sections ∧ Sorts documents sections kept params ∧
    d.general = Text.trim (first ++ kept.flatMap ('@' :: ·)) ∧
    ∀ name, d.params.lookup name = params.reverse.lookup name

/-- The general part of a description shows how many sections were kept. -/
theorem Sorts.count_general {t first : Text} {sections kept : List Text}
    {params : List (Text × Text)} (hsections : Sectioned t first sections)
    (h : Sorts documents sections kept params) :
    (Text.trim (first ++ kept.flatMap ('@' :: ·))).count '@' =
      kept.length := by
  rw [Text.count_trim (by decide)]
  exact count_at hsections.first_clean fun s hs =>
    hsections.sections_clean s (h.sublist.subset hs)

end Sorting

theorem sorts_paramSection? (sections : List Text) :
    Sorts (Documents fun _ => True) sections
      (sections.filter (paramSection? · |>.isNone))
      (sections.filterMap paramSection?) := by
  induction sections with
  | nil => exact .nil
  | cons s sections ih =>
      cases hs : paramSection? s with
      | none =>
          rw [List.filter_cons_of_pos (by simp [hs]),
            List.filterMap_cons_none hs]
          refine .kept ?_ ih
          rintro ⟨name, said, hdoc⟩
          rw [paramSection?_eq_some_iff.mpr hdoc] at hs
          contradiction
      | some param =>
          rw [List.filter_cons_of_neg (by simp [hs]),
            List.filterMap_cons_some hs]
          exact .taken (paramSection?_eq_some_iff.mp hs) ih

theorem Description.extracts_ofText (t : Text) :
    Extracts (Documents fun _ => True) t (Description.ofText t) := by
  obtain ⟨first, sections, hsections⟩ := exists_sectioned t
  refine ⟨first, sections, _, _, hsections, sorts_paramSection? sections, ?_⟩
  simp only [ofText, sectioned_iff.mp hsections, join_at, implies_true,
    and_self]

/-- If exactly the proper sections are taken out, then no other section begins
like one of them: it would be missing among those that are kept. -/
theorem isProper_of_extracts {t : Text}
    (h : Extracts (Documents ParamSection.IsProper) t (Description.ofText t))
    {first : Text} {sections : List Text}
    (hsections : Sectioned t first sections) {p : ParamSection}
    (hp : p.text ∈ sections) : p.IsProper := by
  obtain ⟨_, _, kept, params, hloose, hsorts, hgeneral, _⟩ :=
    Description.extracts_ofText t
  obtain ⟨rfl, rfl⟩ := hloose.unique hsections
  obtain ⟨_, _, kept', params', hstrict, hsorts', hgeneral', _⟩ := h
  obtain ⟨rfl, rfl⟩ := hstrict.unique hsections
  have hlength : kept.length = kept'.length := by
    rw [← hsorts.count_general hsections, ← hsorts'.count_general hsections,
      ← hgeneral, ← hgeneral']
  have hmore : ∀ s name said, Documents ParamSection.IsProper s name said →
      Documents (fun _ => True) s name said := by
    rintro s name said ⟨q, _, hdoc⟩
    exact ⟨q, trivial, hdoc⟩
  obtain ⟨_, _, q, hproper, hq, _⟩ :=
    (hsorts.length_le hmore hsorts').2 hlength p.text hp
      ⟨p.word, _, p, trivial, rfl, rfl, p.says_iff.mpr rfl⟩
  exact ParamSection.text_injective hq ▸ hproper

/-- Every section that begins with `param` and a word is taken out, and the
others are kept.  The sections taken out are those about parameters if and only
if behind each such `param` there is white space and then an identifier. -/
theorem param_sections_extracted_iff (t : Text) :
    Extracts (Documents fun _ => True) t (Description.ofText t) ∧
    (Extracts (Documents ParamSection.IsProper) t (Description.ofText t) ↔
      ∀ first sections, Sectioned t first sections →
        ∀ p : ParamSection, p.text ∈ sections → p.IsProper) := by
  refine ⟨Description.extracts_ofText t, ?_, ?_⟩
  · intro h first sections hsections p hp
    exact isProper_of_extracts h hsections hp
  · intro hproper
    obtain ⟨first, sections, kept, params, hsections, hsorts, hd⟩ :=
      Description.extracts_ofText t
    refine ⟨first, sections, kept, params, hsections, hsorts.congr ?_, hd⟩
    intro s hs name said
    constructor
    · rintro ⟨p, -, rfl, hdoc⟩
      exact ⟨p, hproper first sections hsections p hs, rfl, hdoc⟩
    · rintro ⟨p, _, hdoc⟩
      exact ⟨p, trivial, hdoc⟩

/-- Of two sections about one parameter the last counts, and a mail address is
kept with what precedes it. -/
example :
    Description.ofText
        "Opens it (a@b.c)\n@param x first\n@note n\n@param\tx - second" =
      ⟨"Opens it (a@b.c)\n@note n", [("x", "second"), ("x", "first")]⟩ := by
  decide +kernel

/-- A section with another tag, which begins with the same letters, is taken
for one about a parameter. -/
theorem param_sections_lose_other_tag :
    let t : Text := "Turns the layer\n@parameters are in degrees"
    Description.ofText t =
        ⟨"Turns the layer", [("eters", "are in degrees")]⟩ ∧
      ¬ Extracts (Documents ParamSection.IsProper) t
        (Description.ofText t) := by
  intro t
  refine ⟨by decide +kernel, fun h => ?_⟩
  let p : ParamSection :=
    { gap := [], word := "eters", rest := " are in degrees"
      gap_isSpace := List.forall_mem_nil _
      word_ne_nil := by decide
      word_isIdent := List.all_eq_true.mp (by decide)
      rest_stops := Text.stops_cons (by decide) _ }
  have hsections : Sectioned t "Turns the layer\n" [p.text] :=
    sectioned_iff.mpr (by decide +kernel)
  exact (isProper_of_extracts h hsections List.mem_cons_self).1 rfl

end Source

end Bindery
