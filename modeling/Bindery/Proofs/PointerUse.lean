import Bindery.Binding.Context
import Bindery.Proofs.Boundaries

/-!
# Types that functions take through pointers

A type is read as a list of tokens: words of identifier characters, and other
characters one by one, with white space left out.  `Tokenized` says which texts
have which tokens, so that what is recorded from tokens can be told from the
text of a type: a name is used through a pointer where it stands as a word of
its own with a star behind it, white space and one `const` apart.

Such a name is recorded if it begins with a letter.  A name that begins with
an underscore is an identifier like any other, but it is passed over, and its
struct may be taken for a value although functions take it through a pointer.
-/

namespace Bindery

/-! ## Texts between which no word runs across -/

namespace Text

/-- No word runs from `a` into `b`. -/
def Apart (a b : Text) : Prop :=
  ∀ x ∈ a.getLast?, ∀ y ∈ b.head?, isIdent x = false ∨ isIdent y = false

theorem apart_nil (b : Text) : Apart [] b := by
  simp [Apart]

theorem apart_singleton {c : Char} (h : isIdent c = false) (b : Text) :
    Apart [c] b := by
  simp [Apart, h]

theorem Stops.of_append {p : Char → Bool} {a b : Text}
    (h : Stops p (a ++ b)) : Stops p a := by
  intro c hc
  apply h c
  rw [List.head?_append, Option.mem_def.mp hc]
  rfl

theorem Stops.apart {b : Text} (h : Stops isIdent b) (a : Text) : Apart a b :=
  fun _ _ y hy => .inr (h y hy)

namespace Apart

variable {a b : Text}

theorem of_append (lead : Text) (h : Apart (lead ++ a) b) : Apart a b := by
  intro x hx
  apply h x
  rw [List.getLast?_append, Option.mem_def.mp hx]
  rfl

theorem append_left (h : Apart a b) {lead : Text}
    (hlead : Apart lead (a ++ b)) : Apart (lead ++ a) b := by
  cases a with
  | nil =>
      rw [List.append_nil]
      exact hlead
  | cons c a =>
      rw [Apart, List.getLast?_append_of_ne_nil _ (List.cons_ne_nil c a)]
      exact h

/-- What stands apart from a word does not continue it. -/
theorem stops (h : Apart a b) (hne : a ≠ [])
    (ha : ∀ c ∈ a, isIdent c = true) : Stops isIdent b := by
  obtain ⟨x, hx⟩ : ∃ x, a.getLast? = some x :=
    ⟨_, List.getLast?_eq_some_getLast hne⟩
  intro y hy
  rcases h x hx y hy with hx' | hy'
  · rw [ha x (List.mem_of_getLast? hx)] at hx'
    contradiction
  · exact hy'

end Apart

end Text

/-! ## Tokens of a type -/

/-- The text consists of these tokens, with white space between them. -/
inductive Tokenized : Text → List Text → Prop
  | nil : Tokenized [] []
  | space {c : Char} {t : Text} {tokens : List Text}
    (hc : Text.isSpace c = true) (h : Tokenized t tokens) :
    Tokenized (c :: t) tokens
  | sign {c : Char} {t : Text} {tokens : List Text}
    (hc : Text.isIdent c = false) (hspace : Text.isSpace c = false)
    (h : Tokenized t tokens) : Tokenized (c :: t) ([c] :: tokens)
  | word {w t : Text} {tokens : List Text} (hne : w ≠ [])
    (hw : ∀ c ∈ w, Text.isIdent c = true) (hstops : Text.Stops Text.isIdent t)
    (h : Tokenized t tokens) : Tokenized (w ++ t) (w :: tokens)

/-- What has been read of a word stands in front of the rest of the text. -/
theorem tokenized_typeTokensFrom (read t : Text)
    (hread : ∀ c ∈ read, Text.isIdent c = true) :
    Tokenized (read.reverse ++ t) (typeTokensFrom read t) := by
  have hreverse : ∀ c ∈ read.reverse, Text.isIdent c = true :=
    fun c hc => hread c (List.mem_reverse.mp hc)
  induction t generalizing read with
  | nil =>
      rw [typeTokensFrom]
      cases read with
      | nil => exact .nil
      | cons c read =>
          exact .word (by simp) hreverse (by simp [Text.Stops]) .nil
  | cons c t ih =>
      rw [typeTokensFrom]
      by_cases hc : Text.isIdent c = true
      · rw [if_pos hc]
        have hread' : ∀ a ∈ c :: read, Text.isIdent a = true :=
          List.forall_mem_cons.mpr ⟨hc, hread⟩
        have h := ih (c :: read) hread'
          fun a ha => hread' a (List.mem_reverse.mp ha)
        rwa [List.reverse_cons, List.append_assoc] at h
      · rw [if_neg hc]
        rw [Bool.not_eq_true] at hc
        have hrest : Tokenized (c :: t)
            ((if Text.isSpace c then [] else [[c]]) ++
              typeTokensFrom [] t) := by
          have h := ih [] (by simp) (by simp)
          cases hspace : Text.isSpace c with
          | true => exact .space hspace h
          | false => exact .sign hc hspace h
        rw [List.append_assoc]
        cases read with
        | nil => exact hrest
        | cons a read =>
            exact .word (by simp) hreverse (Text.stops_cons hc t) hrest

theorem tokenized_typeTokens (t : Text) : Tokenized t (typeTokens t) :=
  tokenized_typeTokensFrom [] t (by simp)

theorem typeTokensFrom_append {w : Text} (hw : ∀ c ∈ w, Text.isIdent c = true)
    (read t : Text) :
    typeTokensFrom read (w ++ t) = typeTokensFrom (w.reverse ++ read) t := by
  induction w generalizing read with
  | nil => rfl
  | cons c w ih =>
      obtain ⟨hc, hw⟩ := List.forall_mem_cons.mp hw
      rw [List.cons_append, typeTokensFrom, if_pos hc, ih hw]
      simp

theorem typeTokensFrom_of_stops {t : Text} (h : Text.Stops Text.isIdent t)
    {read : Text} (hread : read ≠ []) :
    typeTokensFrom read t = read.reverse :: typeTokens t := by
  have hempty : read.isEmpty = false := by simpa using hread
  cases t with
  | nil =>
      rw [typeTokensFrom, hempty]
      rfl
  | cons c t =>
      have hc : Text.isIdent c = false := h c rfl
      rw [typeTokens, typeTokensFrom, typeTokensFrom, hc, hempty]
      rfl

namespace Tokenized

variable {t : Text} {tokens : List Text}

theorem typeTokens_eq (h : Tokenized t tokens) : typeTokens t = tokens := by
  induction h with
  | nil => rfl
  | space hc _ ih =>
      rw [typeTokens, typeTokensFrom, Text.isIdent_of_isSpace hc, hc]
      exact ih
  | sign hc hspace _ ih =>
      rw [typeTokens, typeTokensFrom, hc, hspace, ← ih]
      rfl
  | @word w t tokens hne hw hstops _ ih =>
      rw [typeTokens, typeTokensFrom_append hw,
        typeTokensFrom_of_stops hstops (by simpa using hne), ih]
      simp

theorem of_blank {blanks : Text}
    (h : ∀ c ∈ blanks, Text.isSpace c = true) : Tokenized blanks [] := by
  induction blanks with
  | nil => exact .nil
  | cons c blanks ih =>
      obtain ⟨hc, hblanks⟩ := List.forall_mem_cons.mp h
      exact .space hc (ih hblanks)

theorem blank (h : Tokenized t []) : ∀ c ∈ t, Text.isSpace c = true := by
  generalize hnone : ([] : List Text) = tokens at h
  induction h with
  | nil => simp
  | space hc _ ih => exact List.forall_mem_cons.mpr ⟨hc, ih hnone⟩
  | sign => contradiction
  | word => contradiction

/-- Texts are put together where no word runs across. -/
theorem append {a b : Text} {front back : List Text} (ha : Tokenized a front)
    (hb : Tokenized b back) (happart : Text.Apart a b) :
    Tokenized (a ++ b) (front ++ back) := by
  induction ha with
  | nil => exact hb
  | space hc _ ih => exact .space hc (ih (happart.of_append [_]))
  | sign hc hspace _ ih => exact .sign hc hspace (ih (happart.of_append [_]))
  | @word w t tokens hne hw hstops _ ih =>
      have hstops' : Text.Stops Text.isIdent (t ++ b) := by
        cases t with
        | nil =>
            rw [List.append_nil] at happart
            exact happart.stops hne hw
        | cons c t => exact Text.stops_cons (hstops c rfl) _
      rw [List.append_assoc]
      exact .word hne hw hstops' (ih (happart.of_append w))

/-- Every token stands in the text, with the tokens before it on one side and
those behind it on the other. -/
theorem split {front back : List Text} {token : Text}
    (h : Tokenized t (front ++ token :: back)) :
    ∃ a b, t = a ++ (token ++ b) ∧ Tokenized a front ∧ Tokenized b back ∧
      Text.Apart a token ∧ Text.Apart token b := by
  generalize htokens : front ++ token :: back = tokens at h
  induction h generalizing front with
  | nil => simp at htokens
  | @space c t tokens hc h ih =>
      obtain ⟨a, b, rfl, ha, hb, happart, happart'⟩ := ih htokens
      refine ⟨c :: a, b, rfl, .space hc ha, hb, ?_, happart'⟩
      exact happart.append_left
        (Text.apart_singleton (Text.isIdent_of_isSpace hc) _)
  | @sign c t tokens hc hspace h ih =>
      cases front with
      | nil =>
          obtain ⟨rfl, rfl⟩ := List.cons.inj htokens
          exact ⟨[], t, rfl, .nil, h, Text.apart_nil _,
            Text.apart_singleton hc t⟩
      | cons first front =>
          obtain ⟨rfl, hothers⟩ := List.cons.inj htokens
          obtain ⟨a, b, rfl, ha, hb, happart, happart'⟩ := ih hothers
          exact ⟨c :: a, b, rfl, .sign hc hspace ha, hb,
            happart.append_left (Text.apart_singleton hc _), happart'⟩
  | @word w t tokens hne hw hstops h ih =>
      cases front with
      | nil =>
          obtain ⟨rfl, rfl⟩ := List.cons.inj htokens
          exact ⟨[], t, rfl, .nil, h, Text.apart_nil _, hstops.apart _⟩
      | cons first front =>
          obtain ⟨rfl, hothers⟩ := List.cons.inj htokens
          obtain ⟨a, b, rfl, ha, hb, happart, happart'⟩ := ih hothers
          have hstops' : Text.Stops Text.isIdent (a ++ token) := by
            rw [← List.append_assoc] at hstops
            exact hstops.of_append
          exact ⟨first ++ a, b, by simp, .word hne hw hstops'.of_append ha, hb,
            happart.append_left (hstops'.apart first), happart'⟩

end Tokenized

/-! ## Names in front of stars -/

/-- White space, with one `const` in it or without. -/
def IsGap (gap : Text) : Prop :=
  (∀ c ∈ gap, Text.isSpace c = true) ∨
    ∃ blanks blanks' : Text, gap = blanks ++ ("const" ++ blanks') ∧
      blanks ≠ [] ∧ (∀ c ∈ blanks, Text.isSpace c = true) ∧
      ∀ c ∈ blanks', Text.isSpace c = true

/-- The name stands in the type as a word of its own, and a star follows it,
white space and one `const` apart. -/
def PointsAt (type name : Text) : Prop :=
  ∃ before gap after : Text, type = before ++ (name ++ (gap ++ '*' :: after)) ∧
    (∀ c ∈ before.getLast?, Text.isIdent c = false) ∧ IsGap gap

/-- The tokens between a name and its star. -/
def IsGapTokens (marks : List Text) : Prop :=
  marks = [] ∨ marks = [("const" : Text)]

theorem IsGapTokens.reverse_eq {marks : List Text} (h : IsGapTokens marks) :
    marks.reverse = marks := by
  rcases h with rfl | rfl
  · rfl
  · rfl

theorem stops_blanks_star {blanks : Text}
    (h : ∀ c ∈ blanks, Text.isSpace c = true) (after : Text) :
    Text.Stops Text.isIdent (blanks ++ '*' :: after) := by
  cases blanks with
  | nil => exact Text.stops_cons (by decide) after
  | cons c blanks =>
      exact Text.stops_cons (Text.isIdent_of_isSpace (h c List.mem_cons_self)) _

theorem IsGap.tokenized {gap : Text} (h : IsGap gap) (after : Text) :
    Text.Stops Text.isIdent (gap ++ '*' :: after) ∧
      ∃ marks, IsGapTokens marks ∧ Tokenized (gap ++ '*' :: after)
        (marks ++ ['*'] :: typeTokens after) := by
  have hstar : Tokenized ('*' :: after) (['*'] :: typeTokens after) :=
    .sign (by decide) (by decide) (tokenized_typeTokens after)
  have hblank {blanks : Text} (hblanks : ∀ c ∈ blanks, Text.isSpace c = true) :
      Tokenized (blanks ++ '*' :: after) (['*'] :: typeTokens after) :=
    (Tokenized.of_blank hblanks).append hstar
      ((Text.stops_cons (by decide) after).apart blanks)
  rcases h with hblanks | ⟨blanks, blanks', rfl, hne, hblanks, hblanks'⟩
  · exact ⟨stops_blanks_star hblanks after, [], .inl rfl, hblank hblanks⟩
  · obtain ⟨c, blanks, rfl⟩ := List.exists_cons_of_ne_nil hne
    have hc := Text.isIdent_of_isSpace (hblanks c List.mem_cons_self)
    have hconst : Tokenized (("const" : Text) ++ (blanks' ++ '*' :: after))
        (("const" : Text) :: ['*'] :: typeTokens after) :=
      .word (by decide) (List.all_eq_true.mp rfl)
        (stops_blanks_star hblanks' after) (hblank hblanks')
    have hlast : ∀ x ∈ (c :: blanks).getLast?, Text.isIdent x = false :=
      fun x hx => Text.isIdent_of_isSpace (hblanks x (List.mem_of_getLast? hx))
    refine ⟨Text.stops_cons hc _, _, .inr rfl, ?_⟩
    rw [List.append_assoc, List.append_assoc]
    exact (Tokenized.of_blank hblanks).append hconst
      fun x hx _ _ => .inl (hlast x hx)

theorem isGap_of_tokenized {gap rest : Text} {marks : List Text}
    (hmarks : IsGapTokens marks) (h : Tokenized gap marks)
    (hstops : Text.Stops Text.isIdent (gap ++ rest)) : IsGap gap := by
  rcases hmarks with rfl | rfl
  · exact .inl h.blank
  · rw [← List.nil_append [("const" : Text)]] at h
    obtain ⟨blanks, blanks', rfl, hblanks, hblanks', -, -⟩ := h.split
    refine .inr ⟨blanks, blanks', rfl, ?_, hblanks.blank, hblanks'.blank⟩
    rintro rfl
    have hident := hstops 'c' rfl
    contradiction

theorem pointsAt_iff_tokens {type : Text} (i : Identifier) :
    PointsAt type i.text ↔ ∃ front marks back, IsGapTokens marks ∧
      typeTokens type = front ++ i.text :: (marks ++ ['*'] :: back) := by
  constructor
  · rintro ⟨before, gap, after, rfl, hbefore, hgap⟩
    obtain ⟨hstops, marks, hmarks, hgap⟩ := hgap.tokenized after
    have hname := Tokenized.word i.text_ne_nil i.isIdent hstops hgap
    have htokens := (tokenized_typeTokens before).append hname
      fun x hx _ _ => .inl (hbefore x hx)
    exact ⟨_, marks, _, hmarks, htokens.typeTokens_eq⟩
  · rintro ⟨front, marks, back, hmarks, htokens⟩
    have h := tokenized_typeTokens type
    rw [htokens] at h
    obtain ⟨before, rest, rfl, -, hrest, hbefore, hname⟩ := h.split
    obtain ⟨gap, after, rfl, hgap, -, -, -⟩ := hrest.split
    refine ⟨before, gap, after, rfl, ?_, ?_⟩
    · intro x hx
      rcases hbefore x hx i.head rfl with hx | hhead
      · exact hx
      · rw [i.head_isIdent] at hhead
        contradiction
    · exact isGap_of_tokenized hmarks hgap
        (hname.stops i.text_ne_nil i.isIdent)

/-! ## Recorded names -/

namespace PointerUsage

theorem mem_insertSorted {a name : Text} {names : List Text} :
    a ∈ insertSorted name names ↔ a = name ∨ a ∈ names := by
  induction names with
  | nil => simp [insertSorted]
  | cons x names ih =>
      rw [insertSorted]
      split
      · next heq => simp [heq]
      · split
        · simp
        · simp only [List.mem_cons, ih]
          exact or_left_comm

theorem mem_insert {usage : PointerUsage} {a name : Text} :
    a ∈ (usage.insert name).names ↔ a ∈ usage.names ∨ a = name := by
  rw [insert, mem_insertSorted, or_comm]

/-- What a step adds to the names, many steps add together. -/
theorem mem_foldl_iff {α : Type} {step : PointerUsage → α → PointerUsage}
    {P : α → Prop} {a : Text}
    (hstep : ∀ usage x, a ∈ (step usage x).names ↔ a ∈ usage.names ∨ P x)
    (usage : PointerUsage) (xs : List α) :
    a ∈ (xs.foldl step usage).names ↔ a ∈ usage.names ∨ ∃ x ∈ xs, P x := by
  induction xs generalizing usage with
  | nil => simp
  | cons x xs ih =>
      rw [List.foldl_cons, ih, hstep, or_assoc, List.exists_mem_cons_iff]

theorem mem_union {usage other : PointerUsage} {a : Text} :
    a ∈ (usage.union other).names ↔ a ∈ usage.names ∨ a ∈ other.names := by
  rw [union, mem_foldl_iff (P := (a = ·)) fun usage name => mem_insert]
  simp

theorem exists_gapTokens_iff {previous : List Text} {name : Text} :
    (∃ marks rest, IsGapTokens marks ∧ previous = marks ++ name :: rest) ↔
      (∃ rest, previous = name :: rest) ∨
        ∃ rest, previous = ("const" : Text) :: name :: rest := by
  constructor
  · rintro ⟨marks, rest, rfl | rfl, rfl⟩
    · exact .inl ⟨rest, rfl⟩
    · exact .inr ⟨rest, rfl⟩
  · rintro (⟨rest, rfl⟩ | ⟨rest, rfl⟩)
    · exact ⟨[], rest, .inl rfl, rfl⟩
    · exact ⟨_, rest, .inr rfl, rfl⟩

/-- A star refers to the name in front of it, or in front of `const`. -/
theorem pointee?_eq_some_iff {previous : List Text} {name : Text}
    (hconst : name ≠ "const") :
    pointee? previous = some name ↔ isTypeName name = true ∧
      ∃ marks rest, IsGapTokens marks ∧ previous = marks ++ name :: rest := by
  rw [exists_gapTokens_iff]
  match previous with
  | [] => simp [pointee?]
  | [last] =>
      simp only [pointee?, Option.ite_none_right_eq_some, Option.some.injEq]
      constructor
      · rintro ⟨htype, rfl⟩
        exact ⟨htype, .inl ⟨[], rfl⟩⟩
      · rintro ⟨htype, ⟨rest, h⟩ | ⟨rest, h⟩⟩
        · obtain ⟨rfl, -⟩ := List.cons.inj h
          exact ⟨htype, rfl⟩
        · simp at h
  | last :: before :: others =>
      rw [pointee?]
      by_cases hlast : last = "const"
      · subst hlast
        have hname : ∀ rest, ("const" : Text) :: before :: others ≠
            name :: rest :=
          fun rest h => hconst (List.cons.inj h).1.symm
        simp only [beq_self_eq_true, Bool.true_and, hname, exists_false,
          false_or, List.cons.injEq, true_and]
        split
        · next htype =>
          constructor
          · rintro ⟨⟩
            exact ⟨htype, others, rfl, rfl⟩
          · rintro ⟨-, rest, rfl, -⟩
            rfl
        · next htype =>
          rw [if_pos (by decide)]
          constructor
          · intro h
            exact absurd (Option.some.inj h).symm hconst
          · rintro ⟨htype', rest, rfl, -⟩
            contradiction
      · have hname : ∀ rest, last :: before :: others ≠
            ("const" : Text) :: name :: rest :=
          fun rest h => hlast (List.cons.inj h).1
        simp only [beq_eq_false_iff_ne.mpr hlast, Bool.false_and,
          Bool.false_eq_true, if_false, hname, exists_false, or_false,
          Option.ite_none_right_eq_some, Option.some.injEq]
        constructor
        · rintro ⟨htype, rfl⟩
          exact ⟨htype, before :: others, rfl⟩
        · rintro ⟨htype, rest, h⟩
          obtain ⟨rfl, -⟩ := List.cons.inj h
          exact ⟨htype, rfl⟩

theorem mem_addTokens {usage : PointerUsage} {previous tokens : List Text}
    {a : Text} :
    a ∈ (usage.addTokens previous tokens).names ↔ a ∈ usage.names ∨
      ∃ front back, tokens = front ++ ['*'] :: back ∧
        pointee? (front.reverse ++ previous) = some a := by
  induction tokens generalizing usage previous with
  | nil => simp [addTokens]
  | cons token tokens ih =>
      have hstep : a ∈ (if token = ['*'] then
          (pointee? previous).elim usage usage.insert else usage).names ↔
          a ∈ usage.names ∨ token = ['*'] ∧ pointee? previous = some a := by
        split
        · next hstar =>
          cases pointee? previous with
          | none => simp
          | some name => simp [mem_insert, hstar, eq_comm]
        · next hstar => simp [hstar]
      rw [addTokens, ih, hstep, or_assoc]
      refine or_congr_right ⟨?_, ?_⟩
      · rintro (⟨rfl, hpointee⟩ | ⟨front, back, rfl, hpointee⟩)
        · exact ⟨[], tokens, rfl, hpointee⟩
        · exact ⟨token :: front, back, rfl, by simpa using hpointee⟩
      · rintro ⟨front, back, hsplit, hpointee⟩
        cases front with
        | nil =>
            obtain ⟨rfl, -⟩ := List.cons.inj hsplit
            exact .inl ⟨rfl, hpointee⟩
        | cons first front =>
            obtain ⟨rfl, rfl⟩ := List.cons.inj hsplit
            exact .inr ⟨front, back, rfl, by simpa using hpointee⟩

/-- From a type that names it in front of a star, a name is recorded if it
begins with a letter. -/
theorem mem_addType {usage : PointerUsage} {type : Text} {i : Identifier}
    (hconst : i.text ≠ "const") :
    i.text ∈ (usage.addType type).names ↔ i.text ∈ usage.names ∨
      i.head.isAlpha = true ∧ PointsAt type i.text := by
  rw [addType, mem_addTokens, pointsAt_iff_tokens]
  refine or_congr_right ?_
  constructor
  · rintro ⟨front, back, htokens, hpointee⟩
    rw [List.append_nil, pointee?_eq_some_iff hconst] at hpointee
    obtain ⟨htype, marks, rest, hmarks, hfront⟩ := hpointee
    refine ⟨htype, rest.reverse, marks, back, hmarks, ?_⟩
    rw [List.reverse_eq_iff] at hfront
    rw [htokens, hfront]
    simp [hmarks.reverse_eq]
  · rintro ⟨htype, front, marks, back, hmarks, htokens⟩
    refine ⟨front ++ i.text :: marks, back, by simp [htokens], ?_⟩
    rw [List.append_nil, pointee?_eq_some_iff hconst]
    exact ⟨htype, marks, front.reverse, hmarks, by simp [hmarks.reverse_eq]⟩

theorem mem_collect {entities : List Entity} {i : Identifier}
    (hconst : i.text ≠ "const") :
    i.text ∈ (collect entities).names ↔ i.head.isAlpha = true ∧
      ∃ function ∈ entities, function.category = .function ∧
        ∃ arg ∈ function.membersOf .argument,
          PointsAt arg.typeText i.text := by
  have hstep (usage : PointerUsage) (type : Text) :
      i.text ∈ (addType usage type).names ↔ i.text ∈ usage.names ∨
        i.head.isAlpha = true ∧ PointsAt type i.text := mem_addType hconst
  rw [collect, mem_foldl_iff hstep]
  simp only [List.not_mem_nil, false_or, List.mem_flatMap, List.mem_filter,
    List.mem_map, decide_eq_true_eq]
  constructor
  · rintro
      ⟨type, ⟨function, ⟨hmem, hcategory⟩, arg, harg, rfl⟩, halpha, hpoints⟩
    exact ⟨halpha, function, hmem, hcategory, arg, harg, hpoints⟩
  · rintro ⟨halpha, function, hmem, hcategory, arg, harg, hpoints⟩
    exact ⟨_, ⟨function, ⟨hmem, hcategory⟩, arg, harg, rfl⟩, halpha, hpoints⟩

end PointerUsage

/-! ## Structs that functions take through pointers -/

/-- Some function takes what has this name through a pointer. -/
def TakenThroughPointer (headers : List Header) (name : Text) : Prop :=
  ∃ h ∈ headers, ∃ function ∈ h.entities, function.category = .function ∧
    ∃ arg ∈ function.membersOf .argument, PointsAt arg.typeText name

theorem Header.mem_combinedUsage {headers : List Header} {i : Identifier}
    (hconst : i.text ≠ "const") :
    i.text ∈ (combinedUsage headers).names ↔
      i.head.isAlpha = true ∧ TakenThroughPointer headers i.text := by
  rw [combinedUsage, PointerUsage.mem_foldl_iff
    (P := fun other => i.text ∈ other.names)
    fun usage other => PointerUsage.mem_union]
  simp only [List.not_mem_nil, false_or, List.mem_map, exists_exists_and_eq_and,
    pointerUsage, PointerUsage.mem_collect hconst]
  constructor
  · rintro ⟨h, hh, halpha, hfunction⟩
    exact ⟨halpha, h, hh, hfunction⟩
  · rintro ⟨halpha, h, hh, hfunction⟩
    exact ⟨h, hh, halpha, hfunction⟩

theorem Identifier.isAlpha_head_iff (i : Identifier) :
    i.head.isAlpha = true ↔ i.head ≠ '_' := by
  constructor
  · rintro halpha hhead
    rw [hhead] at halpha
    contradiction
  · intro hhead
    have hident := i.head_isIdent
    simpa [Text.isIdent, Char.isAlphanum, i.head_notDigit, hhead] using hident

/-- A struct that functions take through a pointer is taken for a value
exactly if its name begins with an underscore and it looks like a value, being
made of fields that are no pointers. -/
theorem pointer_used_struct_isValueObject_iff (ctx : Context)
    (headers : List Header) (e : Entity) (i : Identifier)
    (hconst : i.text ≠ "const") (hstruct : e.category = .struct)
    (hscope : e.scope = []) (hname : e.name = i.text)
    (hused : TakenThroughPointer headers i.text) :
    Context.isValueObject
        { ctx with pointerUsage := Header.combinedUsage headers } e = true ↔
      i.head = '_' ∧ e.members ≠ [] ∧
        ∀ m ∈ e.members, m.category = .memberVariable ∧ '*' ∉ m.typeText := by
  have hqualified : e.qualifiedName = i.text := by
    rw [Entity.qualifiedName, hscope, hname]
    rfl
  have hrecorded : i.text ∈ (Header.combinedUsage headers).names ↔
      i.head ≠ '_' := by
    rw [Header.mem_combinedUsage hconst, i.isAlpha_head_iff]
    exact and_iff_left hused
  rw [Context.isValueObject, PointerUsage.contains, hqualified]
  simp only [hstruct, decide_true, Bool.true_and, Bool.and_eq_true,
    Bool.not_eq_true', List.isEmpty_eq_false_iff, List.contains_eq_mem,
    decide_eq_false_iff_not, hrecorded, not_not, List.all_eq_true,
    decide_eq_true_eq, and_assoc]
  exact and_left_comm

/-- One header declares a struct, another one a function that takes it through
a pointer, so the struct is no value. -/
theorem pointer_used_struct_isValueObject_other_header :
    let rectangle : Entity :=
      { category := .struct, name := "ODE_Rectangle"
        members := [{ category := .memberVariable, type := some "float"
                      name := "width" }] }
    let area : Entity :=
      { category := .function, type := some "float", name := "ode_area"
        members := [{ category := .argument
                      type := some "ODE_IN ODE_Rectangle const *"
                      name := "rectangle" }] }
    let headers : List Header :=
      [{ path := "area.h", entities := [area] },
        { path := "rectangle.h", entities := [rectangle] }]
    TakenThroughPointer headers "ODE_Rectangle" ∧
      Context.isValueObject { pointerUsage := Header.combinedUsage headers }
        rectangle = false ∧
      Context.isValueObject {} rectangle = true := by
  intro rectangle area headers
  have hpoints : PointsAt "ODE_IN ODE_Rectangle const *" "ODE_Rectangle" :=
    ⟨"ODE_IN ", " const ", [], rfl, fun c hc => Option.some.inj hc ▸ rfl,
      .inr ⟨[' '], [' '], rfl, by simp, Text.isSpace_blank, Text.isSpace_blank⟩⟩
  have hused : TakenThroughPointer headers "ODE_Rectangle" :=
    ⟨_, List.mem_cons_self, area, List.mem_cons_self, rfl, _,
      List.mem_cons_self, hpoints⟩
  let name : Identifier :=
    ⟨'O', "DE_Rectangle", rfl, rfl, List.all_eq_true.mp rfl⟩
  have hvalue := pointer_used_struct_isValueObject_iff {} headers rectangle name
    (by decide) rfl rfl rfl hused
  refine ⟨hused, ?_, by decide⟩
  rw [← Bool.not_eq_true, hvalue]
  exact fun h => absurd h.1 (by decide)

/-- A struct whose name begins with an underscore is taken for a value
although the function next to it takes it through a pointer. -/
theorem underscore_struct_taken_for_value :
    let source : Text :=
      "typedef struct { int a; } _Foo;\nvoid ODE_API f(_Foo *x);"
    let h : Header := { path := "t.h", entities := Header.parse {} source }
    TakenThroughPointer [h] "_Foo" ∧
      ∃ e ∈ h.entities, e.category = .struct ∧ e.scope = [] ∧
        e.name = "_Foo" ∧
        Context.isValueObject { pointerUsage := Header.combinedUsage [h] } e =
          true := by
  intro source h
  let foo : Entity :=
    { category := .struct, name := "_Foo"
      members := [{ category := .memberVariable, type := some "int"
                    name := "a" }] }
  let f : Entity :=
    { category := .function, type := some "void", name := "f"
      members := [{ category := .argument, type := some "_Foo *"
                    name := "x" }] }
  have hentities : h.entities = [foo, f] := by decide +kernel
  have husage : Header.combinedUsage [h] = {} := by
    simp only [Header.combinedUsage, Header.pointerUsage, List.map_cons,
      List.map_nil, hentities]
    decide
  have hpoints : PointsAt "_Foo *" "_Foo" :=
    ⟨[], [' '], [], rfl, by simp, .inl Text.isSpace_blank⟩
  refine ⟨⟨h, List.mem_cons_self, f, ?_, rfl, _, List.mem_cons_self, hpoints⟩,
    foo, ?_, rfl, rfl, rfl, ?_⟩
  · simp [hentities]
  · simp [hentities]
  · rw [husage]
    decide

end Bindery
