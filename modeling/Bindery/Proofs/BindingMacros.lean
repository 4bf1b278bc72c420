import Bindery.Proofs.ListPieces
import Bindery.Proofs.Refusal

/-!
# Binding macros

A binding macro is written with a parameter list, for a method also with a
return type and a name, and last with the expression that is bound.  Reading
the macro gives these parts back.  The expression may hold commas and brackets
of every kind: it is the last argument, so it is not split any further, and
only its parentheses matter, which have to pair up for the macro to end behind
it.  Types and parameters are given back without the white space around them.
-/

namespace Bindery

namespace Text

variable {t : Text}

/-- White space in front of a text goes up to a character of the text, if the
text does not end with white space. -/
theorem exists_dropWhile_append (hne : t ≠ [])
    (hlast : ∀ c ∈ t.getLast?, isSpace c = false) (rest : Text) :
    ∃ c ∈ t, ∃ u, (t ++ rest).dropWhile isSpace = c :: u := by
  induction t with
  | nil => contradiction
  | cons c t ih =>
      by_cases hc : isSpace c = true
      · have ht : t ≠ [] := by
          rintro rfl
          rw [hlast c rfl] at hc
          contradiction
        rw [List.getLast?_cons_of_ne_nil ht] at hlast
        obtain ⟨a, ha, u, hu⟩ := ih ht hlast
        refine ⟨a, List.mem_cons_of_mem c ha, u, ?_⟩
        rw [List.cons_append, List.dropWhile_cons_of_pos hc, hu]
      · refine ⟨c, List.mem_cons_self, t ++ rest, ?_⟩
        rw [List.cons_append, List.dropWhile_cons_of_neg hc]

theorem trimStart_eq_append (t : Text) :
    ∃ blanks, (∀ c ∈ blanks, isSpace c = true) ∧
      trimStart t = trim t ++ blanks := by
  obtain ⟨blanks, hblanks, hend⟩ :=
    takes_dropWhile isSpace (trimStart t).reverse
  refine ⟨blanks.reverse, by simpa using hblanks, ?_⟩
  have hstart := congrArg List.reverse hend
  rw [List.reverse_reverse, List.reverse_append] at hstart
  exact hstart

/-- Only the end of the first part is inside. -/
theorem trim_append_of_ends {x y : Text} (hx : trim x ≠ []) (hy : y ≠ [])
    (hlast : ∀ c ∈ y.getLast?, isSpace c = false) :
    ∃ blanks, (∀ c ∈ blanks, isSpace c = true) ∧
      trim (x ++ y) = trim x ++ (blanks ++ y) := by
  obtain ⟨blanks, blanks', hblanks, hblanks', hsplit⟩ := trim_split x
  refine ⟨blanks', hblanks', ?_⟩
  have hwhole : x ++ y = blanks ++ (trim x ++ (blanks' ++ y)) := by
    conv_lhs => rw [hsplit]
    simp only [List.append_assoc]
  rw [hwhole, trim_spaces_append hblanks]
  apply trim_eq_self_of_ends
  · rw [List.head?_append_of_ne_nil _ hx]
    exact (trim_ends x).1
  · rw [← List.append_assoc, List.getLast?_append_of_ne_nil _ hy]
    exact hlast

/-! ## Trimmed pieces -/

theorem comma_notMem_spaces {blanks : Text}
    (h : ∀ c ∈ blanks, isSpace c = true) : ',' ∉ blanks := by
  intro hmem
  have hspace := h ',' hmem
  contradiction

theorem map_trim_splitOn_spaces_append {blanks : Text}
    (h : ∀ c ∈ blanks, isSpace c = true) (t : Text) :
    ((blanks ++ t).splitOn ',').map trim = (t.splitOn ',').map trim := by
  have hblanks := comma_notMem_spaces h
  by_cases hcomma : ',' ∈ t
  · obtain ⟨u, v, rfl, hu⟩ := List.eq_append_cons_of_mem hcomma
    have hboth : ',' ∉ blanks ++ u := by simp [hblanks, hu]
    rw [← List.append_assoc, splitOn_append_cons, splitOn_append_cons,
      splitOn_of_notMem hboth, splitOn_of_notMem hu, List.map_append,
      List.map_append, List.map_singleton, List.map_singleton,
      trim_spaces_append h]
  · have hboth : ',' ∉ blanks ++ t := by simp [hblanks, hcomma]
    rw [splitOn_of_notMem hboth, splitOn_of_notMem hcomma,
      List.map_singleton, List.map_singleton, trim_spaces_append h]

theorem exists_last_comma (h : ',' ∈ t) :
    ∃ u v, t = u ++ ',' :: v ∧ ',' ∉ v := by
  obtain ⟨v, u, hreverse, hv⟩ :=
    List.eq_append_cons_of_mem (List.mem_reverse.mpr h)
  refine ⟨u.reverse, v.reverse, ?_, by simpa using hv⟩
  simpa using congrArg List.reverse hreverse

theorem map_trim_splitOn_append_spaces (t : Text) {blanks : Text}
    (h : ∀ c ∈ blanks, isSpace c = true) :
    ((t ++ blanks).splitOn ',').map trim = (t.splitOn ',').map trim := by
  have hblanks := comma_notMem_spaces h
  by_cases hcomma : ',' ∈ t
  · obtain ⟨u, v, rfl, hv⟩ := exists_last_comma hcomma
    have hboth : ',' ∉ v ++ blanks := by simp [hblanks, hv]
    rw [List.append_assoc, List.cons_append, splitOn_append_cons,
      splitOn_append_cons, splitOn_of_notMem hboth, splitOn_of_notMem hv,
      List.map_append, List.map_append, List.map_singleton,
      List.map_singleton, trim_append_spaces v h]
  · have hboth : ',' ∉ t ++ blanks := by simp [hblanks, hcomma]
    rw [splitOn_of_notMem hboth, splitOn_of_notMem hcomma,
      List.map_singleton, List.map_singleton, trim_append_spaces t h]

/-- The white space around a list goes with that around its pieces. -/
theorem map_trim_splitOn_trim (t : Text) :
    ((trim t).splitOn ',').map trim = (t.splitOn ',').map trim := by
  obtain ⟨blanks, blanks', hblanks, hblanks', ht⟩ := trim_split t
  conv_rhs => rw [ht]
  rw [map_trim_splitOn_spaces_append hblanks,
    map_trim_splitOn_append_spaces _ hblanks']

end Text

namespace Written

/-- Parameters in parentheses. -/
def paramsText (params : List Text) : Text :=
  Text.concat ["(", commaed params, ")"]

/-- A macro with its arguments. -/
def callText (marker : Text) (arguments : List Text) : Text :=
  Text.concat [marker, "(", commaed arguments, ");"]

def methodText (returnType : Text) (params : List Text)
    (name expression : Text) : Text :=
  callText "ODE_BIND_METHOD"
    [returnType ++ paramsText params, name, expression]

def constructorText (params : List Text) (expression : Text) : Text :=
  callText "ODE_BIND_CONSTRUCTOR" [paramsText params, expression]

/-- An expression without comments, with its parentheses in pairs. -/
structure IsExpression (e : Text) : Prop where
  ne_nil : e ≠ []
  trimmed : Text.trim e = e
  noLineComment : ¬ ['/', '/'] <:+: e
  noBlockComment : ¬ ['/', '*'] <:+: e
  opened : ∀ front, front <+: e → front.count ')' ≤ front.count '('
  closed : e.count '(' = e.count ')'

end Written

namespace Source

open Written

/-! ## Parentheses -/

/-- Without the two openers of comments, all of a text is code. -/
theorem lex_of_noComment {t : Text} (hline : ¬ ['/', '/'] <:+: t)
    (hblock : ¬ ['/', '*'] <:+: t) : lex t = t.map .code := by
  induction t with
  | nil => simp [lex, lexFrom]
  | cons c t ih =>
      have ht := ih (fun h => hline (h.trans (List.suffix_cons c t).isInfix))
        (fun h => hblock (h.trans (List.suffix_cons c t).isInfix))
      unfold lex at ht ⊢
      rw [lexFrom, ht, List.map_cons]
      · rintro u rfl rfl
        exact hline (List.prefix_append ['/', '/'] u).isInfix
      · rintro u rfl rfl
        exact hblock (List.prefix_append ['/', '*'] u).isInfix

/-- As long as no character closes more than is open, the depth is what the
opening characters are ahead of the closing ones. -/
theorem depthAfter_of_counts {opening closing : Char} (hne : opening ≠ closing)
    {t : Text} {depth : Nat}
    (h : ∀ front, front <+: t →
      front.count closing ≤ depth + front.count opening) :
    depthAfter opening closing depth (t.map .code) =
      some (depth + t.count opening - t.count closing) := by
  induction t generalizing depth with
  | nil => rfl
  | cons c t ih =>
      have hfront (front : Text) (hfront : front <+: t) :
          (c :: front).count closing ≤ depth + (c :: front).count opening :=
        h (c :: front) (List.cons_prefix_cons.mpr ⟨rfl, hfront⟩)
      simp only [List.count_cons, beq_iff_eq] at hfront ⊢
      by_cases hclose : c = closing
      · subst hclose
        simp only [if_true, hne.symm, if_false, Nat.add_zero] at hfront ⊢
        cases depth with
        | zero =>
            have hstart := hfront [] List.nil_prefix
            simp at hstart
        | succ depth =>
            rw [List.map_cons, depthAfter_closing_succ, ih]
            · congr 1
              omega
            · intro front hmem
              have := hfront front hmem
              omega
      · rw [List.map_cons, depthAfter_other (by simpa using hclose)]
        simp only [hclose, if_false, Nat.add_zero, Lexeme.code.injEq]
          at hfront ⊢
        by_cases hopen : c = opening
        · simp only [hopen, if_true] at hfront ⊢
          rw [ih]
          · congr 1
            omega
          · intro front hmem
            have := hfront front hmem
            omega
        · simp only [hopen, if_false, Nat.add_zero] at hfront ⊢
          exact ih hfront

theorem depthAfter_of_paired {t : Text}
    (hopened : ∀ front, front <+: t → front.count ')' ≤ front.count '(')
    (hclosed : t.count '(' = t.count ')') (depth : Nat) :
    depthAfter '(' ')' depth (t.map .code) = some depth := by
  rw [depthAfter_of_counts (by decide), hclosed, Nat.add_sub_cancel]
  intro front hfront
  have := hopened front hfront
  omega

/-- Nothing in the text belongs to a comment, and behind it as many
parentheses are open as in front of it. -/
structure Level (t : Text) : Prop where
  noSlash : '/' ∉ t
  depth : ∀ depth, depthAfter '(' ')' depth (t.map .code) = some depth

theorem Level.append {x y : Text} (hx : Level x) (hy : Level y) :
    Level (x ++ y) := by
  constructor
  · simp [hx.noSlash, hy.noSlash]
  · intro depth
    rw [List.map_append, depthAfter_append, hx.depth depth]
    exact hy.depth depth

theorem level_of_notMem {t : Text} (hslash : '/' ∉ t) (hopen : '(' ∉ t)
    (hclose : ')' ∉ t) : Level t := by
  refine ⟨hslash, depthAfter_of_paired ?_ ?_⟩
  · intro front hfront
    rw [List.count_eq_zero_of_not_mem fun h => hclose (hfront.subset h)]
    exact Nat.zero_le _
  · rw [List.count_eq_zero_of_not_mem hopen,
      List.count_eq_zero_of_not_mem hclose]

theorem Level.parens {t : Text} (h : Level t) :
    Level ('(' :: (t ++ [')'])) := by
  constructor
  · simp [h.noSlash]
  · intro depth
    rw [List.map_cons, depthAfter_other (by decide), if_pos rfl,
      List.map_append, depthAfter_append, h.depth (depth + 1)]
    exact depthAfter_closing_succ depth []

theorem commaed_cons_append (p e : Text) (pieces : List Text) :
    commaed (p :: (pieces ++ [e])) =
      p ++ ',' :: ' ' :: commaed (pieces ++ [e]) := by
  cases pieces with
  | nil => simp [commaed_cons_cons]
  | cons q pieces => simp [commaed_cons_cons]

theorem exists_level_commaed {pieces : List Text}
    (h : ∀ p ∈ pieces, Level p) (e : Text) :
    ∃ front, Level front ∧ commaed (pieces ++ [e]) = front ++ e := by
  induction pieces with
  | nil =>
      refine ⟨[], level_of_notMem ?_ ?_ ?_, commaed_singleton e⟩
      all_goals exact List.not_mem_nil
  | cons p pieces ih =>
      rw [List.forall_mem_cons] at h
      obtain ⟨front, hfront, heq⟩ := ih h.2
      have hcomma : Level [',', ' '] :=
        level_of_notMem (by decide) (by decide) (by decide)
      refine ⟨(p ++ [',', ' ']) ++ front, (h.1.append hcomma).append hfront, ?_⟩
      rw [List.cons_append, commaed_cons_append, heq]
      simp

/-- An expression is the last argument, so all that matters is that its own
parentheses are in pairs. -/
theorem balanced_commaed {pieces : List Text} (h : ∀ p ∈ pieces, Level p)
    {e : Text} (he : IsExpression e) :
    Balanced '(' ')' (commaed (pieces ++ [e])) := by
  obtain ⟨front, hfront, heq⟩ := exists_level_commaed h e
  have hlex : lex (front ++ e) = front.map .code ++ e.map .code := by
    rw [lex_append_of_notMem hfront.noSlash,
      lex_of_noComment he.noLineComment he.noBlockComment]
  rw [heq]
  constructor
  · rw [hlex, ← List.map_append]
    intro l hl
    obtain ⟨c, _, rfl⟩ := List.mem_map.mp hl
    rfl
  · rw [hlex, depthAfter_append, hfront.depth]
    exact depthAfter_of_paired he.opened he.closed 0

/-! ## Splitting at the top level -/

section Split

variable {separator c : Char} {limit depth : Nat} {read t rest : Text}

theorem splitTopLevelFrom_opening (hlimit : limit ≠ 1)
    (h : isOpening c = true) :
    splitTopLevelFrom separator limit depth read (c :: t) =
      splitTopLevelFrom separator limit (depth + 1) (c :: read) t := by
  rw [splitTopLevelFrom, if_pos h]
  exact hlimit

theorem splitTopLevelFrom_closing (hlimit : limit ≠ 1)
    (h : isClosing c = true) :
    splitTopLevelFrom separator limit depth read (c :: t) =
      splitTopLevelFrom separator limit (depth - 1) (c :: read) t := by
  have hopening : isOpening c ≠ true := by
    intro hopening
    simp only [isClosing, Bool.or_eq_true, beq_iff_eq] at h
    rcases h with (rfl | rfl) | rfl
    · contradiction
    · contradiction
    · contradiction
  rw [splitTopLevelFrom, if_neg hopening, if_pos h]
  exact hlimit

/-- Neither a bracket nor a separator that counts. -/
def Passed (separator : Char) (depth : Nat) (c : Char) : Prop :=
  isOpening c = false ∧ isClosing c = false ∧ (c = separator → depth ≠ 0)

theorem splitTopLevelFrom_append (hlimit : limit ≠ 1)
    (h : ∀ c ∈ t, Passed separator depth c) :
    splitTopLevelFrom separator limit depth read (t ++ rest) =
      splitTopLevelFrom separator limit depth (t.reverse ++ read) rest := by
  induction t generalizing read with
  | nil => rfl
  | cons c t ih =>
      simp only [List.mem_cons, forall_eq_or_imp] at h
      obtain ⟨⟨hopening, hclosing, hseparator⟩, ht⟩ := h
      have hpass : ¬ (c = separator ∧ depth = 0) :=
        fun hc => hseparator hc.1 hc.2
      rw [List.cons_append, splitTopLevelFrom, hopening, hclosing, if_neg hpass]
      · simp only [Bool.false_eq_true, if_false]
        rw [ih ht, List.reverse_cons, List.append_assoc]
        rfl
      · exact hlimit

/-- The text lies within one piece. -/
def OnePiece (separator : Char) (t : Text) : Prop :=
  ∀ limit read rest, limit ≠ 1 →
    splitTopLevelFrom separator limit 0 read (t ++ rest) =
      splitTopLevelFrom separator limit 0 (t.reverse ++ read) rest

theorem onePiece_of_passed (h : ∀ c ∈ t, Passed separator 0 c) :
    OnePiece separator t :=
  fun _ _ _ hlimit => splitTopLevelFrom_append hlimit h

theorem OnePiece.append {x y : Text} (hx : OnePiece separator x)
    (hy : OnePiece separator y) : OnePiece separator (x ++ y) := by
  intro limit read rest hlimit
  rw [List.append_assoc, hx _ _ _ hlimit, hy _ _ _ hlimit,
    List.reverse_append, List.append_assoc]

/-- Parentheses hold the separators in them together. -/
theorem onePiece_parens (h : ∀ c ∈ t, Passed separator 1 c) :
    OnePiece separator ('(' :: (t ++ [')'])) := by
  intro limit read rest hlimit
  rw [List.cons_append, List.append_assoc,
    splitTopLevelFrom_opening hlimit rfl, splitTopLevelFrom_append hlimit h,
    List.singleton_append, splitTopLevelFrom_closing hlimit rfl]
  simp

theorem splitTopLevel_cons (hopening : isOpening separator = false)
    (hclosing : isClosing separator = false) (h : OnePiece separator t)
    (limit : Nat) (rest : Text) :
    splitTopLevel separator (limit + 2) (t ++ separator :: rest) =
      Text.trim t :: splitTopLevel separator (limit + 1) rest := by
  unfold splitTopLevel
  rw [h _ _ _ (by omega), splitTopLevelFrom, hopening, hclosing]
  · simp
  · omega

theorem splitTopLevel_one (separator : Char) (t : Text) :
    splitTopLevel separator 1 t = [Text.trim t] := by
  simp [splitTopLevel, splitTopLevelFrom]

/-- With as many pieces as the limit allows, the last one is not looked
into. -/
theorem splitTopLevel_commaed {pieces : List Text}
    (h : ∀ p ∈ pieces, OnePiece ',' p) (e : Text) {blanks : Text}
    (hblanks : ∀ c ∈ blanks, c = ' ') :
    splitTopLevel ',' (pieces.length + 1) (blanks ++ commaed (pieces ++ [e])) =
      (pieces ++ [e]).map Text.trim := by
  induction pieces generalizing blanks with
  | nil =>
      rw [List.nil_append, commaed_singleton, List.length_nil,
        splitTopLevel_one,
        Text.trim_spaces_append fun c hc => hblanks c hc ▸ rfl]
      rfl
  | cons p pieces ih =>
      rw [List.forall_mem_cons] at h
      have hpiece : OnePiece ',' (blanks ++ p) := by
        refine (onePiece_of_passed ?_).append h.1
        intro c hc
        rw [hblanks c hc]
        unfold Passed
        decide
      have hrest : splitTopLevel ',' (pieces.length + 1)
          (' ' :: commaed (pieces ++ [e])) = (pieces ++ [e]).map Text.trim :=
        ih h.2 (List.forall_mem_singleton.mpr rfl)
      rw [List.cons_append, commaed_cons_append, ← List.append_assoc,
        List.length_cons, splitTopLevel_cons rfl rfl hpiece, hrest,
        Text.trim_spaces_append fun c hc => hblanks c hc ▸ rfl, List.map_cons]

end Split

namespace BodyItem

open Matcher

/-! ## Parameters -/

/-- In front of the end of a trimmed text, white space is followed by another
character of the text. -/
theorem literal_eq_nil_of_trim {t x y : Text} {a : Char}
    (hxy : Text.trim t = x ++ y) (hy : y ≠ []) (ha : a ∉ Text.trim t)
    (rest : Text) : literal [a] ((y ++ rest).dropWhile Text.isSpace) = [] := by
  have hlast : ∀ c ∈ y.getLast?, Text.isSpace c = false := by
    intro c hc
    apply (Text.trim_ends t).2
    rwa [hxy, List.getLast?_append_of_ne_nil _ hy]
  obtain ⟨c, hc, u, hu⟩ := Text.exists_dropWhile_append hy hlast rest
  rw [hu]
  apply literal_eq_nil rfl
  rintro ⟨⟩
  apply ha
  rw [hxy]
  exact List.mem_append_right x hc

theorem ne_of_isParamListChar {c a : Char} (h : isParamListChar c = true)
    (ha : isParamListChar a = false) : c ≠ a := by
  rintro rfl
  rw [h] at ha
  contradiction

theorem isParamListChar_of_isParamChar {c : Char} (h : isParamChar c = true) :
    isParamListChar c = true := by
  simp [isParamListChar, h]

theorem passed_of_isParamListChar {c : Char} {depth : Nat}
    (h : isParamListChar c = true) (hdepth : c = ',' → depth ≠ 0) :
    Passed ',' depth c := by
  have hne {a : Char} (ha : isParamListChar a = false) : c ≠ a :=
    ne_of_isParamListChar h ha
  unfold Passed isOpening isClosing
  simp only [Bool.or_eq_false_iff, beq_eq_false_iff_ne]
  exact ⟨⟨⟨hne (by decide), hne (by decide)⟩, hne (by decide)⟩,
    ⟨⟨hne (by decide), hne (by decide)⟩, hne (by decide)⟩, hdepth⟩

theorem onePiece_of_isParamChar {t : Text}
    (h : ∀ c ∈ t, isParamChar c = true) : OnePiece ',' t := by
  apply onePiece_of_passed
  intro c hc
  apply passed_of_isParamListChar (isParamListChar_of_isParamChar (h c hc))
  rintro rfl
  have hcomma := h ',' hc
  contradiction

theorem level_of_isParamListChar {t : Text}
    (h : ∀ c ∈ t, isParamListChar c = true) : Level t := by
  have hnotMem {a : Char} (ha : isParamListChar a = false) : a ∉ t :=
    fun hmem => ne_of_isParamListChar (h a hmem) ha rfl
  exact level_of_notMem (hnotMem (by decide)) (hnotMem (by decide))
    (hnotMem (by decide))

theorem level_of_isParamChar {t : Text}
    (h : ∀ c ∈ t, isParamChar c = true) : Level t :=
  level_of_isParamListChar fun c hc => isParamListChar_of_isParamChar (h c hc)

theorem getLast?_paramsText (params : List Text) :
    ∀ c ∈ (paramsText params).getLast?, Text.isSpace c = false := by
  intro c hc
  have hconcat : paramsText params = ('(' :: commaed params) ++ [')'] := rfl
  rw [hconcat, List.getLast?_concat, Option.mem_some_iff] at hc
  rw [← hc]
  decide

theorem run_skip_spaces {β : Type} (t : Text) (k : Unit → Text → Option β) :
    (Rule.skip spaces).run t k = k () (t.dropWhile Text.isSpace) := by
  simp [Rule.skip, spaces, run]

theorem run_paramList_eq_none {β : Type} {t : Text}
    {k : Text → Text → Option β} (h : literal ['('] t = []) :
    paramList.run t k = none := by
  unfold paramList
  rw [Rule.run_bind]
  exact Rule.run_skip_of_eq_nil (sequence_eq_nil h _)

theorem trim_paramsText (params : List Text) :
    Text.trim (paramsText params) = paramsText params :=
  Text.trim_eq_self_of_ends (fun _ hc => Option.mem_some_iff.mp hc ▸ rfl)
    (getLast?_paramsText params)

section Params

variable {params : List Text}
  (hparams : ∀ p ∈ params, ∀ c ∈ p, isParamChar c = true)

include hparams

theorem isParamListChar_commaed :
    ∀ c ∈ commaed params, isParamListChar c = true := by
  intro c hc
  rcases mem_commaed hc with rfl | rfl | ⟨p, hp, hc⟩
  · decide
  · decide
  · exact isParamListChar_of_isParamChar (hparams p hp c hc)

/-- The parameters of a written list, each without the white space around
it. -/
theorem normalParams_commaed :
    normalParams (Text.trim (commaed params)) =
      Text.concat ["(", Text.join "," (params.map Text.trim), ")"] := by
  unfold normalParams
  rw [Text.map_trim_splitOn_trim]
  cases params with
  | nil => rfl
  | cons p params =>
      have hcomma : ∀ q ∈ p :: params, ',' ∉ q := by
        intro q hq hmem
        have hchar := hparams q hq ',' hmem
        contradiction
      have htrim : (params.map (' ' :: ·)).map Text.trim =
          params.map Text.trim := by
        rw [List.map_map]
        apply List.map_congr_left
        intro q _
        exact Text.trim_cons (by decide) q
      rw [splitOn_commaed hcomma, List.map_cons, htrim, List.map_cons]

theorem run_paramList {β : Type} {k : Text → Text → Option β} {b : β}
    (hk : k (normalParams (Text.trim (commaed params))) [] = some b) :
    paramList.run (paramsText params) k = some b := by
  obtain ⟨blanks, hblanks, hstart⟩ := Text.trimStart_eq_append (commaed params)
  have hchars : ∀ c ∈ Text.trim (commaed params), isParamListChar c = true :=
    fun c hc => isParamListChar_commaed hparams c (Text.mem_of_mem_trim hc)
  have hopen : Prefers (sequence [literal "(", spaces]) (paramsText params)
      (Text.trim (commaed params) ++ (blanks ++ [')'])) := by
    rw [← List.append_assoc, ← hstart,
      ← Text.trimStart_append_cons (by decide)]
    exact (prefers_literal ("(" : Text) _).cons
      ((Prefers.of_eq rfl).cons prefers_sequence_nil)
  have hclose : Prefers (sequence [spaces, literal ")", textEnd])
      (blanks ++ [')']) [] :=
    (prefers_run hblanks (Text.stops_cons (by decide) [])).cons
      ((prefers_literal (")" : Text) []).cons
        ((Prefers.of_eq rfl).cons prefers_sequence_nil))
  unfold paramList
  rw [Rule.run_bind]
  apply Rule.run_skip_of_prefers hopen
  rw [Rule.run_bind]
  apply findSome?_fewest hchars
  · intro x y hxy hy
    have hmark : ')' ∉ Text.trim (commaed params) :=
      fun hmem => ne_of_isParamListChar (hchars _ hmem) (by decide) rfl
    simp only [Rule.run_bind]
    apply Rule.run_skip_of_eq_nil
    rw [sequence_cons, spaces, run, List.flatMap_singleton]
    exact sequence_eq_nil (literal_eq_nil_of_trim hxy hy hmark _) _
  · simp only [Rule.run_bind]
    apply Rule.run_skip_of_prefers hclose
    rw [Rule.run_pure, Span.text_append]
    exact hk

theorem onePiece_paramsText : OnePiece ',' (paramsText params) := by
  apply onePiece_parens
  intro c hc
  exact passed_of_isParamListChar (isParamListChar_commaed hparams c hc)
    (fun _ => by decide)

theorem level_paramsText : Level (paramsText params) :=
  (level_of_isParamListChar (isParamListChar_commaed hparams)).parens

/-- A return type is read up to the white space in front of the
parameters. -/
theorem first?_signature {returnType : Text}
    (htype : ∀ c ∈ returnType, isParamChar c = true)
    (hne : Text.trim returnType ≠ []) :
    signature.first? (Text.trim (returnType ++ paramsText params)) =
      some (Text.trim returnType ++
        normalParams (Text.trim (commaed params)), []) := by
  have hne' : paramsText params ≠ [] := List.cons_ne_nil '(' _
  obtain ⟨blanks, hblanks, htrim⟩ :=
    Text.trim_append_of_ends hne hne' (getLast?_paramsText params)
  have hchars : ∀ c ∈ Text.trim returnType, isParamChar c = true :=
    fun c hc => htype c (Text.mem_of_mem_trim hc)
  have hmark : '(' ∉ Text.trim returnType :=
    fun hmem => absurd (hchars _ hmem) (by decide)
  have hspaces : Prefers spaces (blanks ++ paramsText params)
      (paramsText params) :=
    prefers_run hblanks (Text.stops_cons (by decide) _)
  obtain ⟨c, type, hcons⟩ := List.exists_cons_of_ne_nil hne
  rw [hcons, List.forall_mem_cons] at hchars
  have hcapture : sequence [one isParamChar, fewest isParamChar]
      (c :: (type ++ (blanks ++ paramsText params))) =
        fewest isParamChar (type ++ (blanks ++ paramsText params)) := by
    rw [sequence_cons, one, if_pos hchars.1, List.flatMap_singleton]
    rfl
  rw [htrim, hcons, List.cons_append]
  simp only [signature, Rule.first?, Rule.run_bind, Rule.run_pure, Rule.capture,
    hcapture]
  apply findSome?_fewest hchars.2
  · intro x y hxy hy
    have hsuffix : Text.trim returnType = (c :: x) ++ y := by
      rw [hcons, hxy, List.cons_append]
    rw [run_skip_spaces]
    apply run_paramList_eq_none
    exact literal_eq_nil_of_trim hsuffix hy hmark _
  · apply Rule.run_skip_of_prefers hspaces
    apply run_paramList hparams
    rw [← List.cons_append, Span.text_append, ← hcons, Text.trim_trim]

end Params

/-! ## Macros -/

theorem macroArguments?_callText (marker : Text) {arguments : List Text}
    (h : Balanced '(' ')' (commaed arguments)) (tail : Text) :
    macroArguments? marker (callText marker arguments ++ tail) =
      some (commaed arguments, tail) := by
  have htext : callText marker arguments ++ tail =
      marker ++ '(' :: (commaed arguments ++ ')' :: ';' :: tail) := by
    simp [callText, Text.concat]
  have hopen : Prefers (sequence [literal marker, spaces, literal "("])
      (callText marker arguments ++ tail)
      (commaed arguments ++ ')' :: ';' :: tail) := by
    rw [htext]
    exact (prefers_literal marker _).cons
      ((prefers_spaces_self (Text.stops_cons (by decide) _)).cons
        ((prefers_literal ("(" : Text) _).cons prefers_sequence_nil))
  have hfirst :
      (Rule.skip (sequence [literal marker, spaces, literal "("])).first?
      (callText marker arguments ++ tail) =
        some ((), commaed arguments ++ ')' :: ';' :: tail) :=
    Rule.run_skip_of_prefers hopen rfl
  have henclosed : enclosed '(' (commaed arguments ++ ')' :: ';' :: tail) =
      some (commaed arguments, ';' :: tail) :=
    (enclosed_eq_some_iff rfl).mpr ⟨rfl, h⟩
  have hend : Text.after? ";" (Text.trimStart (';' :: tail)) = some tail := by
    rw [Text.trimStart_cons (by decide)]
    exact Text.after?_eq_some_iff.mpr rfl
  unfold macroArguments?
  rw [hfirst]
  simp only [Option.bind_eq_bind, Option.bind_some, henclosed, hend]
  rfl

theorem exists_next {text rest : Text} (hne : text ≠ [])
    {piece : Piece BodyItem}
    (h : (rules {}).findSome? (· (.start (text ++ rest))) =
      some (piece, rest)) :
    ∃ found, next {} (.start (text ++ rest)) = some found ∧
      found.piece = piece ∧ found.rest = rest := by
  have hmid : (Cursor.start (text ++ rest)).midWord = false := rfl
  have hlt : rest.length < (text ++ rest).length := by
    have := List.length_pos_iff.mpr hne
    rw [List.length_append]
    omega
  refine ⟨⟨piece, rest, hlt⟩, ?_, rfl, rfl⟩
  simp only [next, recognise, hmid, Bool.false_eq_true, if_false, h]
  exact dif_pos hlt

section Macros

variable {params : List Text} {expression : Text}
  (hparams : ∀ p ∈ params, ∀ c ∈ p, isParamChar c = true)
  (hexpression : IsExpression expression)

include hparams hexpression

theorem constructor?_text (tail : Text) :
    constructor? {} (constructorText params expression ++ tail) =
      some (.constructor (normalParams (Text.trim (commaed params))) expression,
        tail) := by
  have hbalanced : Balanced '(' ')' (commaed [paramsText params, expression]) :=
    balanced_commaed (List.forall_mem_singleton.mpr (level_paramsText hparams))
      hexpression
  have hargs := macroArguments?_callText "ODE_BIND_CONSTRUCTOR" hbalanced tail
  have hsplit : splitTopLevel ',' 2 (commaed [paramsText params, expression]) =
      [paramsText params, expression].map Text.trim :=
    splitTopLevel_commaed
      (List.forall_mem_singleton.mpr (onePiece_paramsText hparams))
      expression (List.forall_mem_nil _)
  have hlist : paramList.first? (paramsText params) =
      some (normalParams (Text.trim (commaed params)), []) :=
    run_paramList hparams rfl
  have hne : expression.isEmpty = false := by
    simpa using hexpression.ne_nil
  unfold constructor? constructorText
  rw [hargs]
  simp only [Option.bind_eq_bind, Option.bind_some, hsplit, List.map_cons,
    List.map_nil, trim_paramsText, hexpression.trimmed, hlist, hne]
  rfl

theorem method?_text {returnType : Text}
    (htype : ∀ c ∈ returnType, isParamChar c = true)
    (hblank : Text.trim returnType ≠ []) (name : Identifier) (tail : Text) :
    method? {} (methodText returnType params name.text expression ++ tail) =
      some (.method (Text.trim returnType ++
        normalParams (Text.trim (commaed params))) name.text expression,
        tail) := by
  have hname : ∀ c ∈ name.text, isParamChar c = true := by
    intro c hc
    simp [isParamChar, name.isWord c hc]
  have hlevel : ∀ p ∈ [returnType ++ paramsText params, name.text],
      Level p := by
    simp only [List.forall_mem_cons]
    exact ⟨(level_of_isParamChar htype).append (level_paramsText hparams),
      level_of_isParamChar hname, List.forall_mem_nil _⟩
  have hpieces : ∀ p ∈ [returnType ++ paramsText params, name.text],
      OnePiece ',' p := by
    simp only [List.forall_mem_cons]
    exact ⟨(onePiece_of_isParamChar htype).append (onePiece_paramsText hparams),
      onePiece_of_isParamChar hname, List.forall_mem_nil _⟩
  have hbalanced : Balanced '(' ')'
      (commaed [returnType ++ paramsText params, name.text, expression]) :=
    balanced_commaed hlevel hexpression
  have hargs := macroArguments?_callText "ODE_BIND_METHOD" hbalanced tail
  have hsplit : splitTopLevel ',' 3
      (commaed [returnType ++ paramsText params, name.text, expression]) =
      [returnType ++ paramsText params, name.text, expression].map Text.trim :=
    splitTopLevel_commaed hpieces expression (List.forall_mem_nil _)
  have hsignature := first?_signature hparams htype hblank
  have hident : name.text.isEmpty = false := by
    simpa using name.text_ne_nil
  have hall : name.text.all Text.isIdent = true :=
    List.all_eq_true.mpr name.isIdent
  have hne : expression.isEmpty = false := by
    simpa using hexpression.ne_nil
  unfold method? methodText
  rw [hargs]
  simp only [Option.bind_eq_bind, Option.bind_some, hsplit, List.map_cons,
    List.map_nil, Text.trim_eq_self name.notSpace, hexpression.trimmed,
    hsignature, hident, hall, hne]
  rfl

end Macros

/-- A binding macro gives its parts back.  The name and the expression are
kept as they are written, and nothing of what follows is taken. -/
theorem binding_macros_verbatim {params : List Text} {expression : Text}
    (hparams : ∀ p ∈ params, ∀ c ∈ p, isParamChar c = true)
    (hexpression : IsExpression expression) (tail : Text) :
    (∀ (returnType : Text) (name : Identifier),
      (∀ c ∈ returnType, isParamChar c = true) → Text.trim returnType ≠ [] →
      ∃ found,
        next {} (.start
          (methodText returnType params name.text expression ++ tail)) =
            some found ∧
        found.piece = .declared (.entry (.method
          (Text.trim returnType ++ Text.concat
            ["(", Text.join "," (params.map Text.trim), ")"])
          name.text expression)) ∧
        found.rest = tail) ∧
    ∃ found,
      next {} (.start (constructorText params expression ++ tail)) =
        some found ∧
      found.piece = .declared (.entry (.constructor
        (Text.concat ["(", Text.join "," (params.map Text.trim), ")"])
        expression)) ∧
      found.rest = tail := by
  rw [← normalParams_commaed hparams]
  constructor
  · intro returnType name htype hblank
    have hread := method?_text hparams hexpression htype hblank name tail
    have htuple := tupleRule_eq_none (t := methodText returnType params
      name.text expression ++ tail) (sequence_eq_nil rfl _)
    have hconstructor := constructor?_eq_none (t := methodText returnType params
      name.text expression ++ tail) (sequence_eq_nil rfl _)
    apply exists_next
    · simp [methodText, callText, Text.concat]
    · simp only [rules, List.cons_append, List.findSome?_cons, entryBy,
        Cursor.start, htuple, hconstructor, hread, Option.map_none,
        Option.map_some]
  · have hread := constructor?_text hparams hexpression tail
    have htuple := tupleRule_eq_none
      (t := constructorText params expression ++ tail) (sequence_eq_nil rfl _)
    apply exists_next
    · simp [constructorText, callText, Text.concat]
    · simp only [rules, List.cons_append, List.findSome?_cons, entryBy,
        Cursor.start, htuple, hread, Option.map_none, Option.map_some]

/-- Calls in brackets and in calls, and commas outside of the parentheses. -/
theorem binding_macros_verbatim_nested :
    let returnType : Text := "  glm :: vec3 &\n"
    let params : List Text := ["int  a", " const ns::Größe &\tb ", " "]
    let name : Identifier :=
      ⟨'a', ['t'], rfl, rfl, List.forall_mem_singleton.mpr rfl⟩
    let expression : Text :=
      "(*self)[max(a, (int)b)] / f(g(), \x7b1, 2\x7d), c[i, j]"
    let tail : Text := " // ODE_TUPLE"
    IsExpression expression ∧
    (∃ found,
      next {} (.start (methodText returnType params name.text expression ++
        tail)) = some found ∧
      found.piece = .declared (.entry (.method
        "glm :: vec3 &(int  a,const ns::Größe &\tb,)" name.text
        expression)) ∧
      found.rest = tail) ∧
    ∃ found,
      next {} (.start (constructorText params expression ++ tail)) =
        some found ∧
      found.piece = .declared (.entry (.constructor
        "(int  a,const ns::Größe &\tb,)" expression)) ∧
      found.rest = tail := by
  intro returnType params name expression tail
  have hparams : ∀ p ∈ params, p.all isParamChar = true := by
    decide +kernel
  have hopened : ∀ front ∈ expression.inits,
      front.count ')' ≤ front.count '(' := by
    decide +kernel
  have hexpression : IsExpression expression :=
    ⟨by decide +kernel, by decide +kernel, by decide +kernel,
      by decide +kernel,
      fun front hfront => hopened front ((List.mem_inits front _).mpr hfront),
      by decide +kernel⟩
  have htype : returnType.all isParamChar = true ∧
      Text.trim returnType ≠ [] := by
    decide +kernel
  have hnormal : Text.concat ["(", Text.join "," (params.map Text.trim), ")"] =
      "(int  a,const ns::Größe &\tb,)" := by
    decide +kernel
  have hsignature : Text.trim returnType ++
      Text.concat ["(", Text.join "," (params.map Text.trim), ")"] =
        "glm :: vec3 &(int  a,const ns::Größe &\tb,)" := by
    decide +kernel
  rw [← hnormal, ← hsignature]
  have hread := binding_macros_verbatim
    (fun p hp => List.all_eq_true.mp (hparams p hp)) hexpression tail
  exact ⟨hexpression,
    hread.1 returnType name (List.all_eq_true.mp htype.1) htype.2, hread.2⟩

end BodyItem

end Source

end Bindery
