import Bindery.Proofs.FileText
import Bindery.Proofs.Walking

/-!
# Reading the statements of a file

For every kind of statement the rule that it was written for reads it back,
and the rules before that one refuse it.  Only the prototype of a function
makes a rule choose twice: its return type could extend over the marker, which
the name that follows does not allow.
-/

namespace Bindery.Written

open Source Source.Declaration Matcher

variable (rest : Text)

theorem inWords_singleton (word : Text) : inWords [word] = word := by
  simp [inWords, Text.join]

theorem inWords_cons_cons (word next : Text) (words : List Text) :
    inWords (word :: next :: words) =
      word ++ ' ' :: inWords (next :: words) := by
  rw [inWords, Text.join, List.intercalate_cons_cons, List.append_assoc]
  rfl

/-! ## The rules at their own statements -/

theorem prefers_number (n : Number) :
    Prefers number (n.text ++ '\n' :: rest) ('\n' :: rest) := by
  have hhead : isNumberStart n.head = true := by
    simp [isNumberStart, n.head_isDigit]
  have htail : ∀ c ∈ n.tail, isNumberChar c = true := by
    intro c hc
    have hchar := n.tail_isNumber c hc
    rw [Bool.or_eq_true] at hchar
    rcases hchar with hchar | hchar
    · simp [isNumberChar, Text.isWord_of_isIdent hchar]
    · simp [isNumberChar, hchar]
  exact (prefers_one hhead _).cons ((prefers_run htail
    (Text.stops_cons (by decide) rest)).cons prefers_sequence_nil)

theorem defineRule_text (name : MacroName) (value : Number) :
    (defineRule {}).first?
        ((Statement.define name value).text ++ '\n' :: rest) =
      some (.define (("ODE_" : Text) ++ name.text) value.text, rest) := by
  have htext : (Statement.define name value).text ++ '\n' :: rest =
      ("#define" : Text) ++ ([' '] ++ ((("ODE_" : Text) ++ name.text) ++
        ([' '] ++ (value.text ++ '\n' :: rest)))) := by
    simp only [Statement.text, inWords_cons_cons, inWords_singleton,
      List.append_assoc, List.cons_append, List.nil_append]
  have hdefine (t : Text) (h : Text.Stops Text.isInlineSpace t) :
      Prefers (sequence [literal "#define", many1 Text.isInlineSpace])
        (("#define" : Text) ++ ([' '] ++ t)) t :=
    (prefers_literal _ _).cons
      ((prefers_many1 (by simp) (List.forall_mem_singleton.mpr rfl) h).cons
        prefers_sequence_nil)
  have hname (t : Text) (h : Text.Stops isDefineChar t) :
      Prefers (sequence [literal "ODE_", many1 isDefineChar])
        ((("ODE_" : Text) ++ name.text) ++ t) t := by
    rw [List.append_assoc]
    exact (prefers_literal _ _).cons
      ((prefers_many1 name.ne_nil name.isDefineChar h).cons
        prefers_sequence_nil)
  have hblank : Prefers (run1 Text.isInlineSpace)
      ([' '] ++ (value.text ++ '\n' :: rest)) (value.text ++ '\n' :: rest) := by
    apply prefers_run1 (by simp) (List.forall_mem_singleton.mpr rfl)
    apply Text.stops_cons
    rw [Text.isInlineSpace, Text.isSpace_of_isIdent
      (Text.isIdent_of_isDigit value.head_isDigit)]
    rfl
  have hend : Prefers (sequence [inlineSpaces,
      optional (either (sequence [literal "//", Matcher.run notLineFeed])
        (sequence [literal "/*", fewest notLineFeed, literal "*/",
          inlineSpaces])), either (literal "\n") textEnd])
      ('\n' :: rest) rest := by
    have hcomment : either (sequence [literal "//", Matcher.run notLineFeed])
        (sequence [literal "/*", fewest notLineFeed, literal "*/",
          inlineSpaces]) ('\n' :: rest) = [] := by
      rw [either, sequence_eq_nil (literal_eq_nil (a := '/') rfl (by simp)),
        sequence_eq_nil (literal_eq_nil (a := '/') rfl (by simp)),
        List.append_nil]
    exact (prefers_run_self (Text.stops_cons (by decide) rest)).cons
      ((prefers_optional_self hcomment).cons
        ((prefers_literal ("\n" : Text) rest).either.cons
          prefers_sequence_nil))
  rw [htext]
  unfold Rule.first? defineRule
  simp only [Rule.run_bind]
  apply Rule.run_skip_of_prefers (hdefine _ (Text.stops_cons (by decide) _))
  apply Rule.run_capture_of_prefers (hname _ (Text.stops_cons (by decide) _))
  apply Rule.run_skip_of_prefers hblank
  apply Rule.run_capture_of_prefers (prefers_number rest value).either
  apply Rule.run_skip_of_prefers hend
  rw [Rule.run_pure, Span.text_append, Span.text_append]

theorem isTypeChar_identifier (i : Identifier) :
    ∀ c ∈ i.text, isTypeChar c = true ∧ isTypeEnd c = false := by
  intro c hc
  refine ⟨isTypeChar_of_isWord c (i.isWord c hc), ?_⟩
  rw [isTypeEnd, i.notSpace c hc, Bool.false_or, beq_eq_false_iff_ne]
  exact Text.ne_of_isIdent (i.isIdent c hc) (by decide)

/-- Of two identifiers in front of a semicolon, the first is the type. -/
theorem endsFrom_type {x : Text}
    (hx : ∀ c ∈ x, isTypeChar c = true ∧ isTypeEnd c = false)
    (name : Identifier) :
    endsFrom isTypeChar isTypeEnd [] (x ++ ' ' :: (name.text ++ ';' :: rest)) =
      [name.text ++ ';' :: rest] := by
  rw [endsFrom_word_end hx (by decide),
    endsFrom_word_stop (isTypeChar_identifier name) (by decide)]

theorem trim_constType (type : Identifier) :
    Text.trim (("const" : Text) ++ ([' '] ++ (type.text ++ [' ']))) =
      inWords ["const", type.text] := by
  have hsplit : ("const" : Text) ++ ([' '] ++ (type.text ++ [' '])) =
      ((("const" : Text) ++ [' ']) ++ type.text) ++ [' '] := by
    simp only [List.append_assoc]
  have hwords : inWords ["const", type.text] =
      (("const" : Text) ++ [' ']) ++ type.text := by
    rw [inWords_cons_cons, inWords_singleton, List.append_assoc]
    rfl
  rw [hsplit, hwords]
  apply Text.trim_append_blank
  · intro c hc
    have hfirst : c = 'c' := (Option.mem_some_iff.mp hc).symm
    rw [hfirst]
    decide
  · intro c hc
    rw [List.getLast?_append_of_ne_nil _ type.text_ne_nil] at hc
    exact type.notSpace c (List.mem_of_getLast? hc)

theorem constantRule_text (type name : Identifier) :
    (constantRule {}).first? ((Statement.constant type name).text ++ rest) =
      some (.constant (inWords ["const", type.text]) name.text, rest) := by
  have htext : (Statement.constant type name).text ++ rest =
      ("extern" : Text) ++ ([' '] ++ (("ODE_API" : Text) ++ ([' '] ++
        ((("const" : Text) ++ ([' '] ++ (type.text ++ [' ']))) ++
          (name.text ++ ';' :: rest))))) := by
    simp only [Statement.text, inWords_cons_cons, inWords_singleton,
      List.append_assoc, List.cons_append, List.nil_append]
  have hexternal (t : Text) (h : Text.Stops Text.isSpace t) :
      Prefers (sequence [literal "extern", many1 Text.isSpace,
          literal "ODE_API", spaces1])
        (("extern" : Text) ++ ([' '] ++ (("ODE_API" : Text) ++ ([' '] ++ t))))
        t :=
    (prefers_literal _ _).cons
      ((prefers_many1 (by simp) Text.isSpace_blank
        (Text.stops_cons (by decide) _)).cons
        ((prefers_literal _ _).cons
          ((prefers_run1 (by simp) Text.isSpace_blank h).cons
            prefers_sequence_nil)))
  have htype : Prefers (sequence [literal "const", many1 Text.isSpace,
        many1 isTypeChar, one isTypeEnd])
      ((("const" : Text) ++ ([' '] ++ (type.text ++ [' ']))) ++
        (name.text ++ ';' :: rest)) (name.text ++ ';' :: rest) := by
    have htail := fun c hc => isTypeChar_identifier type c
      (List.mem_cons_of_mem type.head hc)
    have hends : Prefers (sequence [many1 isTypeChar, one isTypeEnd])
        (type.text ++ ([' '] ++ (name.text ++ ';' :: rest)))
        (name.text ++ ';' :: rest) := by
      apply Prefers.of_eq
      rw [Identifier.text, List.cons_append, sequence_many1_one
        (isTypeChar_identifier type _ (List.mem_cons_self)).1]
      exact endsFrom_type rest htail name
    rw [List.append_assoc, List.append_assoc, List.append_assoc]
    exact (prefers_literal _ _).cons
      ((prefers_many1 (by simp) Text.isSpace_blank
        (type.stops_isSpace _)).cons hends)
  have hend : Prefers (sequence [optional (sequence [spaces, literal "=",
      many (· != ';')]), literal ";"]) (';' :: rest) rest := by
    have hvalue : sequence [spaces, literal "=", many (· != ';')]
        (';' :: rest) = [] :=
      sequence_spaces_eq_nil (Text.stops_cons (by decide) rest)
        (sequence_eq_nil (literal_eq_nil (a := '=') rfl (by simp)) _)
    exact (prefers_optional_self hvalue).cons
      ((prefers_literal (";" : Text) rest).cons prefers_sequence_nil)
  rw [htext]
  unfold Rule.first? constantRule
  simp only [Rule.run_bind]
  apply Rule.run_skip_of_prefers (hexternal _ (Text.stops_cons (by decide) _))
  apply Rule.run_capture_of_prefers htype.either
  apply Rule.run_capture_of_prefers
    (prefers_word name (Text.stops_cons (by decide) rest))
  apply Rule.run_skip_of_prefers hend
  rw [Rule.run_pure, Span.text_append, Span.text_append, trim_constType]

theorem typedefRule_text (type name : Identifier) :
    typedefRule.first? ((Statement.typedef type name).text ++ rest) =
      some (.typedef type.text name.text [], rest) := by
  have htext : (Statement.typedef type name).text ++ rest =
      ("typedef" : Text) ++ ([' '] ++ ((type.text ++ [' ']) ++
        (name.text ++ ';' :: rest))) := by
    simp only [Statement.text, inWords_cons_cons, inWords_singleton,
      List.append_assoc, List.cons_append, List.nil_append]
  have htypedef : Prefers (sequence [literal "typedef", spaces1])
      (("typedef" : Text) ++ ([' '] ++ ((type.text ++ [' ']) ++
        (name.text ++ ';' :: rest))))
      ((type.text ++ [' ']) ++ (name.text ++ ';' :: rest)) := by
    rw [List.append_assoc type.text]
    exact (prefers_literal _ _).cons ((prefers_run1 (by simp) Text.isSpace_blank
      (type.stops_isSpace _)).cons prefers_sequence_nil)
  have htype : Prefers (sequence [one Text.isWord, many isTypeChar,
        one isTypeEnd])
      ((type.text ++ [' ']) ++ (name.text ++ ';' :: rest))
      (name.text ++ ';' :: rest) := by
    have htail := fun c hc => isTypeChar_identifier type c
      (List.mem_cons_of_mem type.head hc)
    have hends : Prefers (sequence [many isTypeChar, one isTypeEnd])
        (type.tail ++ ([' '] ++ (name.text ++ ';' :: rest)))
        (name.text ++ ';' :: rest) := by
      apply Prefers.of_eq
      rw [sequence_many_one]
      exact endsFrom_type rest htail name
    rw [List.append_assoc, Identifier.text, List.cons_append]
    exact (prefers_one (Text.isWord_of_isIdent type.head_isIdent) _).cons hends
  have hdims : Prefers (repeated (sequence [literal "[", spaces,
      run1 Char.isDigit, spaces, literal "]", spaces]))
      (';' :: rest) (';' :: rest) :=
    prefers_repeated_stop
      (sequence_eq_nil (literal_eq_nil (a := '[') rfl (by simp)) _)
  have hspaces : Prefers spaces (';' :: rest) (';' :: rest) :=
    prefers_spaces_self (Text.stops_cons (by decide) rest)
  rw [htext]
  unfold Rule.first? typedefRule
  simp only [Rule.run_bind]
  apply Rule.run_skip_of_prefers htypedef
  apply Rule.run_capture_of_prefers htype
  apply Rule.run_skip_of_prefers
    (prefers_spaces_self (name.stops_isSpace _))
  apply Rule.run_capture_of_prefers
    (prefers_word name (Text.stops_cons (by decide) rest))
  apply Rule.run_skip_of_prefers hspaces
  apply Rule.run_capture_of_prefers hdims
  apply Rule.run_skip_of_prefers (prefers_literal (";" : Text) rest)
  rw [Rule.run_pure, Span.text_append, Span.text_append,
    Span.text_self, type.trim_text_blank]
  rfl

theorem handleRule_text (type name : Identifier) :
    (handleRule {}).first? ((Statement.handle type name).text ++ rest) =
      some (.handle type.text name.text, rest) := by
  have htext : (Statement.handle type name).text ++ rest =
      ("ODE_HANDLE_DECL" : Text) ++ '(' :: (type.text ++ ')' :: ' ' ::
        (name.text ++ ';' :: rest)) := by
    simp only [Statement.text, inWords_cons_cons, inWords_singleton,
      List.append_assoc, List.cons_append, List.nil_append]
  have hmarker : Prefers (sequence [literal "ODE_HANDLE_DECL", spaces,
        literal "(", spaces])
      (("ODE_HANDLE_DECL" : Text) ++ '(' :: (type.text ++ ')' :: ' ' ::
        (name.text ++ ';' :: rest)))
      (type.text ++ ')' :: ' ' :: (name.text ++ ';' :: rest)) :=
    (prefers_literal _ _).cons
      ((prefers_spaces_self (Text.stops_cons (by decide) _)).cons
        ((prefers_literal ("(" : Text) _).cons
          ((prefers_spaces_self (type.stops_isSpace _)).cons
            prefers_sequence_nil)))
  have hclose : Prefers (sequence [spaces, literal ")", spaces])
      (')' :: ' ' :: (name.text ++ ';' :: rest)) (name.text ++ ';' :: rest) :=
    (prefers_spaces_self (Text.stops_cons (by decide) _)).cons
      ((prefers_literal (")" : Text) _).cons
        ((prefers_run Text.isSpace_blank (name.stops_isSpace _)).cons
          prefers_sequence_nil))
  rw [htext]
  unfold Rule.first? handleRule
  simp only [Rule.run_bind]
  apply Rule.run_skip_of_prefers hmarker
  apply Rule.run_capture_of_prefers
    (prefers_word type (Text.stops_cons (by decide) _))
  apply Rule.run_skip_of_prefers hclose
  apply Rule.run_capture_of_prefers
    (prefers_word name (Text.stops_cons (by decide) rest))
  apply Rule.run_skip_of_prefers (prefers_semicolon rest)
  rw [Rule.run_pure, Span.text_append, Span.text_append]

/-! ## Prototypes -/

theorem isReturnTypeChar_identifier (i : Identifier) :
    ∀ c ∈ i.text, isReturnTypeChar c = true ∧ isReturnTypeEnd c = false := by
  intro c hc
  have hident := i.isIdent c hc
  constructor
  · simp [isReturnTypeChar, i.isWord c hc]
  · simp only [isReturnTypeEnd, Bool.or_eq_false_iff, beq_eq_false_iff_ne]
    exact ⟨⟨Text.ne_of_isIdent hident (by decide),
      Text.ne_of_isIdent hident (by decide)⟩,
      Text.ne_of_isIdent hident (by decide)⟩

/-- The return type could extend over the marker. -/
theorem returnType_ends (type name : Identifier) (t : Text) :
    sequence [one isReturnTypeStart, many isReturnTypeChar,
        one isReturnTypeEnd]
      ((type.text ++ [' ']) ++ (("ODE_API" : Text) ++
        ([' '] ++ (name.text ++ '(' :: t)))) =
      [name.text ++ '(' :: t,
        ("ODE_API" : Text) ++ ([' '] ++ (name.text ++ '(' :: t))] := by
  have htail := fun c hc => isReturnTypeChar_identifier type c
    (List.mem_cons_of_mem type.head hc)
  have hmarker : ∀ c ∈ ("ODE_API" : Text),
      isReturnTypeChar c = true ∧ isReturnTypeEnd c = false := by
    have hall : ("ODE_API" : Text).all
        (fun c => isReturnTypeChar c && !isReturnTypeEnd c) = true := rfl
    intro c hc
    simpa using List.all_eq_true.mp hall c hc
  have hstart : isReturnTypeStart type.head = true := by
    simp [isReturnTypeStart, Text.isWord_of_isIdent type.head_isIdent]
  rw [List.append_assoc, Identifier.text, List.cons_append, sequence_cons,
    one, if_pos hstart, List.flatMap_singleton, sequence_many_one]
  rw [List.singleton_append, List.singleton_append,
    endsFrom_word_end htail (by decide), endsFrom_word_end hmarker (by decide),
    endsFrom_word_stop (isReturnTypeChar_identifier name) (by decide)]

theorem Argument.mem_text (a : Argument) {c : Char} (h : c ∈ a.text) :
    Text.isIdent c = true ∨ c = ' ' ∨ c = '*' := by
  simp only [Argument.text, Argument.sigils, List.mem_append,
    List.mem_cons] at h
  rcases h with h | h | h | h
  · exact .inl (a.type.isIdent c h)
  · exact .inr (.inl h)
  · split at h
    · exact .inr (.inr (List.mem_singleton.mp h))
    · contradiction
  · exact .inl (a.name.isIdent c h)

theorem Argument.getLast?_text (a : Argument) {c : Char}
    (h : c ∈ a.text.getLast?) : Text.isIdent c = true := by
  have hsplit : a.text = (a.type.text ++ ' ' :: a.sigils) ++ a.name.text := by
    simp [Argument.text]
  rw [hsplit, List.getLast?_append_of_ne_nil _ a.name.text_ne_nil] at h
  exact a.name.isIdent c (List.mem_of_getLast? h)

theorem Argument.isPiece_text (a : Argument) : IsPiece a.text :=
  isPiece_of_identifier (by decide) a.type (fun _ => a.mem_text)
    fun _ => a.getLast?_text

theorem isPiece_args (args : List Argument) :
    ∀ p ∈ args.map Argument.text, IsPiece p := by
  intro p hp
  obtain ⟨a, _, rfl⟩ := List.mem_map.mp hp
  exact a.isPiece_text

theorem argsText_chars (args : List Argument) :
    ∀ c ∈ argsText args,
      Text.isIdent c = true ∨ c = ' ' ∨ c = '*' ∨ c = ',' := by
  intro c hc
  cases args with
  | nil => contradiction
  | cons a args =>
      have hlisted : c ∈ listed ((a :: args).map Argument.text) := by
        rw [listed_eq_commaed (by simp)]
        exact List.mem_cons_of_mem _ hc
      rcases mem_listed hlisted with h | h | ⟨p, hp, hc⟩
      · exact .inr (.inl h)
      · exact .inr (.inr (.inr h))
      · obtain ⟨b, _, rfl⟩ := List.mem_map.mp hp
        rcases b.mem_text hc with h | h | h
        · exact .inl h
        · exact .inr (.inl h)
        · exact .inr (.inr (.inl h))

theorem argsText_ends (args : List Argument) :
    (∀ c ∈ (argsText args).head?, Text.isSpace c = false) ∧
      ∀ c ∈ (argsText args).getLast?, Text.isSpace c = false := by
  cases args with
  | nil =>
      constructor
      · intro c hc
        contradiction
      · intro c hc
        contradiction
  | cons a args =>
      exact ⟨commaed_head _ a.isPiece_text,
        (commaed_last (isPiece_args (a :: args))).2⟩

theorem stops_argsText (args : List Argument) (t : Text) :
    Text.Stops Text.isSpace (argsText args ++ ')' :: t) := by
  intro c hc
  cases args with
  | nil =>
      rw [argsText, List.map_nil] at hc
      have hfirst : c = ')' := (Option.mem_some_iff.mp hc).symm
      rw [hfirst]
      decide
  | cons a args =>
      have hne : argsText (a :: args) ≠ [] :=
        (commaed_last (isPiece_args (a :: args))).1
      rw [List.head?_append_of_ne_nil _ hne] at hc
      exact (argsText_ends (a :: args)).1 c hc

/-- The arguments do not end before their closing parenthesis. -/
theorem argsEnd_eq_nil {y t : Text} (ms : List Matcher) (hne : y ≠ [])
    (hclose : ')' ∉ y) (hlast : ∀ c ∈ y.getLast?, Text.isSpace c = false) :
    sequence (spaces :: literal ")" :: ms) (y ++ t) = [] := by
  have hsome : y.dropWhile Text.isSpace ≠ [] := by
    intro hnil
    rw [List.dropWhile_eq_nil_iff] at hnil
    have hspace := hlast _ (List.getLast_mem_getLast? hne)
    rw [hnil _ (List.getLast_mem hne)] at hspace
    contradiction
  obtain ⟨c, z, hdrop⟩ := List.exists_cons_of_ne_nil hsome
  have hc : c ∈ y :=
    (List.dropWhile_sublist _).mem (hdrop ▸ List.mem_cons_self)
  have hhead : (c :: (z ++ t)).head? ≠ some ')' := by
    rw [List.head?_cons, ne_eq, Option.some.injEq]
    rintro rfl
    exact hclose hc
  rw [sequence_cons, spaces, Matcher.run, List.dropWhile_append, hdrop,
    List.flatMap_singleton]
  exact sequence_eq_nil (literal_eq_nil rfl hhead) ms

theorem functionRule_text (type name : Identifier) (args : List Argument) :
    (functionRule {}).first?
        ((Statement.function type name args).text ++ rest) =
      some (.function type.text name.text (argsText args), rest) := by
  have htext : (Statement.function type name args).text ++ rest =
      (type.text ++ [' ']) ++ (("ODE_API" : Text) ++ ([' '] ++
        (name.text ++ '(' :: (argsText args ++ ')' :: ';' :: rest)))) := by
    simp only [Statement.text, inWords_cons_cons, inWords_singleton,
      List.append_assoc, List.cons_append, List.nil_append]
  have hstart : Text.Stops Text.isSpace ((type.text ++ [' ']) ++
      (("ODE_API" : Text) ++ ([' '] ++
        (name.text ++ '(' :: (argsText args ++ ')' :: ';' :: rest))))) := by
    rw [List.append_assoc]
    exact type.stops_isSpace _
  have hrefused : sequence [literal "ODE_API", spaces1]
      (name.text ++ '(' :: (argsText args ++ ')' :: ';' :: rest)) = [] :=
    marker_eq_nil [] (by decide) name.isIdent (by decide) (by decide)
  have hmarker (t : Text) (h : Text.Stops Text.isSpace t) :
      Prefers (sequence [literal "ODE_API", spaces1])
        (("ODE_API" : Text) ++ ([' '] ++ t)) t :=
    (prefers_literal _ _).cons
      ((prefers_run1 (by simp) Text.isSpace_blank h).cons
        prefers_sequence_nil)
  have hopen : Prefers (sequence [spaces, literal "(", spaces])
      ('(' :: (argsText args ++ ')' :: ';' :: rest))
      (argsText args ++ ')' :: ';' :: rest) := by
    have hargs := stops_argsText args (';' :: rest)
    exact (prefers_spaces_self (Text.stops_cons (by decide) _)).cons
      ((prefers_literal ("(" : Text) _).cons
        ((prefers_spaces_self hargs).cons prefers_sequence_nil))
  have hend : Prefers (sequence [spaces, literal ")", spaces, literal ";"])
      (')' :: ';' :: rest) rest :=
    (prefers_spaces_self (Text.stops_cons (by decide) _)).cons
      ((prefers_literal (")" : Text) _).cons (prefers_semicolon rest))
  rw [htext]
  unfold Rule.first? functionRule
  simp only [Rule.run_bind]
  apply Rule.run_skip_of_prefers (prefers_spaces_self hstart)
  -- The longer return type is tried first and misses its marker.
  rw [Rule.run_capture_second (returnType_ends type name _)
    (Rule.run_skip_of_eq_nil hrefused)]
  apply Rule.run_skip_of_prefers (hmarker _ (name.stops_isSpace _))
  apply Rule.run_capture_of_prefers
    (prefers_word name (Text.stops_cons (by decide) _))
  apply Rule.run_skip_of_prefers hopen
  apply findSome?_fewest (by simp)
  · intro x y hxy hy
    apply Rule.run_skip_of_eq_nil
    apply argsEnd_eq_nil _ hy
    · intro hmem
      have hchar := argsText_chars args ')' (by simp [hxy, hmem])
      exact absurd hchar (by decide)
    · intro c hc
      apply (argsText_ends args).2
      rwa [hxy, List.getLast?_append_of_ne_nil _ hy]
  · apply Rule.run_skip_of_prefers hend
    rw [Rule.run_pure, Span.text_append, Span.text_append,
      Span.text_append, type.trim_text_blank]

/-! ## The rules at all statements -/

/-- What the rules read of a statement. -/
def Statement.declaration : Statement → Source.Declaration
  | .define name value => .define (("ODE_" : Text) ++ name.text) value.text
  | .constant type name => .constant (inWords ["const", type.text]) name.text
  | .typedef type name => .typedef type.text name.text []
  | .handle type name => .handle type.text name.text
  | .enum enumerators name =>
    .enum ((enumFrame name).compound (Text.trim (enumText enumerators)))
  | .function type name args =>
    .function type.text name.text (argsText args)

/-- A macro ends with its line, other statements end before the line does. -/
def Statement.remainder : Statement → Text → Text
  | .define _ _, rest => rest
  | _, rest => '\n' :: rest

/-- All rules before the one for prototypes refuse the text. -/
structure NotDeclared (t : Text) : Prop where
  define : (defineRule {}).first? t = none
  constant : (constantRule {}).first? t = none
  enum : Compound.read? "enum" t = none
  typedef : typedefRule.first? t = none
  handle : (handleRule {}).first? t = none
  struct : Compound.read? "struct" t = none

theorem notDeclared_of_head {c : Char} (hword : Text.isWord c = false)
    (hsign : c ≠ '#') (t : Text) : NotDeclared (c :: t) := by
  have hne {a : Char} (ha : Text.isWord a = true) :
      (c :: t).head? ≠ some a := by
    rw [List.head?_cons, ne_eq, Option.some.injEq]
    rintro rfl
    rw [ha] at hword
    contradiction
  constructor
  · exact defineRule_eq_none_of_head (by simpa using hsign)
  · exact constantRule_eq_none_of_head (hne (by decide))
  · exact Compound.read?_eq_none_of_head (a := 'e') rfl (hne (by decide))
      (hne (by decide)) (hne (by decide))
  · exact typedefRule_eq_none_of_head (hne (by decide))
  · exact handleRule_eq_none_of_head (hne (by decide))
  · exact Compound.read?_eq_none_of_head (a := 's') rfl (hne (by decide))
      (hne (by decide)) (hne (by decide))

/-- Whatever its type is called, a prototype is nothing else. -/
theorem notDeclared_function (type name : Identifier)
    (args : List Argument) :
    NotDeclared ((Statement.function type name args).text ++ rest) := by
  have htext : (Statement.function type name args).text ++ rest =
      (type.text ++ ([' '] ++ (("ODE_API" : Text) ++ ([' '] ++
        (name.text ++ ['(']))))) ++ (argsText args ++ ')' :: ';' :: rest) := by
    simp only [Statement.text, inWords_cons_cons, inWords_singleton,
      List.append_assoc, List.cons_append, List.nil_append]
  have hmark : Text.FirstOutside isTypeChar
      ((Statement.function type name args).text ++ rest) '(' := by
    have hblank : ∀ c ∈ [' '], isTypeChar c = true :=
      List.forall_mem_singleton.mpr rfl
    have hmarker : ∀ c ∈ ("ODE_API" : Text), isTypeChar c = true :=
      List.all_eq_true.mp rfl
    rw [htext]
    simp only [List.append_assoc _ _ (argsText args ++ ')' :: ';' :: rest)]
    exact (((((Text.firstOutside_cons (by decide) _).append
      fun c hc => (isTypeChar_identifier name c hc).1).append hblank).append
      hmarker).append hblank).append
        fun c hc => (isTypeChar_identifier type c hc).1
  have hread (keyword : Text) (h : keyword.all Text.isWord = true) :
      Compound.read? keyword
        ((Statement.function type name args).text ++ rest) = none := by
    rw [htext]
    apply Compound.read?_eq_none h
    · exact ⟨'(', by simp, by decide⟩
    · have htype : '\x7b' ∉ type.text := type.notMem (by decide)
      have hname : '\x7b' ∉ name.text := name.notMem (by decide)
      simp [htype, hname]
  have hfirst : ((Statement.function type name args).text ++ rest).head? ≠
      some '#' := by
    rw [htext]
    simpa [Identifier.text] using type.head_ne (by decide)
  have hhandle : sequence [literal "ODE_HANDLE_DECL", spaces, literal "(",
      spaces] ((Statement.function type name args).text ++ rest) = [] := by
    have hcall : (Statement.function type name args).text ++ rest =
        type.text ++ ' ' :: 'O' :: (("DE_API" : Text) ++ ([' '] ++
          (name.text ++ '(' :: (argsText args ++ ')' :: ';' :: rest)))) := by
      rw [htext]
      simp only [List.append_assoc, List.cons_append, List.nil_append]
      rfl
    rw [hcall]
    exact macroCall_eq_nil [spaces] (by decide) type.isIdent (by decide)
      (by decide)
  constructor
  · exact defineRule_eq_none_of_head hfirst
  · exact constantRule_eq_none hmark (by decide) (by decide)
  · exact hread "enum" (by decide)
  · exact typedefRule_eq_none hmark (by decide) (by decide)
  · rw [handleRule, Rule.first?, Rule.run_bind, Rule.run_skip_of_eq_nil hhandle]
  · exact hread "struct" (by decide)

/-- The first rule that applies at a statement reads it. -/
theorem Statement.rules_text (s : Statement) {behind : Text}
    (hbehind : ∀ c ∈ behind.head?, c = '\n') :
    (rules {}).findSome? (· ⟨behind, s.text ++ '\n' :: rest⟩) =
      some (.declared s.declaration, s.remainder rest) := by
  cases s with
  | define name value =>
      simp only [rules, List.cons_append, List.findSome?_cons, declaredBy,
        defineRule_text, Option.map_some]
      rfl
  | constant type name =>
      have hread := constantRule_text ('\n' :: rest) type name
      have hfirst : ((Statement.constant type name).text ++
          '\n' :: rest).head? = some 'e' :=
        rfl
      generalize (Statement.constant type name).text ++ '\n' :: rest = x
        at hread hfirst ⊢
      have hdefine : (defineRule {}).first? x = none :=
        defineRule_eq_none_of_head (by simp [hfirst])
      simp only [rules, List.cons_append, List.findSome?_cons, declaredBy,
        hdefine, Option.map_none, hread, Option.map_some]
      rfl
  | typedef type name =>
      have hread := typedefRule_text ('\n' :: rest) type name
      have hfirst : ((Statement.typedef type name).text ++
          '\n' :: rest).head? = some 't' :=
        rfl
      have henum : Compound.read? "enum"
          ((Statement.typedef type name).text ++ '\n' :: rest) = none := by
        apply Compound.read?_eq_none (by decide)
        · exact ⟨';', by simp [Statement.text], by decide⟩
        · have htype : '\x7b' ∉ type.text := type.notMem (by decide)
          have hname : '\x7b' ∉ name.text := name.notMem (by decide)
          simp [Statement.text, inWords_cons_cons, inWords_singleton, htype,
            hname]
      generalize (Statement.typedef type name).text ++ '\n' :: rest = x
        at hread hfirst henum ⊢
      have hdefine : (defineRule {}).first? x = none :=
        defineRule_eq_none_of_head (by simp [hfirst])
      have hconstant : (constantRule {}).first? x = none :=
        constantRule_eq_none_of_head (by simp [hfirst])
      simp only [rules, List.cons_append, List.findSome?_cons, declaredBy,
        hdefine, hconstant, henum, Option.map_none, hread, Option.map_some]
      rfl
  | handle type name =>
      have hread := handleRule_text ('\n' :: rest) type name
      have hfirst : ((Statement.handle type name).text ++
          '\n' :: rest).head? = some 'O' :=
        rfl
      generalize (Statement.handle type name).text ++ '\n' :: rest = x
        at hread hfirst ⊢
      have hdefine : (defineRule {}).first? x = none :=
        defineRule_eq_none_of_head (by simp [hfirst])
      have hconstant : (constantRule {}).first? x = none :=
        constantRule_eq_none_of_head (by simp [hfirst])
      have henum : Compound.read? "enum" x = none :=
        Compound.read?_eq_none_of_head (a := 'e') rfl (by simp [hfirst])
          (by simp [hfirst]) (by simp [hfirst])
      have htypedef : typedefRule.first? x = none :=
        typedefRule_eq_none_of_head (by simp [hfirst])
      simp only [rules, List.cons_append, List.findSome?_cons, declaredBy,
        hdefine, hconstant, henum, htypedef, Option.map_none, hread,
        Option.map_some]
      rfl
  | enum enumerators name =>
      have hread := (enumFrame name).read?_text "enum" ('\n' :: rest)
        (.inl rfl) (braced_enumText enumerators)
      have hfirst : ((enumFrame name).text "enum" (enumText enumerators) ++
          '\n' :: rest).head? = some 't' :=
        rfl
      rw [Statement.text]
      generalize (enumFrame name).text "enum" (enumText enumerators) ++
        '\n' :: rest = x at hread hfirst ⊢
      have hdefine : (defineRule {}).first? x = none :=
        defineRule_eq_none_of_head (by simp [hfirst])
      have hconstant : (constantRule {}).first? x = none :=
        constantRule_eq_none_of_head (by simp [hfirst])
      simp only [rules, List.cons_append, List.findSome?_cons, declaredBy,
        hdefine, hconstant, Option.map_none, hread, Option.map_some]
      rfl
  | function type name args =>
      have hread := functionRule_text ('\n' :: rest) type name args
      have hother := notDeclared_function ('\n' :: rest) type name args
      have hline :
          (Cursor.mk behind ((Statement.function type name args).text ++
            '\n' :: rest)).atLineStart = true := by
        unfold Cursor.atLineStart
        cases behind with
        | nil => rfl
        | cons c behind => simpa using hbehind c rfl
      simp only [rules, List.cons_append, List.findSome?_cons, declaredBy,
        hother.define, hother.constant, hother.enum, hother.typedef,
        hother.handle, hother.struct, Option.map_none, hline, hread,
        Option.map_some]
      rfl

end Bindery.Written
