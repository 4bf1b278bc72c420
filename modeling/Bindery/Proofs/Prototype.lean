import Bindery.Proofs.Brackets
import Bindery.Proofs.DeclaredNames

/-!
# Where the arguments of a prototype end

The arguments of a prototype extend to the first closing parenthesis that a
semicolon follows.  That parenthesis need not be the one that matches the
opening one: a comment among the arguments may contain a parenthesis and a
semicolon, and behind the arguments there may be something other than a
semicolon, such as the body of a function.  The parenthesis is the matching
one exactly if the matching one exists, is followed by a semicolon, and no
closing parenthesis before it is.
-/

namespace Bindery.Source

open Matcher

/-- A semicolon comes next, white space apart. -/
def semicolonNext (t : Text) : Bool := (Text.trimStart t).head? == some ';'

/-- How a prototype lies in a text: `lead` ends with the name, `inside` stands
between the parentheses, and the closing parenthesis is the first one that a
semicolon follows. -/
structure PrototypeSplit (t name args rest lead inside tail : Text) :
    Prop where
  text : t = lead ++ '(' :: (inside ++ ')' :: tail)
  lead_name : ∃ before blanks, lead = before ++ name ++ blanks ∧
    ∀ c ∈ blanks, Text.isSpace c = true
  args_eq : args = Text.trim inside
  semicolon : Text.trimStart tail = ';' :: rest
  first : ∀ x y, inside = x ++ ')' :: y → semicolonNext y = false

/-! ## The first parenthesis that a semicolon follows -/

/-- What comes next is decided by the first part of a text, unless that is
all white space. -/
theorem semicolonNext_append (y t : Text) :
    semicolonNext (y ++ t) =
      if (Text.trimStart y).isEmpty then semicolonNext t
      else semicolonNext y := by
  unfold semicolonNext Text.trimStart
  rw [List.dropWhile_append]
  split
  · rfl
  · next hne =>
    rw [List.head?_append]
    cases hy : List.dropWhile Text.isSpace y with
    | nil => simp [hy] at hne
    | cons c y' => rfl

/-- In front of a closing parenthesis no semicolon comes next, unless it
already does without what follows. -/
theorem semicolonNext_append_closing (y t : Text) :
    semicolonNext (y ++ ')' :: t) = semicolonNext y := by
  rw [semicolonNext_append]
  split
  · next hempty =>
    rw [List.isEmpty_iff] at hempty
    unfold semicolonNext
    rw [hempty, Text.trimStart_cons (by decide)]
    rfl
  · rfl

theorem mem_prototypeEnd {t rest : Text} :
    rest ∈ sequence [spaces, literal ")", spaces, literal ";"] t ↔
      ∃ tail, Text.trimStart t = ')' :: tail ∧
        Text.trimStart tail = ';' :: rest := by
  simp only [mem_sequence_cons, mem_sequence_nil, mem_literal, spaces,
    mem_run]
  constructor
  · rintro ⟨t1, rfl, t2, h2, t3, rfl, t4, h4, rfl⟩
    exact ⟨t2, h2, h4⟩
  · rintro ⟨tail, htail, hrest⟩
    exact ⟨_, rfl, tail, htail, _, rfl, rest, hrest, rfl⟩

/-- The arguments are not followed by white space, since a shorter text would
do, and inside them no parenthesis is followed by a semicolon. -/
theorem argsEnd {t args end' : Text} (hend : Text.trimStart end' = ')' :: t)
    (hshortest : ∀ x y, args = x ++ y → y ≠ [] →
      ∀ tail, Text.trimStart (y ++ end') = ')' :: tail →
        semicolonNext tail = false)
    (hsemicolon : semicolonNext t = true) :
    (∀ c ∈ args.getLast?, Text.isSpace c = false) ∧
      ∀ x y, args = x ++ ')' :: y → semicolonNext (y ++ end') = false := by
  constructor
  · intro c hc
    by_contra hspace
    rw [Bool.not_eq_false] at hspace
    obtain ⟨x, rfl⟩ := List.getLast?_eq_some_iff.mp hc
    have hfalse := hshortest x [c] rfl (by simp) t (by
      rw [Text.trimStart_append (by simpa using hspace)]
      exact hend)
    rw [hsemicolon] at hfalse
    contradiction
  · rintro x y rfl
    apply hshortest x (')' :: y) rfl (by simp)
    rw [List.cons_append, Text.trimStart_cons (by decide)]

/-- A character other than white space, in a text with white space around it,
lies in the text. -/
theorem split_between_spaces {blanks t blanks' x y : Text} {c : Char}
    (hblanks : ∀ a ∈ blanks, Text.isSpace a = true)
    (hblanks' : ∀ a ∈ blanks', Text.isSpace a = true)
    (hc : Text.isSpace c = false)
    (h : blanks ++ (t ++ blanks') = x ++ c :: y) :
    ∃ x' y', t = x' ++ c :: y' ∧ y = y' ++ blanks' := by
  have hnot : c ∉ blanks := by
    intro hmem
    rw [hblanks c hmem] at hc
    contradiction
  have hnot' : c ∉ blanks' := by
    intro hmem
    rw [hblanks' c hmem] at hc
    contradiction
  have hinner : ∃ x', t ++ blanks' = x' ++ c :: y := by
    rcases List.append_eq_append_iff.mp h with ⟨x', _, hx'⟩ | ⟨z, hz, hz'⟩
    · exact ⟨x', hx'⟩
    · cases z with
      | nil => exact ⟨[], hz'.symm⟩
      | cons a z =>
          rw [List.cons_append, List.cons.injEq] at hz'
          rw [hz, ← hz'.1] at hnot
          simp at hnot
  obtain ⟨x', hx'⟩ := hinner
  rcases List.append_eq_append_iff.mp hx' with ⟨z, _, hz⟩ | ⟨z, hz, hz'⟩
  · rw [hz] at hnot'
    simp at hnot'
  · cases z with
    | nil =>
        rw [List.nil_append] at hz'
        rw [← hz'] at hnot'
        simp at hnot'
    | cons a z =>
        rw [List.cons_append, List.cons.injEq] at hz'
        obtain ⟨rfl, rfl⟩ := hz'
        exact ⟨x', z, hz, rfl⟩

theorem prototypeSplit_of_functionRule {d : Dialect}
    {t rest returnType name args : Text}
    (h : (Declaration.functionRule d).first? t =
      some (.function returnType name args, rest)) :
    ∃ lead inside tail, PrototypeSplit t name args rest lead inside tail := by
  simp only [Declaration.functionRule, Rule.first?, Rule.run_bind] at h
  obtain ⟨t1, h1, h⟩ := Rule.of_run_skip h
  obtain ⟨t2, h2, h⟩ := Rule.of_run_capture h
  obtain ⟨t3, h3, h⟩ := Rule.of_run_skip h
  obtain ⟨t4, h4, h⟩ := Rule.of_run_capture h
  obtain ⟨t5, h5, h⟩ := Rule.of_run_skip h
  obtain ⟨part, end', rfl, hend, hshortest⟩ := of_findSome?_fewest h
  obtain ⟨t7, h7, hvalue⟩ := Rule.of_run_skip hend
  simp only [Rule.run_pure, Option.some.injEq, Prod.mk.injEq,
    Declaration.function.injEq, Span.text, Text.upTo_append] at hvalue
  obtain ⟨⟨_, hname, hargs⟩, rfl⟩ := hvalue
  subst part
  -- The text in front of the name.
  obtain ⟨blanks1, _, ht⟩ : Text.Takes Text.isSpace t t1 := by
    rw [mem_run.mp h1]
    exact Text.takes_dropWhile _ t
  obtain ⟨before, hbefore⟩ : ∃ before, t1 = before ++ t3 := by
    simp only [mem_sequence_cons, mem_sequence_nil, mem_one, mem_many,
      mem_literal, spaces1, mem_run1] at h2 h3
    obtain ⟨u1, ⟨a, _, rfl⟩, u2, ⟨part, _, rfl⟩, u3, ⟨b, _, rfl⟩, rfl⟩ := h2
    obtain ⟨v1, rfl, v2, ⟨e, v3, rfl, _, rfl⟩, rfl⟩ := h3
    obtain ⟨blanks, _, hblanks⟩ := Text.takes_dropWhile Text.isSpace v3
    refine ⟨a :: (part ++ b :: (d.apiMarker ++ e :: blanks)), ?_⟩
    conv_lhs => rw [hblanks]
    simp
  -- The name and the opening parenthesis.
  obtain ⟨namePart, hnamePart⟩ : ∃ namePart, t3 = namePart ++ t4 := by
    obtain ⟨a, tail, rfl, _, rfl⟩ := mem_run1.mp h4
    obtain ⟨part, _, hpart⟩ := Text.takes_dropWhile Text.isWord tail
    exact ⟨a :: part, by rw [List.cons_append, ← hpart]⟩
  subst t3
  rw [Text.upTo_append] at hname
  subst namePart
  simp only [mem_sequence_cons, mem_sequence_nil, mem_literal, spaces,
    mem_run] at h5
  obtain ⟨u1, rfl, after, hopen, u2, rfl, hstart⟩ := h5
  obtain ⟨blanks2, hblanks2, ht4⟩ := Text.takes_dropWhile Text.isSpace t4
  obtain ⟨blanks3, hblanks3, hafter⟩ :=
    Text.takes_dropWhile Text.isSpace after
  -- The closing parenthesis.
  obtain ⟨tail, htail, hsemicolon⟩ := mem_prototypeEnd.mp h7
  obtain ⟨blanks4, hblanks4, hend'⟩ :=
    Text.takes_dropWhile Text.isSpace end'
  have hshortest' : ∀ x y, args = x ++ y → y ≠ [] →
      ∀ tail, Text.trimStart (y ++ end') = ')' :: tail →
        semicolonNext tail = false := by
    intro x y hxy hy tail' htail'
    have hnone := hshortest x y hxy hy
    by_contra hnext
    rw [Bool.not_eq_false, semicolonNext, beq_iff_eq,
      List.head?_eq_some_iff] at hnext
    obtain ⟨rest', hrest'⟩ := hnext
    have hmem := mem_prototypeEnd.mpr ⟨tail', htail', hrest'⟩
    have hvalue := List.findSome?_eq_none_iff.mp hnone rest' hmem
    simp at hvalue
  obtain ⟨hlast, hfirst⟩ := argsEnd htail hshortest' (by
    rw [semicolonNext, hsemicolon]
    rfl)
  have hhead : ∀ c ∈ args.head?, Text.isSpace c = false := by
    intro c hc
    cases args with
    | nil => simp at hc
    | cons a args =>
        rw [List.head?_cons, Option.mem_some_iff] at hc
        subst c
        have hnot := List.head?_dropWhile_not Text.isSpace after
        rw [← hstart] at hnot
        simpa using hnot
  refine ⟨blanks1 ++ before ++ name ++ blanks2,
    blanks3 ++ (args ++ blanks4), tail, ?_, ?_, ?_, hsemicolon, ?_⟩
  · have hclose : end' = blanks4 ++ ')' :: tail := by
      rw [← htail]
      exact hend'
    rw [ht, hbefore, ht4, hopen, hafter, ← hstart, hclose]
    simp
  · exact ⟨blanks1 ++ before, blanks2, rfl, hblanks2⟩
  · exact (Text.trim_eq_of_ends hblanks3 hblanks4 hhead hlast).symm
  · intro x y hxy
    obtain ⟨x', y', hargs, rfl⟩ := split_between_spaces hblanks3 hblanks4
      (by decide) hxy
    have hclose : end' = blanks4 ++ ')' :: tail := by
      rw [← htail]
      exact hend'
    have hnext := hfirst x' y' hargs
    rw [hclose, ← List.append_assoc, semicolonNext_append_closing] at hnext
    exact hnext

/-! ## The matching parenthesis -/

namespace PrototypeSplit

variable {t name args rest lead inside tail : Text}

theorem semicolonNext_tail
    (h : PrototypeSplit t name args rest lead inside tail) :
    semicolonNext tail = true := by
  rw [semicolonNext, h.semicolon]
  rfl

/-- A parenthesis that a semicolon follows, but none before it, is the one
where the arguments end. -/
theorem inside_unique
    (h : PrototypeSplit t name args rest lead inside tail)
    {inside' tail' : Text}
    (hsplit : inside ++ ')' :: tail = inside' ++ ')' :: tail')
    (hsemicolon : semicolonNext tail' = true)
    (hfirst : ∀ x y, inside' = x ++ ')' :: y → semicolonNext y = false) :
    inside = inside' ∧ tail = tail' := by
  rcases List.append_eq_append_iff.mp hsplit with ⟨z, hz, hz'⟩ | ⟨z, hz, hz'⟩
  · cases z with
    | nil =>
        rw [List.append_nil] at hz
        rw [List.nil_append, List.cons.injEq] at hz'
        exact ⟨hz.symm, hz'.2⟩
    | cons c z =>
        rw [List.cons_append, List.cons.injEq] at hz'
        obtain ⟨rfl, rfl⟩ := hz'
        have hnext := hfirst inside z hz
        have htail := h.semicolonNext_tail
        rw [semicolonNext_append_closing, hnext] at htail
        contradiction
  · cases z with
    | nil =>
        rw [List.append_nil] at hz
        rw [List.nil_append, List.cons.injEq] at hz'
        exact ⟨hz, hz'.2.symm⟩
    | cons c z =>
        rw [List.cons_append, List.cons.injEq] at hz'
        obtain ⟨rfl, rfl⟩ := hz'
        have hnext := h.first inside' z hz
        rw [semicolonNext_append_closing, hnext] at hsemicolon
        contradiction

theorem enclosed_iff (h : PrototypeSplit t name args rest lead inside tail) :
    enclosed '(' (inside ++ ')' :: tail) = some (inside, tail) ↔
      ∃ inside' tail',
        enclosed '(' (inside ++ ')' :: tail) = some (inside', tail') ∧
        semicolonNext tail' = true ∧
        ∀ x y, inside' = x ++ ')' :: y → semicolonNext y = false := by
  constructor
  · intro hmatch
    exact ⟨inside, tail, hmatch, h.semicolonNext_tail, h.first⟩
  · rintro ⟨inside', tail', hmatch, hsemicolon, hfirst⟩
    obtain ⟨hsplit, _⟩ := (enclosed_eq_some_iff rfl).mp hmatch
    obtain ⟨rfl, rfl⟩ := h.inside_unique hsplit hsemicolon hfirst
    exact hmatch

/-- The arguments are what stands between the parentheses, without the white
space around it. -/
theorem depthAfter_args
    (h : PrototypeSplit t name args rest lead inside tail)
    (hbalanced : Balanced '(' ')' inside) :
    depthAfter '(' ')' 0 (lex args) = some 0 := by
  have hsplit := Text.trim_split inside
  obtain ⟨blanks, blanks', hblanks, hblanks', hinside⟩ := hsplit
  rw [← h.args_eq] at hinside
  have hdepth := hbalanced.depth
  rw [hinside, lex_append_of_notMem (slash_notMem_spaces hblanks),
    depthAfter_append,
    depthAfter_spaces (by decide) (by decide) hblanks] at hdepth
  unfold lex at hdepth ⊢
  rw [Option.bind_some, depthAfter_lexFrom_append_spaces (by decide)
    (by decide) hblanks'] at hdepth
  exact hdepth

/-- If the arguments end at the matching parenthesis, another parenthesis
that opens among them closes among them and no semicolon follows it, so it
does not belong to a prototype. -/
theorem closes_among_args
    (h : PrototypeSplit t name args rest lead inside tail)
    (hbalanced : Balanced '(' ')' inside) {x y : Text}
    (hopen : inside = x ++ '(' :: y) (hx : ∀ l ∈ lex x, l.closed = true) :
    ∃ inside' tail', y = inside' ++ ')' :: tail' ∧
      enclosed '(' (y ++ ')' :: tail) =
        some (inside', tail' ++ ')' :: tail) ∧
      semicolonNext (tail' ++ ')' :: tail) = false := by
  have hresumes : ResumesCode ['('] := by
    intro c hc
    rw [List.head?_cons, Option.mem_some_iff] at hc
    subst c
    decide
  rw [hopen] at hbalanced
  obtain ⟨inside', tail', hy, hmatch⟩ :=
    hbalanced.exists_enclosed rfl hresumes (by decide) hx (')' :: tail)
  refine ⟨inside', tail', hy, hmatch, ?_⟩
  rw [semicolonNext_append_closing]
  apply h.first (x ++ '(' :: inside')
  rw [hopen, hy]
  simp

end PrototypeSplit

theorem functionRule_of_next {d : Dialect} {c : Cursor}
    {found : Found Declaration c} {returnType name args : Text}
    (h : Declaration.next d c = some found)
    (hpiece : found.piece = .declared (.function returnType name args)) :
    (Declaration.functionRule d).first? c.ahead =
      some (.function returnType name args, found.rest) := by
  cases Declaration.readAt_of_next h hpiece with
  | define h =>
      obtain ⟨_, _, heq, _⟩ := Declaration.defineRule_kind h
      contradiction
  | constant h =>
      obtain ⟨_, _, heq, _⟩ := Declaration.constantRule_kind h
      contradiction
  | typedef h =>
      obtain ⟨_, _, _, heq, _⟩ := Declaration.typedefRule_kind h
      contradiction
  | handle h =>
      obtain ⟨_, _, heq, _⟩ := Declaration.handleRule_kind h
      contradiction
  | function _ h => exact h

/-- In a text behind an opening parenthesis, the matching one exists, a
semicolon follows it, and none follows a closing parenthesis before it. -/
def ClosesFirst (after : Text) : Prop :=
  ∃ inside tail, enclosed '(' after = some (inside, tail) ∧
    semicolonNext tail = true ∧
    ∀ x y, inside = x ++ ')' :: y → semicolonNext y = false

/-- Every parenthesis that opens in `inside`, outside comments, closes there
without a semicolon behind it. -/
def NoFurtherPrototype (inside tail : Text) : Prop :=
  ∀ x y, inside = x ++ '(' :: y → (∀ l ∈ lex x, l.closed = true) →
    ∃ inside' tail', y = inside' ++ ')' :: tail' ∧
      enclosed '(' (y ++ ')' :: tail) =
        some (inside', tail' ++ ')' :: tail) ∧
      semicolonNext (tail' ++ ')' :: tail) = false

/-- The parenthesis at which the arguments of a prototype end is the matching
one exactly if the matching one is the first with a semicolon behind it.  In
that case the arguments are balanced and no other prototype starts in
them. -/
theorem Declaration.function_ends_at_match_iff {d : Dialect} {c : Cursor}
    {found : Found Declaration c} {returnType name args : Text}
    (h : Declaration.next d c = some found)
    (hpiece : found.piece = .declared (.function returnType name args)) :
    ∃ lead inside tail,
      PrototypeSplit c.ahead name args found.rest lead inside tail ∧
      (matchingDelimiter c.ahead (Text.utf8Size lead) =
          some (Text.utf8Size (lead ++ '(' :: inside)) ↔
        ClosesFirst (inside ++ ')' :: tail)) ∧
      (ClosesFirst (inside ++ ')' :: tail) →
        depthAfter '(' ')' 0 (lex args) = some 0 ∧
          NoFurtherPrototype inside tail) := by
  obtain ⟨lead, inside, tail, hsplit⟩ :=
    prototypeSplit_of_functionRule (functionRule_of_next h hpiece)
  refine ⟨lead, inside, tail, hsplit, ?_, ?_⟩
  · rw [hsplit.text, matchingDelimiter_eq_some_iff rfl]
    exact hsplit.enclosed_iff
  · intro hcloses
    have hmatch := hsplit.enclosed_iff.mpr hcloses
    obtain ⟨_, hbalanced⟩ := (enclosed_eq_some_iff rfl).mp hmatch
    refine ⟨hsplit.depthAfter_args hbalanced, ?_⟩
    intro x y hopen hx
    exact hsplit.closes_among_args hbalanced hopen hx

/-- Nested parentheses, and one in a comment, leave the end of the arguments
where it should be. -/
theorem Declaration.function_ends_at_match_nested :
    let t : Text := "int ODE_API f(int (*a)(int) /* :) */, int b);"
    let args : Text := "int (*a)(int) /* :) */, int b"
    ∃ found : Found Declaration (.start t),
      Declaration.next {} (.start t) = some found ∧
      found.piece = .declared (.function "int" "f" args) ∧
      ∃ lead inside tail,
        PrototypeSplit t "f" args found.rest lead inside tail ∧
        (matchingDelimiter t (Text.utf8Size lead) =
            some (Text.utf8Size (lead ++ '(' :: inside)) ↔
          ClosesFirst (inside ++ ')' :: tail)) := by
  intro t args
  obtain ⟨found, hfound⟩ : ∃ found, Declaration.next {} (.start t) =
      some found := by
    apply Option.isSome_iff_exists.mp
    decide +kernel
  have hpiece : found.piece = .declared (.function "int" "f" args) := by
    have hmap : (Declaration.next {} (.start t)).map Found.piece =
        some (.declared (.function "int" "f" args)) := by
      decide +kernel
    rw [hfound, Option.map_some, Option.some.injEq] at hmap
    exact hmap
  obtain ⟨lead, inside, tail, hsplit, hiff, _⟩ :=
    Declaration.function_ends_at_match_iff hfound hpiece
  exact ⟨found, hfound, hpiece, lead, inside, tail, hsplit, hiff⟩

/-- A semicolon in a comment ends the arguments early: they reach to a
parenthesis in the comment, while the matching one comes later. -/
theorem Declaration.function_ends_in_comment :
    let t : Text := "int ODE_API f(int a /* (x); */, int b);"
    (Declaration.next {} (.start t)).map Found.piece =
        some (.declared (.function "int" "f" "int a /* (x")) ∧
      matchingDelimiter t 13 = some 37 := by
  decide +kernel

end Bindery.Source
