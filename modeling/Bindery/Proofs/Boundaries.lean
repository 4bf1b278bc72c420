import Bindery.Proofs.DeclaredNames

/-!
# Where rules end

What a rule leaves over is an end of the text that it was given, and it does
not begin inside an identifier: a rule stops behind a semicolon, a line feed,
white space or the end of a comment, or in front of a line feed or of the end
of the text.  The matchers before the last one of a rule only have to leave
over an end of the text; the boundary is the work of the last one.
-/

namespace Bindery

namespace Text

/-- `rest` is an end of `t`, and no identifier runs across its beginning. -/
structure BreaksAt (t rest : Text) : Prop where
  suffix : rest <:+ t
  boundary : Stops isIdent rest ∨
    ∃ taken c, isIdent c = false ∧ t = taken ++ c :: rest

namespace BreaksAt

variable {t mid rest : Text}

theorem of_stops (h : rest <:+ t) (hstops : Stops isIdent rest) :
    BreaksAt t rest :=
  ⟨h, .inl hstops⟩

theorem of_char (taken : Text) {c : Char} (hc : isIdent c = false) :
    BreaksAt (taken ++ c :: rest) rest where
  suffix := ⟨taken ++ [c], by simp⟩
  boundary := .inr ⟨taken, c, hc, rfl⟩

theorem of_suffix (h : BreaksAt mid rest) (hmid : mid <:+ t) :
    BreaksAt t rest where
  suffix := h.suffix.trans hmid
  boundary := by
    rcases h.boundary with hstops | ⟨taken, c, hc, rfl⟩
    · exact .inl hstops
    · obtain ⟨before, rfl⟩ := hmid
      exact .inr ⟨before ++ taken, c, hc, by simp⟩

end BreaksAt

theorem Takes.suffix {p : Char → Bool} {t rest : Text}
    (h : Takes p t rest) : rest <:+ t := by
  obtain ⟨part, _, rfl⟩ := h
  exact List.suffix_append part rest

/-- The parts around a mark and the mark make up the text. -/
theorem eq_of_cut? {mark t before rest : Text}
    (h : cut? mark t = some (before, rest)) : t = before ++ (mark ++ rest) := by
  induction t generalizing before with
  | nil =>
      obtain ⟨rest', hrest, heq⟩ := Option.map_eq_some_iff.mp h
      simp only [Prod.mk.injEq] at heq
      rw [← heq.1, ← heq.2, List.nil_append]
      exact after?_eq_some_iff.mp hrest
  | cons c t ih =>
      rw [cut?] at h
      split at h
      · next rest' hrest =>
        simp only [Option.some.injEq, Prod.mk.injEq] at h
        rw [← h.1, ← h.2, List.nil_append]
        exact after?_eq_some_iff.mp hrest
      · obtain ⟨⟨before', rest'⟩, hcut, heq⟩ := Option.map_eq_some_iff.mp h
        simp only [Prod.mk.injEq] at heq
        rw [heq.2] at hcut
        rw [← heq.1, List.cons_append, ← ih hcut]

theorem isIdent_of_isSpace {c : Char} (h : isSpace c = true) :
    isIdent c = false := by
  by_contra hident
  rw [Bool.not_eq_false] at hident
  rw [isSpace_of_isIdent hident] at h
  contradiction

end Text

namespace Matcher

/-- Every remainder of the matcher stands in the relation to the text. -/
def Leaves (R : Text → Text → Prop) (m : Matcher) : Prop :=
  ∀ t, ∀ rest ∈ m t, R t rest

/-- The matcher leaves over an end of the text. -/
def Cuts (m : Matcher) : Prop := m.Leaves fun t rest => rest <:+ t

/-- The matcher leaves over an end of the text that does not begin inside an
identifier. -/
def Breaks (m : Matcher) : Prop := m.Leaves Text.BreaksAt

variable {p : Char → Bool} {m n : Matcher} {ms : List Matcher}

/-! ## Remainders are ends of the text -/

@[simp] theorem cuts_one : Cuts (one p) := by
  intro t rest h
  obtain ⟨c, _, rfl⟩ := mem_one.mp h
  exact List.suffix_cons c rest

@[simp] theorem cuts_literal {w : Text} : Cuts (literal w) := by
  intro t rest h
  rw [mem_literal.mp h]
  exact List.suffix_append w rest

@[simp] theorem cuts_many : Cuts (many p) :=
  fun _ _ h => (mem_many.mp h).suffix

@[simp] theorem cuts_many1 : Cuts (many1 p) := by
  intro t rest h
  obtain ⟨c, tail, rfl, _, htail⟩ := mem_many1.mp h
  exact htail.suffix.trans (List.suffix_cons c tail)

@[simp] theorem cuts_run : Cuts (run p) := by
  intro t rest h
  rw [mem_run.mp h]
  exact List.dropWhile_suffix p

@[simp] theorem cuts_run1 : Cuts (run1 p) := by
  intro t rest h
  obtain ⟨c, tail, rfl, _, rfl⟩ := mem_run1.mp h
  exact (List.dropWhile_suffix p).trans (List.suffix_cons c tail)

theorem mem_textEnd {t rest : Text} :
    rest ∈ textEnd t ↔ t = [] ∧ rest = [] := by
  cases t with
  | nil => simp [textEnd]
  | cons c t => simp [textEnd]

@[simp] theorem cuts_wordEnd : Cuts wordEnd := by
  intro t rest h
  cases t with
  | nil => exact List.mem_singleton.mp h ▸ List.suffix_rfl
  | cons c t =>
      rw [wordEnd] at h
      split at h
      · contradiction
      · exact List.mem_singleton.mp h ▸ List.suffix_rfl

@[simp] theorem cuts_fewest : Cuts (fewest p) := by
  intro t rest h
  induction t with
  | nil => exact List.mem_singleton.mp h ▸ List.suffix_rfl
  | cons c t ih =>
      rw [fewest, List.mem_cons] at h
      rcases h with rfl | h
      · exact List.suffix_rfl
      · split at h
        · exact (ih h).trans (List.suffix_cons c t)
        · contradiction

theorem mem_through {mark t rest : Text} :
    rest ∈ through mark t ↔
      ∃ before, Text.cut? mark t = some (before, rest) := by
  simp [through]

@[simp] theorem Cuts.either (hm : Cuts m) (hn : Cuts n) :
    Cuts (either m n) := by
  intro t rest h
  rcases mem_either.mp h with h | h
  · exact hm t rest h
  · exact hn t rest h

@[simp] theorem Cuts.optional (hm : Cuts m) : Cuts (optional m) := by
  intro t rest h
  rcases mem_optional.mp h with h | rfl
  · exact hm t rest h
  · exact List.suffix_rfl

@[simp] theorem cuts_sequence (h : ∀ m ∈ ms, Cuts m) :
    Cuts (sequence ms) := by
  induction ms with
  | nil =>
      intro t rest hmem
      exact mem_sequence_nil.mp hmem ▸ List.suffix_rfl
  | cons m ms ih =>
      intro t rest hmem
      obtain ⟨mid, hmid, hrest⟩ := mem_sequence_cons.mp hmem
      rw [List.forall_mem_cons] at h
      exact (ih h.2 mid rest hrest).trans (h.1 t mid hmid)

@[simp] theorem Cuts.repeated (hm : Cuts m) : Cuts (repeated m) := by
  intro t rest h
  induction hn : t.length using Nat.strong_induction_on
    generalizing t with
  | _ n ih =>
      rw [Matcher.repeated, List.mem_append, List.mem_flatMap] at h
      rcases h with ⟨mid, hmid, h⟩ | h
      · split at h
        · next hlt =>
          exact (ih mid.length (hn ▸ hlt) mid h rfl).trans (hm t mid hmid)
        · contradiction
      · exact List.mem_singleton.mp h ▸ List.suffix_rfl

/-! ## Remainders at a boundary -/

theorem breaks_one (h : ∀ c, p c = true → Text.isIdent c = false) :
    Breaks (one p) := by
  intro t rest hmem
  obtain ⟨c, hc, rfl⟩ := mem_one.mp hmem
  exact Text.BreaksAt.of_char [] (h c hc)

theorem breaks_literal {w : Text} {c : Char} (hw : w.getLast? = some c)
    (hc : Text.isIdent c = false) : Breaks (literal w) := by
  intro t rest hmem
  obtain ⟨lead, rfl⟩ := List.getLast?_eq_some_iff.mp hw
  rw [mem_literal.mp hmem, List.append_assoc]
  exact Text.BreaksAt.of_char _ hc

theorem breaks_semicolon : Breaks (literal ";") :=
  breaks_literal rfl (by decide)

theorem breaks_textEnd : Breaks textEnd := by
  intro t rest hmem
  obtain ⟨rfl, rfl⟩ := mem_textEnd.mp hmem
  exact Text.BreaksAt.of_stops List.suffix_rfl (by simp [Text.Stops])

theorem breaks_through {mark : Text} {c : Char} (hmark : mark.getLast? = some c)
    (hc : Text.isIdent c = false) : Breaks (through mark) := by
  intro t rest hmem
  obtain ⟨before, hcut⟩ := mem_through.mp hmem
  obtain ⟨lead, rfl⟩ := List.getLast?_eq_some_iff.mp hmark
  rw [Text.eq_of_cut? hcut, List.append_assoc, ← List.append_assoc]
  exact Text.BreaksAt.of_char _ hc

/-- A run that takes all characters of identifiers ends in front of something
else. -/
theorem breaks_run (h : ∀ c, Text.isIdent c = true → p c = true) :
    Breaks (run p) := by
  intro t rest hmem
  rw [mem_run.mp hmem]
  refine Text.BreaksAt.of_stops (List.dropWhile_suffix p) ?_
  intro c hc
  have hnot := Text.stops_dropWhile p t c hc
  by_contra hident
  rw [Bool.not_eq_false] at hident
  rw [h c hident] at hnot
  contradiction

theorem Breaks.either (hm : Breaks m) (hn : Breaks n) :
    Breaks (either m n) := by
  intro t rest h
  rcases mem_either.mp h with h | h
  · exact hm t rest h
  · exact hn t rest h

theorem Breaks.last (hm : Breaks m) : Breaks (sequence [m]) := hm

/-- The last matcher of a sequence decides. -/
theorem Breaks.cons (hm : Cuts m) (hms : Breaks (sequence ms)) :
    Breaks (sequence (m :: ms)) := by
  intro t rest h
  obtain ⟨mid, hmid, hrest⟩ := mem_sequence_cons.mp h
  exact (hms mid rest hrest).of_suffix (hm t mid hmid)

/-- A repetition ends at a boundary if it starts at one. -/
theorem Breaks.of_mem_repeated (hm : Breaks m) {t mid rest : Text}
    (hmid : Text.BreaksAt t mid) (h : rest ∈ repeated m mid) :
    Text.BreaksAt t rest := by
  induction hn : mid.length using Nat.strong_induction_on
    generalizing mid with
  | _ n ih =>
      rw [Matcher.repeated, List.mem_append, List.mem_flatMap] at h
      rcases h with ⟨next, hnext, h⟩ | h
      · split at h
        · next hlt =>
          have hbreak := (hm mid next hnext).of_suffix hmid.suffix
          exact ih next.length (hn ▸ hlt) hbreak h rfl
        · contradiction
      · exact List.mem_singleton.mp h ▸ hmid

end Matcher

namespace Rule

variable {α β : Type} {r : Rule α} {f : α → Rule β} {m : Matcher}
  {R S T : Text → Text → Prop}

/-- Where the rule succeeds, the continuation accepted a value with a
remainder that stands in the relation to the text. -/
def Leaves (R : Text → Text → Prop) (r : Rule α) : Prop :=
  ∀ (β : Type) (t : Text) (k : α → Text → Option β) (b : β),
    r.run t k = some b → ∃ a rest, R t rest ∧ k a rest = some b

def Cuts (r : Rule α) : Prop := r.Leaves fun t rest => rest <:+ t

def Breaks (r : Rule α) : Prop := r.Leaves Text.BreaksAt

theorem Leaves.bind (hr : r.Leaves R) (hf : ∀ a, (f a).Leaves S)
    (htrans : ∀ t mid rest, R t mid → S mid rest → T t rest) :
    (r >>= f).Leaves T := by
  intro γ t k b h
  obtain ⟨a, mid, hmid, h⟩ := hr γ t _ b h
  obtain ⟨a', rest, hrest, h⟩ := hf a γ mid k b h
  exact ⟨a', rest, htrans t mid rest hmid hrest, h⟩

theorem leaves_skip (hm : m.Leaves R) : (skip m).Leaves R := by
  intro β t k b h
  obtain ⟨rest, hrest, h⟩ := of_run_skip h
  exact ⟨(), rest, hm t rest hrest, h⟩

theorem leaves_capture (hm : m.Leaves R) : (capture m).Leaves R := by
  intro β t k b h
  obtain ⟨rest, hrest, h⟩ := of_run_capture h
  exact ⟨_, rest, hm t rest hrest, h⟩

theorem cuts_skip (hm : m.Cuts) : (skip m).Cuts := leaves_skip hm

theorem cuts_capture (hm : m.Cuts) : (capture m).Cuts := leaves_capture hm

theorem cuts_capture? (hm : m.Cuts) : (capture? m).Cuts := by
  intro β t k b h
  rcases of_run_capture? h with ⟨rest, hrest, h⟩ | h
  · exact ⟨_, rest, hm t rest hrest, h⟩
  · exact ⟨none, t, List.suffix_rfl, h⟩

theorem cuts_pure (a : α) : (pure a : Rule α).Cuts :=
  fun _ t _ _ h => ⟨a, t, List.suffix_rfl, h⟩

theorem Cuts.bind (hr : r.Cuts) (hf : ∀ a, (f a).Cuts) : (r >>= f).Cuts :=
  Leaves.bind hr hf fun _ _ _ hmid hrest => hrest.trans hmid

theorem Breaks.bind (hr : r.Cuts) (hf : ∀ a, (f a).Breaks) :
    (r >>= f).Breaks :=
  Leaves.bind hr hf fun _ _ _ hmid hrest => hrest.of_suffix hmid

/-- A rule ends where its last matcher does. -/
theorem breaks_skip_pure (hm : m.Breaks) (a : α) :
    (skip m >>= fun _ => (pure a : Rule α)).Breaks := by
  intro γ t k b h
  rw [run_bind] at h
  obtain ⟨_, rest, hrest, h⟩ := leaves_skip hm γ t _ b h
  exact ⟨a, rest, hrest, h⟩

theorem Leaves.of_first? (hr : r.Leaves R) {t rest : Text} {a : α}
    (h : r.first? t = some (a, rest)) : R t rest := by
  obtain ⟨a', rest', hrest, heq⟩ := hr _ t _ _ h
  simp only [Option.some.injEq, Prod.mk.injEq] at heq
  exact heq.2 ▸ hrest

end Rule

namespace Source

open Matcher

/-! ## Comments and directives -/

theorem notLineFeed_of_isIdent (c : Char) (h : Text.isIdent c = true) :
    notLineFeed c = true := by
  rw [notLineFeed, bne_iff_ne]
  exact Text.ne_of_isIdent h (by decide)

theorem breaks_line : Breaks (run notLineFeed) :=
  breaks_run notLineFeed_of_isIdent

theorem breaks_docLines : Breaks docLines := by
  intro t rest h
  obtain ⟨t1, h1, h⟩ := mem_sequence_cons.mp h
  obtain ⟨t2, h2, h⟩ := mem_sequence_cons.mp h
  have hline : Text.BreaksAt t t2 :=
    (breaks_line t1 t2 h2).of_suffix (cuts_literal t t1 h1)
  refine Breaks.of_mem_repeated ?_ hline h
  exact .cons (by simp) (.cons (by simp) (.cons (by simp) breaks_line.last))

theorem breaks_docBlock : Breaks docBlock :=
  .cons (by simp) (breaks_through rfl (by decide)).last

variable {α : Type}

theorem breaks_docRule : (docRule (α := α)).Breaks := by
  intro β t k b h
  rcases Option.or_eq_some_iff.mp h with h | ⟨_, h⟩
  · obtain ⟨_, rest, hrest, h⟩ :=
      Rule.leaves_capture breaks_docLines β t _ b h
    exact ⟨_, rest, hrest, h⟩
  · obtain ⟨_, rest, hrest, h⟩ :=
      Rule.leaves_capture breaks_docBlock β t _ b h
    exact ⟨_, rest, hrest, h⟩

theorem breaks_remarkRule : (remarkRule (α := α)).Breaks := by
  have hline : Breaks
      (sequence [either (literal "#") (literal "//"), run notLineFeed]) :=
    .cons (by simp) breaks_line.last
  have hblock : Breaks (sequence [literal "/*", through "*/"]) :=
    .cons (by simp) (breaks_through rfl (by decide)).last
  exact Rule.breaks_skip_pure (hline.either hblock) _

/-- What a reader leaves over is an end of the text that does not begin inside
an identifier. -/
def ReadsToBreak (read : Text → Option (α × Text)) : Prop :=
  ∀ t x rest, read t = some (x, rest) → Text.BreaksAt t rest

theorem readsToBreak_first? {r : Rule α} (hr : r.Breaks) :
    ReadsToBreak r.first? :=
  fun _ _ _ h => hr.of_first? h

theorem ReadsToBreak.map {β : Type} {read : Text → Option (α × Text)}
    (hread : ReadsToBreak read) (f : α → β) :
    ReadsToBreak fun t => (read t).map fun (x, rest) => (f x, rest) := by
  intro t y rest h
  obtain ⟨⟨x, rest'⟩, hx, heq⟩ := Option.map_eq_some_iff.mp h
  simp only [Prod.mk.injEq] at heq
  exact hread t x rest (heq.2 ▸ hx)

theorem breaksAt_of_mem_remarkRules
    {rule : Cursor → Option (Piece α × Text)} (hrule : rule ∈ remarkRules)
    {c : Cursor} {piece : Piece α} {rest : Text}
    (h : rule c = some (piece, rest)) : Text.BreaksAt c.ahead rest := by
  simp only [remarkRules, List.mem_cons, List.not_mem_nil, or_false] at hrule
  rcases hrule with rfl | rfl
  · exact breaks_docRule.of_first? h
  · exact breaks_remarkRule.of_first? h

/-! ## Delimiters and compounds -/

theorem suffix_of_enclosed {opening : Char} {t inside rest : Text}
    (h : enclosed opening t = some (inside, rest)) : rest <:+ t := by
  obtain ⟨closing, _, rfl⟩ := enclosed_eq h
  exact (List.suffix_cons closing rest).trans (List.suffix_append inside _)

namespace Compound

theorem cuts_head (keyword : Text) : (head keyword).Cuts :=
  .bind (Rule.cuts_capture? (by simp [spaces1])) fun _ =>
  .bind (Rule.cuts_skip (cuts_sequence (by simp [spaces]))) fun _ =>
  .bind (Rule.cuts_capture cuts_run) fun _ =>
  .bind (Rule.cuts_skip (cuts_sequence (by simp [spaces]))) fun _ =>
  Rule.cuts_pure _

theorem breaks_tail : tail.Breaks :=
  .bind (Rule.cuts_skip cuts_run) fun _ =>
  .bind (Rule.cuts_capture (cuts_sequence (by simp [spaces])))
    fun _ => Rule.breaks_skip_pure (.cons cuts_run breaks_semicolon.last) _

/-- The parts of a compound in the text that it is read from. -/
theorem exists_of_read? {keyword t rest : Text} {c : Compound}
    (h : read? keyword t = some (c, rest)) :
    ∃ t1 inside t2, t1 <:+ t ∧ enclosed '\x7b' t1 = some (inside, t2) ∧
      c.body = Text.trim inside ∧ Text.BreaksAt t2 rest := by
  simp only [read?, Option.bind_eq_bind, Option.bind_eq_some_iff] at h
  obtain ⟨⟨_, t1⟩, hhead, ⟨inside, t2⟩, hinside, ⟨_, t3⟩, htail, heq⟩ := h
  simp only [Option.pure_def, Option.some.injEq, Prod.mk.injEq] at heq
  obtain ⟨rfl, rfl⟩ := heq
  exact ⟨t1, inside, t2, (cuts_head keyword).of_first? hhead, hinside, rfl,
    breaks_tail.of_first? htail⟩

theorem readsToBreak_read? (keyword : Text) : ReadsToBreak (read? keyword) := by
  intro t c rest h
  obtain ⟨t1, inside, t2, ht1, hinside, _, hbreak⟩ := exists_of_read? h
  exact hbreak.of_suffix ((suffix_of_enclosed hinside).trans ht1)

end Compound

/-! ## Declarations at file scope -/

namespace Declaration

variable {d : Dialect}

@[simp] theorem cuts_inlineSpaces : Cuts inlineSpaces := cuts_run

@[simp] theorem cuts_number : Cuts number := cuts_sequence (by simp)

theorem breaks_defineEnd : Breaks (either (literal "\n") textEnd) :=
  .either (breaks_literal rfl (by decide)) breaks_textEnd

theorem breaks_defineRule : (defineRule d).Breaks :=
  .bind (Rule.cuts_skip (cuts_sequence (by simp))) fun _ =>
  .bind (Rule.cuts_capture (cuts_sequence (by simp))) fun _ =>
  .bind (Rule.cuts_skip cuts_run1) fun _ =>
  .bind (Rule.cuts_capture (.either cuts_number
    (cuts_sequence (by simp)))) fun _ =>
  Rule.breaks_skip_pure
    (.cons cuts_inlineSpaces (.cons (.optional (.either
      (cuts_sequence (by simp)) (cuts_sequence (by simp))))
      breaks_defineEnd.last)) _

theorem breaks_constantRule : (constantRule d).Breaks :=
  .bind (Rule.cuts_skip (cuts_sequence (by simp [spaces1])))
    fun _ =>
  .bind (Rule.cuts_capture (.either (cuts_sequence (by simp))
    (cuts_sequence (by simp [spaces1])))) fun _ =>
  .bind (Rule.cuts_capture cuts_run1) fun _ =>
  Rule.breaks_skip_pure
    (.cons (.optional (cuts_sequence (by simp [spaces])))
      breaks_semicolon.last) _

theorem breaks_typedefRule : typedefRule.Breaks :=
  .bind (Rule.cuts_skip (cuts_sequence (by simp [spaces1])))
    fun _ =>
  .bind (Rule.cuts_capture (cuts_sequence (by simp))) fun _ =>
  .bind (Rule.cuts_skip cuts_run) fun _ =>
  .bind (Rule.cuts_capture cuts_run1) fun _ =>
  .bind (Rule.cuts_skip cuts_run) fun _ =>
  .bind (Rule.cuts_capture (.repeated
    (cuts_sequence (by simp [spaces])))) fun _ =>
  Rule.breaks_skip_pure breaks_semicolon _

theorem breaks_handleRule : (handleRule d).Breaks :=
  .bind (Rule.cuts_skip (cuts_sequence (by simp [spaces])))
    fun _ =>
  .bind (Rule.cuts_capture cuts_run1) fun _ =>
  .bind (Rule.cuts_skip (cuts_sequence (by simp [spaces])))
    fun _ =>
  .bind (Rule.cuts_capture cuts_run1) fun _ =>
  Rule.breaks_skip_pure (.cons cuts_run breaks_semicolon.last) _

theorem breaks_functionRule : (functionRule d).Breaks :=
  .bind (Rule.cuts_skip cuts_run) fun _ =>
  .bind (Rule.cuts_capture (cuts_sequence (by simp))) fun _ =>
  .bind (Rule.cuts_skip (cuts_sequence (by simp [spaces1])))
    fun _ =>
  .bind (Rule.cuts_capture cuts_run1) fun _ =>
  .bind (Rule.cuts_skip (cuts_sequence (by simp [spaces])))
    fun _ =>
  .bind (Rule.cuts_capture cuts_fewest) fun _ =>
  Rule.breaks_skip_pure (.cons cuts_run (.cons cuts_literal
    (.cons cuts_run breaks_semicolon.last))) _

theorem breaksAt_of_declaredBy {read : Text → Option (Declaration × Text)}
    (hread : ReadsToBreak read) {c : Cursor} {piece : Piece Declaration}
    {rest : Text} (h : declaredBy read c = some (piece, rest)) :
    Text.BreaksAt c.ahead rest :=
  hread.map Piece.declared c.ahead piece rest h

/-- What comes after a recognised piece is an end of the text at the cursor
that does not begin inside an identifier. -/
theorem breaksAt_of_next {c : Cursor} {found : Found Declaration c}
    (h : next d c = some found) : Text.BreaksAt c.ahead found.rest := by
  obtain ⟨rule, hmem, hrule⟩ := exists_rule_of_recognise h
  rcases List.mem_append.mp hmem with hmem | hmem
  · simp only [List.mem_cons, List.not_mem_nil, or_false] at hmem
    rcases hmem with rfl | rfl | rfl | rfl | rfl | rfl | rfl
    · exact breaksAt_of_declaredBy (readsToBreak_first? breaks_defineRule) hrule
    · exact breaksAt_of_declaredBy
        (readsToBreak_first? breaks_constantRule) hrule
    · exact breaksAt_of_declaredBy
        ((Compound.readsToBreak_read? _).map .enum) hrule
    · exact breaksAt_of_declaredBy
        (readsToBreak_first? breaks_typedefRule) hrule
    · exact breaksAt_of_declaredBy (readsToBreak_first? breaks_handleRule) hrule
    · exact breaksAt_of_declaredBy
        ((Compound.readsToBreak_read? _).map .struct) hrule
    · beta_reduce at hrule
      split at hrule
      · exact breaksAt_of_declaredBy
          (readsToBreak_first? breaks_functionRule) hrule
      · contradiction
  · exact breaksAt_of_mem_remarkRules hmem hrule

end Declaration

/-! ## Struct bodies -/

namespace BodyItem

variable {d : Dialect}

theorem breaks_tupleRule : (tupleRule d).Breaks := by
  have hend : Breaks (either (one Text.isSpace) textEnd) :=
    .either (breaks_one fun _ => Text.isIdent_of_isSpace) breaks_textEnd
  exact Rule.breaks_skip_pure (.cons cuts_literal hend.last) _

theorem breaks_ptrGetterRule : (ptrGetterRule d).Breaks :=
  .bind (Rule.cuts_skip (cuts_sequence (by simp [spaces]))) fun _ =>
  .bind (Rule.cuts_capture cuts_run1) fun _ =>
  .bind (Rule.cuts_skip (cuts_sequence (by simp [spaces]))) fun _ =>
  .bind (Rule.cuts_capture cuts_run1) fun _ =>
  Rule.breaks_skip_pure (.cons cuts_run (.cons cuts_literal
    (.cons cuts_run breaks_semicolon.last))) _

theorem breaks_arrayGetterRule : (arrayGetterRule d).Breaks :=
  .bind (Rule.cuts_skip (cuts_sequence (by simp [spaces]))) fun _ =>
  .bind (Rule.cuts_capture cuts_run1) fun _ =>
  .bind (Rule.cuts_skip (cuts_sequence (by simp [spaces]))) fun _ =>
  .bind (Rule.cuts_capture cuts_run1) fun _ =>
  .bind (Rule.cuts_skip (cuts_sequence (by simp [spaces]))) fun _ =>
  .bind (Rule.cuts_capture cuts_run1) fun _ =>
  Rule.breaks_skip_pure (.cons cuts_run (.cons cuts_literal
    (.cons cuts_run breaks_semicolon.last))) _

theorem mem_wordEndsFrom {shorter : List Text} {t rest : Text}
    (h : rest ∈ wordEndsFrom shorter t) : rest ∈ shorter ∨ rest <:+ t := by
  fun_induction wordEndsFrom shorter t with
  | case1 shorter => exact .inl h
  | case2 shorter c t hword ih =>
      rcases ih h with h | h
      · split at h
        · exact .inl h
        · rcases List.mem_cons.mp h with rfl | h
          · exact .inr (List.suffix_cons c rest)
          · exact .inl h
      · exact .inr (h.trans (List.suffix_cons c t))
  | case3 shorter c t hword hend ih =>
      rcases ih h with h | h
      · exact .inl h
      · exact .inr (h.trans (List.suffix_cons c t))
  | case4 shorter c t hword hend => exact .inl h

theorem cuts_typeWords : Cuts typeWords := by
  intro t rest h
  rw [typeWords] at h
  split at h
  · exact (mem_wordEndsFrom h).resolve_left (by simp)
  · contradiction

theorem breaks_variablesRule : variablesRule.Breaks :=
  .bind (Rule.cuts_capture cuts_typeWords) fun _ =>
  .bind (Rule.cuts_capture (cuts_sequence (by simp [spaces, word])))
    fun _ =>
  Rule.breaks_skip_pure (.cons cuts_run breaks_semicolon.last) _

theorem readsToBreak_macroArguments? (marker : Text) :
    ReadsToBreak (macroArguments? marker) := by
  intro t args rest h
  simp only [macroArguments?, Option.bind_eq_bind, Option.bind_eq_some_iff]
    at h
  obtain ⟨⟨_, t1⟩, hopen, ⟨_, t2⟩, henclosed, rest', hsemicolon, heq⟩ := h
  simp only [Option.pure_def, Option.some.injEq, Prod.mk.injEq] at heq
  have hcuts : (Rule.skip
      (sequence [literal marker, spaces, literal "("])).Cuts :=
    Rule.cuts_skip (cuts_sequence (by simp [spaces]))
  have hafter : Text.BreaksAt (Text.trimStart t2) rest := by
    rw [Text.after?_eq_some_iff.mp hsemicolon, heq.2]
    exact Text.BreaksAt.of_char [] (by decide)
  have ht2 : Text.trimStart t2 <:+ t :=
    (List.dropWhile_suffix _).trans
      ((suffix_of_enclosed henclosed).trans (hcuts.of_first? hopen))
  exact hafter.of_suffix ht2

/-- What is read as a constructor is a macro call and gives a constructor. -/
theorem exists_of_constructor? {t rest : Text} {e : Entry}
    (h : constructor? d t = some (e, rest)) :
    ∃ args params expression,
      macroArguments? d.bindConstructor t = some (args, rest) ∧
        e = .constructor params expression := by
  simp only [constructor?, Option.bind_eq_bind, Option.bind_eq_some_iff] at h
  obtain ⟨⟨args, rest'⟩, hargs, h⟩ := h
  simp only at h
  split at h
  · obtain ⟨⟨params, _⟩, _, h⟩ := Option.bind_eq_some_iff.mp h
    split at h
    · contradiction
    · simp only [Option.pure_def, Option.some.injEq, Prod.mk.injEq] at h
      exact ⟨args, params, _, h.2 ▸ hargs, h.1.symm⟩
  · contradiction

/-- What is read as a method is a macro call and gives a method. -/
theorem exists_of_method? {t rest : Text} {e : Entry}
    (h : method? d t = some (e, rest)) :
    ∃ args signature name expression,
      macroArguments? d.bindMethod t = some (args, rest) ∧
        e = .method signature name expression := by
  simp only [method?, Option.bind_eq_bind, Option.bind_eq_some_iff] at h
  obtain ⟨⟨args, rest'⟩, hargs, h⟩ := h
  simp only at h
  split at h
  · obtain ⟨⟨signature, _⟩, _, h⟩ := Option.bind_eq_some_iff.mp h
    split at h
    · contradiction
    · simp only [Option.pure_def, Option.some.injEq, Prod.mk.injEq] at h
      exact ⟨args, signature, _, _, h.2 ▸ hargs, h.1.symm⟩
  · contradiction

theorem readsToBreak_constructor? : ReadsToBreak (constructor? d) := by
  intro t e rest h
  obtain ⟨args, _, _, hargs, _⟩ := exists_of_constructor? h
  exact readsToBreak_macroArguments? _ t args rest hargs

theorem readsToBreak_method? : ReadsToBreak (method? d) := by
  intro t e rest h
  obtain ⟨args, _, _, _, hargs, _⟩ := exists_of_method? h
  exact readsToBreak_macroArguments? _ t args rest hargs

theorem breaksAt_of_entryBy {read : Text → Option (Entry × Text)}
    (hread : ReadsToBreak read) {c : Cursor} {piece : Piece BodyItem}
    {rest : Text} (h : entryBy read c = some (piece, rest)) :
    Text.BreaksAt c.ahead rest :=
  hread.map (fun e => Piece.declared (entry e)) c.ahead piece rest h

/-- The same holds of the pieces of a struct body. -/
theorem breaksAt_of_next {c : Cursor} {found : Found BodyItem c}
    (h : next d c = some found) : Text.BreaksAt c.ahead found.rest := by
  obtain ⟨rule, hmem, hrule⟩ := exists_rule_of_recognise h
  rcases List.mem_append.mp hmem with hmem | hmem
  · simp only [List.mem_cons, List.not_mem_nil, or_false] at hmem
    rcases hmem with rfl | rfl | rfl | rfl | rfl | rfl | rfl | rfl
    · exact breaksAt_of_entryBy (readsToBreak_first? breaks_tupleRule) hrule
    · exact breaksAt_of_entryBy readsToBreak_constructor? hrule
    · exact breaksAt_of_entryBy readsToBreak_method? hrule
    · exact breaksAt_of_entryBy (readsToBreak_first? breaks_ptrGetterRule) hrule
    · exact breaksAt_of_entryBy
        (readsToBreak_first? breaks_arrayGetterRule) hrule
    · exact breaksAt_of_entryBy
        ((Compound.readsToBreak_read? _).map .enum) hrule
    · exact (Compound.readsToBreak_read? _).map
        (fun compound => Piece.declared (struct compound)) _ _ _ hrule
    · exact breaksAt_of_entryBy (readsToBreak_first? breaks_variablesRule) hrule
  · exact breaksAt_of_mem_remarkRules hmem hrule

end BodyItem

end Source

end Bindery
