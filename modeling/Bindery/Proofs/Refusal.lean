import Bindery.Proofs.Identifiers
import Bindery.Source.Body

/-!
# Texts that a rule refuses

A rule can be refused without following all its choices.  Most rules begin
with a fixed word, so the first character decides.  The others take only
characters of some class up to a certain mark: if the first character outside
the class is not that mark, the rule reads nothing.  A macro call is refused
where an identifier is followed by a blank and by something other than a
parenthesis.
-/

namespace Bindery

/-! ## The first character outside a class -/

/-- `a` is the first character of the text that is not in the class. -/
def Text.FirstOutside (p : Char → Bool) (t : Text) (a : Char) : Prop :=
  ∃ x y, t = x ++ a :: y ∧ (∀ c ∈ x, p c = true) ∧ p a = false

namespace Text

variable {p : Char → Bool} {t : Text} {a b : Char}

theorem FirstOutside.eq_find? (h : FirstOutside p t a) :
    t.find? (!p ·) = some a := by
  obtain ⟨x, y, rfl, hx, ha⟩ := h
  rw [List.find?_append, List.find?_eq_none.mpr]
  · simp [ha]
  · intro c hc
    simp [hx c hc]

theorem FirstOutside.unique (ha : FirstOutside p t a)
    (hb : FirstOutside p t b) : a = b := by
  have h := ha.eq_find?
  rw [hb.eq_find?, Option.some.injEq] at h
  exact h.symm

theorem firstOutside_cons (ha : p a = false) (t : Text) :
    FirstOutside p (a :: t) a :=
  ⟨[], t, rfl, by simp, ha⟩

theorem FirstOutside.append {x : Text} (h : FirstOutside p t a)
    (hx : ∀ c ∈ x, p c = true) : FirstOutside p (x ++ t) a := by
  obtain ⟨y, z, rfl, hy, ha⟩ := h
  refine ⟨x ++ y, z, by simp, ?_, ha⟩
  intro c hc
  rcases List.mem_append.mp hc with hc | hc
  · exact hx c hc
  · exact hy c hc

/-- What is taken off a text belongs to the class. -/
theorem FirstOutside.of_takes {rest : Text} (hrest : FirstOutside p rest a)
    (h : Takes p t rest) : FirstOutside p t a := by
  obtain ⟨part, hpart, rfl⟩ := h
  exact hrest.append hpart

/-- The first character outside the class is found in every beginning of the
text that has one. -/
theorem FirstOutside.mem {x : Text} (h : FirstOutside p (x ++ t) a)
    (hx : ∃ b ∈ x, p b = false) : a ∈ x := by
  have hfind := h.eq_find?
  rw [List.find?_append] at hfind
  cases hfound : x.find? (!p ·) with
  | none =>
      obtain ⟨b, hb, hpb⟩ := hx
      have hnone := List.find?_eq_none.mp hfound b hb
      simp [hpb] at hnone
  | some c =>
      rw [hfound, Option.some_or, Option.some.injEq] at hfind
      exact hfind ▸ List.mem_of_find?_eq_some hfound

theorem Takes.trans {mid rest : Text} (h : Takes p t mid)
    (h' : Takes p mid rest) : Takes p t rest := by
  obtain ⟨x, hx, rfl⟩ := h
  obtain ⟨y, hy, rfl⟩ := h'
  refine ⟨x ++ y, ?_, by simp⟩
  intro c hc
  rcases List.mem_append.mp hc with hc | hc
  · exact hx c hc
  · exact hy c hc

theorem Takes.mono {q : Char → Bool} {rest : Text} (h : Takes q t rest)
    (hq : ∀ c, q c = true → p c = true) : Takes p t rest := by
  obtain ⟨x, hx, rfl⟩ := h
  exact ⟨x, fun c hc => hq c (hx c hc), rfl⟩

theorem after?_eq_none {w t : Text} {a : Char} (hw : w.head? = some a)
    (ht : t.head? ≠ some a) : after? w t = none := by
  rw [Option.eq_none_iff_forall_ne_some]
  intro rest hrest
  rw [after?_eq_some_iff.mp hrest] at ht
  obtain ⟨w', rfl⟩ := List.head?_eq_some_iff.mp hw
  exact ht rfl

end Text

namespace Matcher

theorem literal_eq_nil {w t : Text} {a : Char} (hw : w.head? = some a)
    (ht : t.head? ≠ some a) : literal w t = [] := by
  rw [literal, Text.after?_eq_none hw ht, Option.toList_none]

theorem sequence_eq_nil {m : Matcher} {t : Text} (h : m t = [])
    (ms : List Matcher) : sequence (m :: ms) t = [] := by
  rw [sequence_cons, h]
  rfl

theorem sequence_spaces_eq_nil {ms : List Matcher} {t : Text}
    (ht : Text.Stops Text.isSpace t) (h : sequence ms t = []) :
    sequence (spaces :: ms) t = [] := by
  rw [sequence_cons, spaces, run, ht.dropWhile_eq]
  simpa using h

/-- An identifier and a blank are no macro call if no parenthesis follows. -/
theorem macroCall_eq_nil {w x t : Text} {c : Char} (ms : List Matcher)
    (hw : w.all Text.isIdent = true)
    (hx : ∀ a ∈ x, Text.isIdent a = true)
    (hc : Text.isSpace c = false) (hne : c ≠ '(') :
    sequence (literal w :: spaces :: literal "(" :: ms)
      (x ++ ' ' :: c :: t) = [] := by
  rw [List.eq_nil_iff_forall_not_mem]
  intro rest hrest
  simp only [mem_sequence_cons, mem_literal, spaces, mem_run] at hrest
  obtain ⟨mid, hmid, u, rfl, v, hopen, _⟩ := hrest
  obtain ⟨z, hz, rfl⟩ := split_word hw (by decide) hmid
  cases z with
  | nil =>
      rw [List.nil_append, List.dropWhile_cons_of_pos (by decide),
        List.dropWhile_cons_of_neg (by simp [hc])] at hopen
      exact hne (List.cons.inj hopen).1
  | cons a z =>
      have ha : Text.isIdent a = true := by
        apply hx
        rw [hz]
        simp
      rw [List.cons_append, List.dropWhile_cons_of_neg
        (by simp [Text.isSpace_of_isIdent ha])] at hopen
      exact Text.ne_of_isIdent ha (by decide) (List.cons.inj hopen).1

/-- A marker that a word has to follow is no part of a longer word. -/
theorem marker_eq_nil {w x t : Text} {c : Char} (ms : List Matcher)
    (hw : w.all Text.isIdent = true)
    (hx : ∀ a ∈ x, Text.isIdent a = true)
    (hc : Text.isIdent c = false) (hspace : Text.isSpace c = false) :
    sequence (literal w :: spaces1 :: ms) (x ++ c :: t) = [] := by
  rw [List.eq_nil_iff_forall_not_mem]
  intro rest hrest
  simp only [mem_sequence_cons, mem_literal, spaces1, mem_run1] at hrest
  obtain ⟨mid, hmid, u, ⟨b, v, hb, hblank, _⟩, _⟩ := hrest
  obtain ⟨z, hz, rfl⟩ := split_word hw hc hmid
  cases z with
  | nil =>
      rw [(List.cons.inj hb).1, hblank] at hspace
      contradiction
  | cons a z =>
      have ha : Text.isIdent a = true := by
        apply hx
        rw [hz]
        simp
      rw [← (List.cons.inj hb).1, Text.isSpace_of_isIdent ha] at hblank
      contradiction

theorem mem_repeated {m : Matcher} {t rest : Text}
    (h : rest ∈ repeated m t) : rest = t ∨ ∃ mid, mid ∈ m t := by
  rw [repeated, List.mem_append, List.mem_flatMap] at h
  rcases h with ⟨mid, hmid, _⟩ | h
  · exact .inr ⟨mid, hmid⟩
  · exact .inl (List.mem_singleton.mp h)

/-! ## Matchers that keep to a class -/

/-- The matcher takes characters of the class only. -/
def Within (p : Char → Bool) (m : Matcher) : Prop :=
  ∀ t rest, rest ∈ m t → Text.Takes p t rest

variable {p q : Char → Bool} {m n : Matcher}

theorem within_literal {w : Text} (h : w.all p = true) :
    Within p (literal w) :=
  fun _ _ hmem => ⟨w, List.all_eq_true.mp h, mem_literal.mp hmem⟩

theorem within_one (h : ∀ c, q c = true → p c = true) :
    Within p (one q) := by
  intro t rest hmem
  obtain ⟨c, hc, rfl⟩ := mem_one.mp hmem
  exact ⟨[c], by simpa using h c hc, rfl⟩

theorem within_many (h : ∀ c, q c = true → p c = true) :
    Within p (many q) :=
  fun _ _ hmem => (mem_many.mp hmem).mono h

theorem within_many1 (h : ∀ c, q c = true → p c = true) :
    Within p (many1 q) := by
  intro t rest hmem
  obtain ⟨c, tail, rfl, hc, htail⟩ := mem_many1.mp hmem
  exact Text.takes_cons_iff.mpr (.inr ⟨h c hc, htail.mono h⟩)

theorem within_run (h : ∀ c, q c = true → p c = true) :
    Within p (run q) := by
  intro t rest hmem
  rw [mem_run.mp hmem]
  exact (Text.takes_dropWhile q t).mono h

theorem within_run1 (h : ∀ c, q c = true → p c = true) :
    Within p (run1 q) := by
  intro t rest hmem
  obtain ⟨c, tail, rfl, hc, rfl⟩ := mem_run1.mp hmem
  exact Text.takes_cons_iff.mpr
    (.inr ⟨h c hc, (Text.takes_dropWhile q tail).mono h⟩)

theorem within_wordEnd : Within p wordEnd := by
  intro t rest hmem
  have heq : rest = t := by
    cases t with
    | nil => exact List.mem_singleton.mp hmem
    | cons c t =>
        rw [wordEnd] at hmem
        split at hmem
        · contradiction
        · exact List.mem_singleton.mp hmem
  exact heq ▸ Text.Takes.refl p t

theorem Within.either (hm : Within p m) (hn : Within p n) :
    Within p (either m n) := by
  intro t rest hmem
  rcases mem_either.mp hmem with hmem | hmem
  · exact hm t rest hmem
  · exact hn t rest hmem

theorem within_sequence_nil : Within p (sequence []) :=
  fun t _ hmem => mem_sequence_nil.mp hmem ▸ Text.Takes.refl p t

theorem Within.cons {ms : List Matcher} (hm : Within p m)
    (hms : Within p (sequence ms)) : Within p (sequence (m :: ms)) := by
  intro t rest hmem
  obtain ⟨mid, hmid, hrest⟩ := mem_sequence_cons.mp hmem
  exact (hm t mid hmid).trans (hms mid rest hrest)

end Matcher

namespace Rule

variable {β : Type} {p : Char → Bool} {m : Matcher} {t : Text} {b : β}

theorem takes_of_run_skip {k : Unit → Text → Option β}
    (hm : m.Within p) (h : (skip m).run t k = some b) :
    ∃ rest, Text.Takes p t rest ∧ k () rest = some b := by
  obtain ⟨rest, hrest, h⟩ := of_run_skip h
  exact ⟨rest, hm t rest hrest, h⟩

theorem takes_of_run_capture {k : Span → Text → Option β}
    (hm : m.Within p) (h : (capture m).run t k = some b) :
    ∃ span rest, Text.Takes p t rest ∧ k span rest = some b := by
  obtain ⟨rest, hrest, h⟩ := of_run_capture h
  exact ⟨_, rest, hm t rest hrest, h⟩

theorem takes_of_run_capture? {k : Option Span → Text → Option β}
    (hm : m.Within p) (h : (capture? m).run t k = some b) :
    ∃ span rest, Text.Takes p t rest ∧ k span rest = some b := by
  rcases of_run_capture? h with ⟨rest, hrest, h⟩ | h
  · exact ⟨_, rest, hm t rest hrest, h⟩
  · exact ⟨none, t, Text.Takes.refl p t, h⟩

end Rule

namespace Source

open Matcher

/-! ## Rules that begin with a fixed word -/

theorem Compound.read?_eq_none_of_head {keyword t : Text} {a : Char}
    (hkeyword : keyword.head? = some a) (ha : t.head? ≠ some a)
    (htypedef : t.head? ≠ some 't') (hconst : t.head? ≠ some 'c') :
    Compound.read? keyword t = none := by
  have hqualifier : either (sequence [literal "typedef", spaces1])
      (sequence [literal "const", spaces1]) t = [] := by
    rw [either, sequence_eq_nil (literal_eq_nil rfl htypedef),
      sequence_eq_nil (literal_eq_nil rfl hconst), List.append_nil]
  have hhead : (Compound.head keyword).first? t = none := by
    rw [Compound.head, Rule.first?, Rule.run_bind,
      Rule.run_capture?_of_eq_nil hqualifier, Rule.run_bind,
      Rule.run_skip_of_eq_nil
        (sequence_eq_nil (literal_eq_nil hkeyword ha) _)]
  rw [Compound.read?, hhead]
  rfl

/-- Behind `typedef` the keyword decides. -/
theorem Compound.read?_eq_none_of_typedef {keyword x : Text} {a b : Char}
    (hkeyword : keyword.head? = some a) (hx : x.head? = some b)
    (hne : b ≠ a) (ha : a ≠ 't') (hb : Text.isSpace b = false) :
    Compound.read? keyword (("typedef " : Text) ++ x) = none := by
  have hstops : Text.Stops Text.isSpace x := by
    intro c hc
    rw [hx, Option.mem_some_iff] at hc
    exact hc ▸ hb
  have hliteral : literal "typedef" (("typedef " : Text) ++ x) = [' ' :: x] :=
    rfl
  have hspaces : spaces1 (' ' :: x) = [x] := by
    rw [spaces1, run1, if_pos (by decide), hstops.dropWhile_eq]
  have hfirst : (("typedef " : Text) ++ x).head? = some 't' := rfl
  have hconst : sequence [literal "const", spaces1]
      (("typedef " : Text) ++ x) = [] :=
    sequence_eq_nil (literal_eq_nil (a := 'c') rfl (by simp)) _
  have hqualifier : either (sequence [literal "typedef", spaces1])
      (sequence [literal "const", spaces1]) (("typedef " : Text) ++ x) =
        [x] := by
    rw [either, hconst, sequence_cons, hliteral, List.flatMap_singleton,
      List.append_nil]
    exact hspaces
  have hhead : (Compound.head keyword).first? (("typedef " : Text) ++ x) =
      none := by
    have hmissing : literal keyword x = [] :=
      literal_eq_nil hkeyword (by simpa [hx] using hne)
    have hmissing' : literal keyword (("typedef " : Text) ++ x) = [] :=
      literal_eq_nil hkeyword (by simpa [hfirst] using ha.symm)
    rw [Compound.head, Rule.first?, Rule.run_bind,
      Rule.run_capture?_of_eq_singleton hqualifier, Rule.run_bind,
      Rule.run_skip_of_eq_nil (sequence_eq_nil hmissing _), Rule.run_bind,
      Rule.run_skip_of_eq_nil (sequence_eq_nil hmissing' _)]
    rfl
  rw [Compound.read?, hhead]
  rfl

section Fixed

variable {t : Text}

theorem Declaration.defineRule_eq_none_of_head {d : Dialect}
    (h : t.head? ≠ some '#') : (defineRule d).first? t = none := by
  rw [defineRule, Rule.first?, Rule.run_bind, Rule.run_skip_of_eq_nil
    (sequence_eq_nil (literal_eq_nil rfl h) _)]

theorem Declaration.constantRule_eq_none_of_head {d : Dialect}
    (h : t.head? ≠ some 'e') : (constantRule d).first? t = none := by
  rw [constantRule, Rule.first?, Rule.run_bind, Rule.run_skip_of_eq_nil
    (sequence_eq_nil (literal_eq_nil rfl h) _)]

theorem Declaration.typedefRule_eq_none_of_head
    (h : t.head? ≠ some 't') : typedefRule.first? t = none := by
  rw [typedefRule, Rule.first?, Rule.run_bind, Rule.run_skip_of_eq_nil
    (sequence_eq_nil (literal_eq_nil rfl h) _)]

theorem Declaration.handleRule_eq_none_of_head
    (h : t.head? ≠ some 'O') : (handleRule {}).first? t = none := by
  rw [handleRule, Rule.first?, Rule.run_bind, Rule.run_skip_of_eq_nil
    (sequence_eq_nil (literal_eq_nil rfl h) _)]

theorem Declaration.functionRule_eq_none_of_head {d : Dialect} {c : Char}
    (hspace : Text.isSpace c = false) (hstart : isReturnTypeStart c = false)
    (t : Text) : (functionRule d).first? (c :: t) = none := by
  have hspaces : spaces (c :: t) = [c :: t] := by
    rw [spaces, Matcher.run, (Text.stops_cons hspace t).dropWhile_eq]
  have hnil : one isReturnTypeStart (c :: t) = [] := by
    simp [one, hstart]
  rw [functionRule, Rule.first?, Rule.run_bind, Rule.skip]
  simp only [hspaces, List.findSome?_singleton, Rule.run_bind]
  rw [Rule.run_capture_of_eq_nil (sequence_eq_nil hnil _)]

theorem docRule_eq_none_of_head {α : Type} (h : t.head? ≠ some '/') :
    (docRule : Rule (Piece α)).first? t = none := by
  rw [docRule, Rule.first?]
  simp only [docLines, docBlock]
  rw [Rule.run_capture_of_eq_nil (sequence_eq_nil (literal_eq_nil rfl h) _),
    Rule.run_capture_of_eq_nil (sequence_eq_nil (literal_eq_nil rfl h) _)]
  rfl

theorem remarkRule_eq_none_of_head {α : Type} (h : t.head? ≠ some '/')
    (h' : t.head? ≠ some '#') :
    (remarkRule : Rule (Piece α)).first? t = none := by
  have hmark : either (literal "#") (literal "//") t = [] := by
    rw [either, literal_eq_nil rfl h', literal_eq_nil rfl h, List.append_nil]
  rw [remarkRule, Rule.first?, Rule.run_bind, Rule.run_skip_of_eq_nil]
  rw [either, sequence_eq_nil hmark, sequence_eq_nil (literal_eq_nil rfl h),
    List.append_nil]

end Fixed

/-! ## Rules that read on to a certain mark -/

/-- Words and white space. -/
def isHeadChar (c : Char) : Bool := Text.isWord c || Text.isSpace c

theorem isHeadChar_of_isWord (c : Char) (h : Text.isWord c = true) :
    isHeadChar c = true := by
  simp [isHeadChar, h]

theorem isHeadChar_of_isSpace (c : Char) (h : Text.isSpace c = true) :
    isHeadChar c = true := by
  simp [isHeadChar, h]

/-- In front of the brace of a struct or an enum there are only words and
white space. -/
theorem Compound.firstOutside_of_read {keyword t rest : Text}
    {c : Compound} (hkeyword : keyword.all Text.isWord = true)
    (h : Compound.read? keyword t = some (c, rest)) :
    Text.FirstOutside isHeadChar t '\x7b' := by
  have hspaces : Within isHeadChar spaces := within_run isHeadChar_of_isSpace
  have hspaces1 : Within isHeadChar spaces1 :=
    within_run1 isHeadChar_of_isSpace
  have hqualifier : Within isHeadChar
      (either (sequence [literal "typedef", spaces1])
        (sequence [literal "const", spaces1])) :=
    Within.either
      (.cons (within_literal (by decide)) (.cons hspaces1 within_sequence_nil))
      (.cons (within_literal (by decide)) (.cons hspaces1 within_sequence_nil))
  have hword : Within isHeadChar
      (sequence [literal keyword, wordEnd, spaces]) :=
    .cons (within_literal (List.all_eq_true.mpr fun a ha =>
        isHeadChar_of_isWord a (List.all_eq_true.mp hkeyword a ha)))
      (.cons within_wordEnd (.cons hspaces within_sequence_nil))
  simp only [Compound.read?, Option.bind_eq_bind,
    Option.bind_eq_some_iff] at h
  obtain ⟨⟨⟨qualifier, tag⟩, _⟩, h, _⟩ := h
  simp only [Compound.head, Rule.first?, Rule.run_bind] at h
  obtain ⟨_, t1, ht1, h⟩ := Rule.takes_of_run_capture? hqualifier h
  obtain ⟨t2, ht2, h⟩ := Rule.takes_of_run_skip hword h
  obtain ⟨_, t3, ht3, h⟩ := Rule.takes_of_run_capture
    (within_run isHeadChar_of_isWord) h
  obtain ⟨_, hopen, _⟩ := Rule.of_run_skip h
  obtain ⟨t4, ht4, hopen⟩ := mem_sequence_cons.mp hopen
  have hbrace : t4 = '\x7b' :: _ := mem_literal.mp hopen
  have hmark : Text.FirstOutside isHeadChar t4 '\x7b' := by
    rw [hbrace]
    exact Text.firstOutside_cons (by decide) _
  exact hmark.of_takes (ht1.trans (ht2.trans (ht3.trans (hspaces t3 t4 ht4))))

theorem Compound.read?_eq_none {keyword x t : Text}
    (hkeyword : keyword.all Text.isWord = true)
    (hx : ∃ b ∈ x, isHeadChar b = false) (hbrace : '\x7b' ∉ x) :
    Compound.read? keyword (x ++ t) = none := by
  rw [Option.eq_none_iff_forall_ne_some]
  rintro ⟨c, rest⟩ h
  exact hbrace ((Compound.firstOutside_of_read hkeyword h).mem hx)

namespace Declaration

theorem isTypeChar_of_isWord (c : Char) (h : Text.isWord c = true) :
    isTypeChar c = true := by
  simp [isTypeChar, h]

theorem isTypeChar_of_isTypeEnd (c : Char) (h : isTypeEnd c = true) :
    isTypeChar c = true := by
  simp [isTypeChar, h]

theorem isTypeChar_of_isSpace (c : Char) (h : Text.isSpace c = true) :
    isTypeChar c = true := by
  simp [isTypeChar, isTypeEnd, h]

theorem within_spaces : Within isTypeChar spaces :=
  within_run isTypeChar_of_isSpace

theorem within_spaces1 : Within isTypeChar spaces1 :=
  within_run1 isTypeChar_of_isSpace

theorem within_word : Within isTypeChar word :=
  within_run1 isTypeChar_of_isWord

/-- A type definition is made of words, stars and white space up to its
dimensions or its end. -/
theorem firstOutside_of_typedefRule {t : Text} {x : Declaration × Text}
    (h : typedefRule.first? t = some x) :
    Text.FirstOutside isTypeChar t '[' ∨
      Text.FirstOutside isTypeChar t ';' := by
  have hkeyword : Within isTypeChar (sequence [literal "typedef", spaces1]) :=
    .cons (within_literal (by decide))
      (.cons within_spaces1 within_sequence_nil)
  have htype : Within isTypeChar
      (sequence [one Text.isWord, many isTypeChar, one isTypeEnd]) :=
    .cons (within_one isTypeChar_of_isWord) (.cons (within_many fun _ => id)
      (.cons (within_one isTypeChar_of_isTypeEnd) within_sequence_nil))
  simp only [typedefRule, Rule.first?, Rule.run_bind] at h
  obtain ⟨t1, ht1, h⟩ := Rule.takes_of_run_skip hkeyword h
  obtain ⟨_, t2, ht2, h⟩ := Rule.takes_of_run_capture htype h
  obtain ⟨t3, ht3, h⟩ := Rule.takes_of_run_skip within_spaces h
  obtain ⟨_, t4, ht4, h⟩ := Rule.takes_of_run_capture within_word h
  obtain ⟨t5, ht5, h⟩ := Rule.takes_of_run_skip within_spaces h
  obtain ⟨t6, hdims, h⟩ := Rule.of_run_capture h
  obtain ⟨t7, hend, _⟩ := Rule.of_run_skip h
  have htakes := ht1.trans (ht2.trans (ht3.trans (ht4.trans ht5)))
  rcases mem_repeated hdims with rfl | ⟨mid, hmid⟩
  · have hmark : t6 = ';' :: t7 := mem_literal.mp hend
    rw [hmark] at htakes
    exact .inr ((Text.firstOutside_cons (by decide) t7).of_takes htakes)
  · obtain ⟨t6, hopen, _⟩ := mem_sequence_cons.mp hmid
    have hmark : t5 = '[' :: t6 := mem_literal.mp hopen
    rw [hmark] at htakes
    exact .inl ((Text.firstOutside_cons (by decide) t6).of_takes htakes)

/-- An exported constant is made of words, stars and white space up to its
initializer or its end. -/
theorem firstOutside_of_constantRule {t : Text} {x : Declaration × Text}
    (h : (constantRule {}).first? t = some x) :
    Text.FirstOutside isTypeChar t '=' ∨
      Text.FirstOutside isTypeChar t ';' := by
  have hexternal : Within isTypeChar
      (sequence [literal "extern", many1 Text.isSpace, literal "ODE_API",
        spaces1]) :=
    .cons (within_literal (by decide))
      (.cons (within_many1 isTypeChar_of_isSpace)
        (.cons (within_literal (by decide))
          (.cons within_spaces1 within_sequence_nil)))
  have hleading : Within isTypeChar
      (sequence [literal "const", many1 Text.isSpace, many1 isTypeChar,
        one isTypeEnd]) :=
    .cons (within_literal (by decide))
      (.cons (within_many1 isTypeChar_of_isSpace)
        (.cons (within_many1 fun _ => id)
          (.cons (within_one isTypeChar_of_isTypeEnd) within_sequence_nil)))
  have htrailing : Within isTypeChar
      (sequence [one Text.isWord, many isTypeChar, one isTypeEnd,
        literal "const", spaces1]) :=
    .cons (within_one isTypeChar_of_isWord) (.cons (within_many fun _ => id)
      (.cons (within_one isTypeChar_of_isTypeEnd)
        (.cons (within_literal (by decide))
          (.cons within_spaces1 within_sequence_nil))))
  simp only [constantRule, Rule.first?, Rule.run_bind] at h
  obtain ⟨t1, ht1, h⟩ := Rule.takes_of_run_skip hexternal h
  obtain ⟨_, t2, ht2, h⟩ :=
    Rule.takes_of_run_capture (hleading.either htrailing) h
  obtain ⟨_, t3, ht3, h⟩ := Rule.takes_of_run_capture within_word h
  obtain ⟨t5, hmem, _⟩ := Rule.of_run_skip h
  obtain ⟨t4, hvalue, hend⟩ := mem_sequence_cons.mp hmem
  have htakes := ht1.trans (ht2.trans ht3)
  rcases mem_optional.mp hvalue with hvalue | rfl
  · obtain ⟨t4, ht4, hvalue⟩ := mem_sequence_cons.mp hvalue
    obtain ⟨t5, hsign, _⟩ := mem_sequence_cons.mp hvalue
    have hmark : t4 = '=' :: t5 := mem_literal.mp hsign
    have htakes := htakes.trans (within_spaces t3 t4 ht4)
    rw [hmark] at htakes
    exact .inl ((Text.firstOutside_cons (by decide) t5).of_takes htakes)
  · have hmark : t4 = ';' :: t5 := mem_literal.mp hend
    rw [hmark] at htakes
    exact .inr ((Text.firstOutside_cons (by decide) t5).of_takes htakes)

/-- Neither a type definition nor a constant has another mark than theirs
behind the words that it starts with. -/
theorem typedefRule_eq_none {t : Text} {a : Char}
    (h : Text.FirstOutside isTypeChar t a) (ha : a ≠ '[') (ha' : a ≠ ';') :
    typedefRule.first? t = none := by
  rw [Option.eq_none_iff_forall_ne_some]
  intro x hx
  rcases firstOutside_of_typedefRule hx with hmark | hmark
  · exact ha (h.unique hmark)
  · exact ha' (h.unique hmark)

theorem constantRule_eq_none {t : Text} {a : Char}
    (h : Text.FirstOutside isTypeChar t a) (ha : a ≠ '=') (ha' : a ≠ ';') :
    (constantRule {}).first? t = none := by
  rw [Option.eq_none_iff_forall_ne_some]
  intro x hx
  rcases firstOutside_of_constantRule hx with hmark | hmark
  · exact ha (h.unique hmark)
  · exact ha' (h.unique hmark)

end Declaration

namespace BodyItem

/-! ## Binding macros -/

/-- No binding macro stands at the beginning of the text. -/
structure NoMacro (t : Text) : Prop where
  tuple : (tupleRule {}).first? t = none
  constructor : constructor? {} t = none
  method : method? {} t = none
  ptrGetter : (ptrGetterRule {}).first? t = none
  arrayGetter : (arrayGetterRule {}).first? t = none

theorem tupleRule_eq_none {t : Text}
    (h : sequence [literal "ODE_TUPLE",
      either (one Text.isSpace) textEnd] t = []) :
    (tupleRule {}).first? t = none := by
  rw [tupleRule, Rule.first?, Rule.run_bind, Rule.run_skip_of_eq_nil h]

theorem macroArguments?_eq_none {marker t : Text}
    (h : sequence [literal marker, spaces, literal "("] t = []) :
    macroArguments? marker t = none := by
  rw [macroArguments?, Rule.first?, Rule.run_skip_of_eq_nil h]
  rfl

theorem constructor?_eq_none {t : Text}
    (h : sequence
      [literal "ODE_BIND_CONSTRUCTOR", spaces, literal "("] t = []) :
    constructor? {} t = none := by
  rw [constructor?, macroArguments?_eq_none h]
  rfl

/-- The tuple marker and the calls of the other macros are all there is to
refuse. -/
theorem noMacro_of_eq_nil {t : Text}
    (htuple : sequence [literal "ODE_TUPLE",
      either (one Text.isSpace) textEnd] t = [])
    (hcall : ∀ (w : Text) (ms : List Matcher), w.head? = some 'O' →
      w.all Text.isIdent = true →
      sequence (literal w :: spaces :: literal "(" :: ms) t = []) :
    NoMacro t := by
  constructor
  · exact tupleRule_eq_none htuple
  · exact constructor?_eq_none (hcall _ [] rfl (by decide))
  · rw [method?, macroArguments?_eq_none (hcall _ [] rfl (by decide))]
    rfl
  · rw [ptrGetterRule, Rule.first?, Rule.run_bind,
      Rule.run_skip_of_eq_nil (hcall _ [spaces] rfl (by decide))]
  · rw [arrayGetterRule, Rule.first?, Rule.run_bind,
      Rule.run_skip_of_eq_nil (hcall _ [spaces] rfl (by decide))]

theorem noMacro_of_head {t : Text} (h : t.head? ≠ some 'O') : NoMacro t := by
  apply noMacro_of_eq_nil
  · exact sequence_eq_nil (literal_eq_nil rfl h) _
  · intro w ms hw _
    exact sequence_eq_nil (literal_eq_nil hw h) _

/-- A type and something to declare are no macro. -/
theorem noMacro_of_type {x t : Text} {c : Char}
    (hx : ∀ a ∈ x, Text.isIdent a = true) (hne : x ≠ ("ODE_TUPLE" : Text))
    (hc : Text.isSpace c = false) (hopen : c ≠ '(') :
    NoMacro (x ++ ' ' :: c :: t) := by
  apply noMacro_of_eq_nil
  · rw [List.eq_nil_iff_forall_not_mem]
    intro rest hrest
    obtain ⟨mid, hmid, hend⟩ := mem_sequence_cons.mp hrest
    obtain ⟨z, hz, rfl⟩ := split_word (by decide) (by decide)
      (mem_literal.mp hmid)
    cases z with
    | nil => exact hne (by simpa using hz)
    | cons a z =>
        have ha : Text.isIdent a = true := by
          apply hx
          rw [hz]
          simp
        rcases mem_either.mp hend with hend | hend
        · obtain ⟨b, hb, heq⟩ := mem_one.mp hend
          rw [← (List.cons.inj heq).1, Text.isSpace_of_isIdent ha] at hb
          contradiction
        · contradiction
  · intro w ms _ hw
    exact macroCall_eq_nil ms hw hx hc hopen

end BodyItem

end Source

end Bindery
