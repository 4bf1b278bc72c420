import Bindery.Proofs.Brackets
import Bindery.Proofs.Refusal

/-!
# Written structs and enums

A struct or an enum is written as a frame around the text between its braces:
an optional `typedef`, the keyword, an optional tag, and behind the closing
brace an optional variable.  Whatever is between the braces, if its braces
match, reading the frame gives back its parts: `Frame.read?_text`.
-/

namespace Bindery.Source

open Matcher

/-! ## Texts with matching braces -/

/-- No brace, and nothing that begins a comment or continues a line. -/
def isPlain (c : Char) : Bool :=
  c != '/' && c != '\\' && c != '\x7b' && c != '\x7d'

inductive Braced : Text → Prop where
  | plain {t : Text} (h : ∀ c ∈ t, isPlain c = true) : Braced t
  | append {s t : Text} (hs : Braced s) (ht : Braced t) : Braced (s ++ t)
  | wrap {t : Text} (h : Braced t) : Braced ('\x7b' :: (t ++ ['\x7d']))

theorem isPlain_of_isIdent {c : Char} (h : Text.isIdent c = true) :
    isPlain c = true := by
  simp only [isPlain, Bool.and_eq_true, bne_iff_ne]
  refine ⟨⟨⟨?_, ?_⟩, ?_⟩, ?_⟩
  all_goals exact Text.ne_of_isIdent h (by decide)

namespace Braced

variable {t : Text}

theorem notMem (h : Braced t) : '/' ∉ t ∧ '\\' ∉ t := by
  induction h with
  | plain h =>
      constructor
      · intro hmem
        exact absurd (h _ hmem) (by decide)
      · intro hmem
        exact absurd (h _ hmem) (by decide)
  | append _ _ ihs iht => simp [ihs, iht]
  | wrap _ ih => simp [ih]

theorem depthAfter_map (h : Braced t) (depth : Nat) :
    depthAfter '\x7b' '\x7d' depth (t.map .code) = some depth := by
  induction h generalizing depth with
  | @plain t h =>
      induction t with
      | nil => rfl
      | cons c t ih =>
          simp only [List.mem_cons, forall_eq_or_imp] at h
          have hopen : c ≠ '\x7b' := by
            rintro rfl
            exact absurd h.1 (by decide)
          have hclose : c ≠ '\x7d' := by
            rintro rfl
            exact absurd h.1 (by decide)
          rw [List.map_cons, depthAfter_other (by simpa using hclose),
            if_neg (by simpa using hopen)]
          exact ih h.2
  | append _ _ ihs iht =>
      rw [List.map_append, depthAfter_append, ihs]
      exact iht depth
  | wrap _ ih =>
      rw [List.map_cons, depthAfter_other (by decide), if_pos rfl,
        List.map_append, depthAfter_append, ih]
      exact depthAfter_closing_succ depth []

theorem balanced (h : Braced t) : Balanced '\x7b' '\x7d' t := by
  constructor
  · intro l hl
    rw [lex_of_notMem h.notMem.1, List.mem_map] at hl
    obtain ⟨c, _, rfl⟩ := hl
    rfl
  · rw [lex_of_notMem h.notMem.1]
    exact h.depthAfter_map 0

theorem enclosed (h : Braced t) (rest : Text) :
    enclosed '\x7b' (t ++ '\x7d' :: rest) = some (t, rest) :=
  (enclosed_eq_some_iff rfl).mpr ⟨rfl, h.balanced⟩

end Braced

/-! ## Frames -/

/-- A variable that is declared behind a closing brace. -/
structure Trailer where
  pointer : Bool
  name : Identifier

def Trailer.sigils (v : Trailer) : Text := if v.pointer then ['*'] else []

def Trailer.text (v : Trailer) : Text := v.sigils ++ v.name.text

theorem Trailer.mem_text (v : Trailer) {c : Char} (h : c ∈ v.text) :
    c = '*' ∨ Text.isIdent c = true := by
  rcases List.mem_append.mp h with h | h
  · unfold Trailer.sigils at h
    split at h
    · exact .inl (List.mem_singleton.mp h)
    · contradiction
  · exact .inr (v.name.isIdent c h)

theorem Trailer.notSpace (v : Trailer) :
    ∀ c ∈ v.text, Text.isSpace c = false := by
  intro c hc
  rcases v.mem_text hc with rfl | hc
  · decide
  · exact Text.isSpace_of_isIdent hc

structure Frame where
  isTypedef : Bool
  tag : Option Identifier
  trailer : Option Trailer

namespace Frame

def tagText (f : Frame) : Text := (f.tag.map Identifier.text).getD []

def trailerText (f : Frame) : Text := (f.trailer.map Trailer.text).getD []

/-- The text with a blank in front, unless it is empty. -/
def spaced (t : Text) : Text := if t.isEmpty then [] else ' ' :: t

def opening (f : Frame) (keyword : Text) : Text :=
  (if f.isTypedef then ("typedef " : Text) else []) ++
    (keyword ++ (spaced f.tagText ++ [' ', '\x7b']))

def closing (f : Frame) : Text :=
  '\x7d' :: (spaced f.trailerText ++ [';'])

def text (f : Frame) (keyword inside : Text) : Text :=
  f.opening keyword ++ (inside ++ f.closing)

def compound (f : Frame) (body : Text) : Compound :=
  { qualifier := if f.isTypedef then some ("typedef" : Text) else none
    tag := f.tagText
    body
    declarator := f.trailerText }

theorem spaced_eq {t : Text} (h : t ≠ []) : spaced t = ' ' :: t := by
  simp [spaced, h]

/-- The keywords that a frame is written with. -/
def IsKeyword (keyword : Text) : Prop :=
  keyword = ("enum" : Text) ∨ keyword = ("struct" : Text)

theorem IsKeyword.head {keyword : Text} (h : IsKeyword keyword) :
    ∃ a tail, keyword = a :: tail ∧ a ≠ 't' ∧ a ≠ 'c' ∧
      Text.isSpace a = false := by
  rcases h with rfl | rfl
  · exact ⟨'e', _, rfl, by decide⟩
  · exact ⟨'s', _, rfl, by decide⟩

variable (f : Frame) (keyword rest : Text)

/-- Keyword, tag and brace are read one after another. -/
theorem prefers_tag : ∃ u v,
    Prefers (sequence [literal keyword, wordEnd, spaces])
      (keyword ++ (spaced f.tagText ++ ' ' :: '\x7b' :: rest)) u ∧
    Prefers (Matcher.run Text.isWord) u v ∧ u = f.tagText ++ v ∧
    Prefers (sequence [spaces, literal "\x7b"]) v rest := by
  have hblank (t : Text) (h : Text.Stops Text.isSpace t) :
      Prefers spaces (' ' :: t) t :=
    prefers_run Text.isSpace_blank h
  have hwordEnd (t : Text) : Prefers wordEnd (' ' :: t) (' ' :: t) := rfl
  have hbrace : Text.Stops Text.isSpace ('\x7b' :: rest) :=
    Text.stops_cons (by decide) rest
  have hopen : Prefers (literal "\x7b") ('\x7b' :: rest) rest :=
    prefers_literal _ rest
  unfold tagText
  cases f.tag with
  | none =>
      refine ⟨'\x7b' :: rest, '\x7b' :: rest, ?_, ?_, rfl, ?_⟩
      · exact (prefers_literal keyword _).cons
          ((hwordEnd _).cons ((hblank _ hbrace).cons prefers_sequence_nil))
      · exact prefers_run_self (Text.stops_cons (by decide) rest)
      · exact (prefers_spaces_self hbrace).cons
          (hopen.cons prefers_sequence_nil)
  | some tag =>
      refine ⟨tag.text ++ ' ' :: '\x7b' :: rest, ' ' :: '\x7b' :: rest,
        ?_, ?_, rfl, ?_⟩
      · rw [Option.map_some, Option.getD_some, spaced_eq tag.text_ne_nil]
        exact (prefers_literal keyword _).cons ((hwordEnd _).cons
          ((hblank _ (tag.stops_isSpace _)).cons prefers_sequence_nil))
      · exact prefers_run tag.isWord (Text.stops_cons (by decide) _)
      · exact (hblank _ hbrace).cons (hopen.cons prefers_sequence_nil)

theorem head_opening (hkeyword : IsKeyword keyword) :
    (Compound.head keyword).first? (f.opening keyword ++ rest) =
      some ((if f.isTypedef then some ("typedef" : Text) else none,
        f.tagText), rest) := by
  obtain ⟨a, tail, hhead, ht, hc, hspace⟩ := hkeyword.head
  obtain ⟨u, v, hu, hv, rfl, hrest⟩ := f.prefers_tag keyword rest
  have htext : f.opening keyword ++ rest =
      (if f.isTypedef then ("typedef " : Text) else []) ++
        (keyword ++ (spaced f.tagText ++ ' ' :: '\x7b' :: rest)) := by
    rw [opening, List.append_assoc, List.append_assoc, List.append_assoc]
    rfl
  rw [htext]
  generalize hx : keyword ++ (spaced f.tagText ++ ' ' :: '\x7b' :: rest) =
    x at hu
  have hxhead : x.head? = some a := by
    rw [← hx, hhead]
    rfl
  unfold Rule.first? Compound.head
  simp only [Rule.run_bind]
  cases f.isTypedef with
  | false =>
      have htypedef : x.head? ≠ some 't' := by simpa [hxhead] using ht
      have hconst : x.head? ≠ some 'c' := by simpa [hxhead] using hc
      have hnil : either (sequence [literal "typedef", spaces1])
          (sequence [literal "const", spaces1]) x = [] := by
        rw [either, sequence_eq_nil (literal_eq_nil rfl htypedef),
          sequence_eq_nil (literal_eq_nil rfl hconst), List.append_nil]
      rw [if_neg (by decide), List.nil_append,
        Rule.run_capture?_of_eq_nil hnil]
      apply Rule.run_skip_of_prefers hu
      apply Rule.run_capture_of_prefers hv
      apply Rule.run_skip_of_prefers hrest
      rw [Rule.run_pure, Span.text_append]
      rfl
  | true =>
      have hspaces1 : Prefers spaces1 (' ' :: x) x := by
        apply prefers_run1 (by simp) Text.isSpace_blank
        intro b hb
        rw [hxhead, Option.mem_some_iff] at hb
        exact hb ▸ hspace
      have hqualifier : Prefers (sequence [literal "typedef", spaces1])
          (("typedef " : Text) ++ x) x :=
        (prefers_literal ("typedef" : Text) (' ' :: x)).cons
          (hspaces1.cons prefers_sequence_nil)
      have htrim : Text.trim ("typedef " : Text) = ("typedef" : Text) := by
        decide
      rw [if_pos rfl]
      apply Rule.run_capture?_of_prefers hqualifier.either
      apply Rule.run_skip_of_prefers hu
      apply Rule.run_capture_of_prefers hv
      apply Rule.run_skip_of_prefers hrest
      rw [Rule.run_pure, Span.text_append, Option.map_some,
        Span.text_append, htrim]
      rfl

/-- Behind the brace, the star and the name are read together. -/
theorem prefers_trailer : ∃ u,
    Prefers spaces (spaced f.trailerText ++ ';' :: rest) u ∧
    u = f.trailerText ++ ';' :: rest ∧
    Prefers (sequence [optional (sequence [literal "*", spaces]),
      Matcher.run Text.isWord]) u (';' :: rest) := by
  have hword : Text.Stops Text.isWord (';' :: rest) :=
    Text.stops_cons (by decide) rest
  have hnoStar (t : Text) (h : t.head? ≠ some '*') :
      Prefers (optional (sequence [literal "*", spaces])) t t :=
    prefers_optional_self (sequence_eq_nil (literal_eq_nil rfl h) _)
  unfold trailerText
  cases f.trailer with
  | none =>
      refine ⟨';' :: rest, ?_, rfl, ?_⟩
      · exact prefers_spaces_self (Text.stops_cons (by decide) rest)
      · exact (hnoStar (';' :: rest) (by simp)).cons
          ((prefers_run_self hword).cons prefers_sequence_nil)
  | some v =>
      have hne : v.text ≠ [] := by simp [Trailer.text, v.name.text_ne_nil]
      have hstart : Text.Stops Text.isSpace (v.text ++ ';' :: rest) := by
        intro c hc
        rw [List.head?_append_of_ne_nil _ hne] at hc
        exact v.notSpace c (List.mem_of_mem_head? hc)
      have hname := (prefers_run v.name.isWord hword).cons prefers_sequence_nil
      refine ⟨v.text ++ ';' :: rest, ?_, rfl, ?_⟩
      · rw [Option.map_some, Option.getD_some, spaced_eq hne]
        exact prefers_run Text.isSpace_blank hstart
      · rw [Trailer.text, Trailer.sigils]
        cases v.pointer with
        | false =>
            have hhead : (v.name.text ++ ';' :: rest).head? ≠ some '*' := by
              simpa [Identifier.text] using v.name.head_ne (by decide)
            exact (hnoStar _ hhead).cons hname
        | true =>
            have hstar : Prefers (sequence [literal "*", spaces])
                ('*' :: (v.name.text ++ ';' :: rest))
                (v.name.text ++ ';' :: rest) :=
              (prefers_literal ("*" : Text) _).cons ((prefers_spaces_self
                (v.name.stops_isSpace _)).cons prefers_sequence_nil)
            exact hstar.optional.cons hname

theorem trim_trailerText : Text.trim f.trailerText = f.trailerText := by
  unfold trailerText
  cases f.trailer with
  | none => rfl
  | some v => exact Text.trim_eq_self v.notSpace

theorem tail_closing :
    Compound.tail.first? (spaced f.trailerText ++ ';' :: rest) =
      some (f.trailerText, rest) := by
  obtain ⟨u, hu, rfl, hdeclarator⟩ := f.prefers_trailer rest
  unfold Rule.first? Compound.tail
  simp only [Rule.run_bind]
  apply Rule.run_skip_of_prefers hu
  apply Rule.run_capture_of_prefers hdeclarator
  apply Rule.run_skip_of_prefers (prefers_semicolon rest)
  rw [Rule.run_pure, Span.text_append, trim_trailerText]

/-- A written struct or enum is read back. -/
theorem read?_text {inside : Text} (hkeyword : IsKeyword keyword)
    (hinside : Braced inside) :
    Compound.read? keyword (f.text keyword inside ++ rest) =
      some (f.compound (Text.trim inside), rest) := by
  have htext : f.text keyword inside ++ rest = f.opening keyword ++
      (inside ++ '\x7d' :: (spaced f.trailerText ++ ';' :: rest)) := by
    rw [text, closing, List.append_assoc, List.append_assoc,
      List.cons_append, List.append_assoc, List.singleton_append]
  rw [htext, Compound.read?, f.head_opening keyword _ hkeyword]
  simp only [Option.bind_eq_bind, Option.bind_some, hinside.enclosed,
    f.tail_closing rest]
  rfl

theorem mem_spaced {t : Text} {c : Char} (h : c ∈ spaced t) :
    c = ' ' ∨ c ∈ t := by
  unfold spaced at h
  split at h
  · contradiction
  · exact List.mem_cons.mp h

theorem isIdent_tagText : ∀ c ∈ f.tagText, Text.isIdent c = true := by
  unfold tagText
  cases f.tag with
  | none =>
      intro c hc
      contradiction
  | some tag => exact tag.isIdent

theorem plain_tagText : ∀ c ∈ spaced f.tagText, isPlain c = true := by
  intro c hc
  rcases mem_spaced hc with rfl | hc
  · decide
  · exact isPlain_of_isIdent (f.isIdent_tagText c hc)

theorem plain_trailerText : ∀ c ∈ spaced f.trailerText, isPlain c = true := by
  intro c hc
  rcases mem_spaced hc with rfl | hc
  · decide
  · unfold trailerText at hc
    cases htrailer : f.trailer with
    | none =>
        rw [htrailer] at hc
        contradiction
    | some v =>
        rw [htrailer] at hc
        rcases v.mem_text hc with rfl | hc
        · decide
        · exact isPlain_of_isIdent hc

/-- A frame around matching braces has matching braces. -/
theorem braced_text {inside : Text} (hkeyword : IsKeyword keyword)
    (hinside : Braced inside) : Braced (f.text keyword inside) := by
  have hqualifier : Braced
      (if f.isTypedef then ("typedef " : Text) else []) := by
    split
    · exact .plain (List.all_eq_true.mp rfl)
    · exact .plain (by simp)
  have hword : Braced keyword := by
    rcases hkeyword with rfl | rfl
    · exact .plain (List.all_eq_true.mp rfl)
    · exact .plain (List.all_eq_true.mp rfl)
  have hblank : Braced [' '] := .plain (List.forall_mem_singleton.mpr rfl)
  have hend : Braced [';'] := .plain (List.forall_mem_singleton.mpr rfl)
  have hsplit : f.text keyword inside =
      (if f.isTypedef then ("typedef " : Text) else []) ++ (keyword ++
        (spaced f.tagText ++ ([' '] ++ (('\x7b' :: (inside ++ ['\x7d'])) ++
          (spaced f.trailerText ++ [';']))))) := by
    rw [text, opening, closing]
    simp only [List.append_assoc, List.cons_append, List.nil_append]
  rw [hsplit]
  exact .append hqualifier (.append hword (.append (.plain f.plain_tagText)
    (.append hblank (.append (.wrap hinside)
      (.append (.plain f.plain_trailerText) hend)))))

/-- A frame starts with a letter and ends with a semicolon. -/
theorem text_ends (inside : Text) (hkeyword : IsKeyword keyword) :
    (∃ c t, f.text keyword inside = c :: t ∧ Text.isSpace c = false) ∧
      ∃ x, f.text keyword inside = x ++ [';'] := by
  constructor
  · obtain ⟨a, tail, rfl, _, _, ha⟩ := hkeyword.head
    unfold text opening
    cases f.isTypedef with
    | false => exact ⟨a, _, rfl, ha⟩
    | true => exact ⟨'t', _, rfl, by decide⟩
  · refine ⟨f.opening keyword ++
      (inside ++ '\x7d' :: spaced f.trailerText), ?_⟩
    rw [text, closing]
    simp only [List.append_assoc, List.cons_append]

/-- In front of the brace there are only words and blanks. -/
theorem firstOutside_text (inside : Text) (hkeyword : IsKeyword keyword) :
    Text.FirstOutside Declaration.isTypeChar
      (f.text keyword inside ++ rest) '\x7b' := by
  have hqualifier : ∀ c ∈ (if f.isTypedef then ("typedef " : Text) else []),
      Declaration.isTypeChar c = true := by
    split
    · exact List.all_eq_true.mp rfl
    · simp
  have hword : ∀ c ∈ keyword, Declaration.isTypeChar c = true := by
    rcases hkeyword with rfl | rfl
    · exact List.all_eq_true.mp rfl
    · exact List.all_eq_true.mp rfl
  have htag : ∀ c ∈ spaced f.tagText, Declaration.isTypeChar c = true := by
    intro c hc
    rcases mem_spaced hc with rfl | hc
    · decide
    · exact Declaration.isTypeChar_of_isWord c
        (Text.isWord_of_isIdent (f.isIdent_tagText c hc))
  have hblank : ∀ c ∈ [' '], Declaration.isTypeChar c = true :=
    List.forall_mem_singleton.mpr rfl
  have hsplit : f.text keyword inside ++ rest =
      (if f.isTypedef then ("typedef " : Text) else []) ++ (keyword ++
        (spaced f.tagText ++ ([' '] ++ '\x7b' ::
          (inside ++ (f.closing ++ rest))))) := by
    rw [text, opening]
    simp only [List.append_assoc, List.cons_append, List.nil_append]
  rw [hsplit]
  exact ((((Text.firstOutside_cons (by decide) _).append hblank).append
    htag).append hword).append hqualifier

/-! ## Names -/

/-- The name that a written struct or enum is known by. -/
def name? : Option Identifier :=
  if f.isTypedef then (f.trailer.map Trailer.name).or f.tag
  else f.tag.or (f.trailer.map Trailer.name)

theorem declaredName_compound (body : Text) :
    (f.compound body).declaredName =
      ((f.trailer.map Trailer.name).map Identifier.text).getD [] := by
  unfold Compound.declaredName compound trailerText
  cases f.trailer with
  | none => rfl
  | some v =>
      have hstop : Text.Stops (fun x => x == '*' || Text.isSpace x)
          v.name.text := by
        intro c hc
        have hmem := List.mem_of_mem_head? hc
        simp only [Bool.or_eq_false_iff, beq_eq_false_iff_ne]
        exact ⟨fun h => v.name.notMem (by decide) (h ▸ hmem),
          v.name.notSpace c hmem⟩
      simp only [Option.map_some, Option.getD_some]
      apply hstop.dropWhile_append
      intro c hc
      unfold Trailer.sigils at hc
      split at hc
      · simp [List.mem_singleton.mp hc]
      · contradiction

theorem sigils_compound (body : Text) :
    (f.compound body).sigils = (f.trailer.map Trailer.sigils).getD [] := by
  have hdeclarator : (f.compound body).declarator =
      (f.trailer.map Trailer.sigils).getD [] ++
        (f.compound body).declaredName := by
    rw [declaredName_compound]
    unfold compound trailerText
    cases f.trailer with
    | none => rfl
    | some v => rfl
  unfold Compound.sigils
  rw [hdeclarator, Text.upTo_append]
  cases f.trailer with
  | none => rfl
  | some v =>
      apply Text.trim_eq_self
      intro c hc
      exact v.notSpace c (List.mem_append_left _ hc)

theorem isTypedef_compound (body : Text) :
    (f.compound body).isTypedef = f.isTypedef := by
  unfold Compound.isTypedef compound
  cases f.isTypedef with
  | false => rfl
  | true => rfl

theorem resolvedName_compound {name : Identifier} (h : f.name? = some name)
    (body : Text) : (f.compound body).resolvedName = some name.text := by
  have htag : (f.compound body).tag = (f.tag.map Identifier.text).getD [] := rfl
  have hfind (i j : Option Identifier) :
      [(i.map Identifier.text).getD [], (j.map Identifier.text).getD []].find?
        (!·.isEmpty) = (i.or j).map Identifier.text := by
    cases i with
    | none =>
        cases j with
        | none => rfl
        | some j => rfl
    | some i => rfl
  have hresolved : (f.compound body).resolvedName =
      f.name?.map Identifier.text := by
    unfold Compound.resolvedName name?
    rw [isTypedef_compound, declaredName_compound, htag]
    cases f.isTypedef with
    | false => exact hfind _ _
    | true => exact hfind _ _
  rw [hresolved, h, Option.map_some]

theorem declaredVariable?_compound (body : Text) :
    (f.compound body).declaredVariable? =
      if f.isTypedef then none
      else f.trailer.map fun v => v.name.text := by
  unfold Compound.declaredVariable?
  rw [isTypedef_compound, declaredName_compound]
  cases f.isTypedef with
  | true => rfl
  | false =>
      cases f.trailer with
      | none => rfl
      | some v => rfl

end Frame

end Bindery.Source
