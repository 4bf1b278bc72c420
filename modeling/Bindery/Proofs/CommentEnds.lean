import Bindery.Binding.TypeScript
import Bindery.Proofs.CodeBytes
import Bindery.Proofs.CommentExtent
import Bindery.Proofs.ParamSections

/-!
# Ends of comments in documentation

Documentation is written into the generated declarations as a comment, as it
stands.  The comment ends where it should exactly if neither the documentation
nor the padding brings a star and a slash of its own.

A block documents with what stands in front of its first star and slash.
Cleaning documentation up only takes something away at the ends of its lines,
so a star and a slash that stand together in the result stood together in the
comment, and no block gives documentation that ends another comment.  A line
that begins with three slashes may hold anything.
-/

namespace Bindery

namespace Text

/-! ## Occurrences of a mark -/

/-- The number of places at which `mark` occurs. -/
def occurrences (mark t : Text) : Nat := t.tails.countP (startsWith mark)

/-- An end of a comment stands in the text. -/
def HoldsEnd (t : Text) : Prop := ("*/" : Text) <:+: t

instance (t : Text) : Decidable (HoldsEnd t) :=
  inferInstanceAs (Decidable (("*/" : Text) <:+: t))

/-- An end of a comment stands behind three slashes on one line. -/
def HoldsEndOnLine (t : Text) : Prop :=
  ∃ line, ("///" : Text) ++ line <:+: t ∧ '\n' ∉ line ∧ HoldsEnd line

variable {mark t u v : Text} {c : Char}

theorem startsWith_iff : startsWith mark t = true ↔ mark <+: t := by
  rw [startsWith, Option.isSome_iff_exists]
  constructor
  · rintro ⟨rest, hrest⟩
    exact ⟨rest, (after?_eq_some_iff.mp hrest).symm⟩
  · rintro ⟨rest, hrest⟩
    exact ⟨rest, after?_eq_some_iff.mpr hrest.symm⟩

theorem occurrences_cons (mark : Text) (c : Char) (t : Text) :
    occurrences mark (c :: t) =
      occurrences mark t + if startsWith mark (c :: t) then 1 else 0 := by
  rw [occurrences, List.tails_cons, List.countP_cons]
  rfl

theorem occurrences_eq_zero_iff :
    occurrences mark t = 0 ↔ ¬ mark <:+: t := by
  simp only [occurrences, List.countP_eq_zero, List.mem_tails, startsWith_iff,
    List.infix_iff_prefix_suffix, not_exists, not_and]
  exact forall_congr' fun s => imp_not_comm

theorem prefix_append_cons_iff (hc : c ∉ mark) :
    mark <+: u ++ c :: v ↔ mark <+: u := by
  constructor
  · intro h
    have hcut : u ++ [c] <+: u ++ c :: v := ⟨v, by simp⟩
    rcases List.prefix_or_prefix_of_prefix h hcut with hmark | hmark
    · rcases List.prefix_concat_iff.mp hmark with rfl | hmark
      · simp at hc
      · exact hmark
    · exact absurd (hmark.subset (by simp)) hc
  · exact fun h => h.trans (List.prefix_append u _)

/-- No occurrence reaches over a character that is not in the mark. -/
theorem occurrences_append_cons (hc : c ∉ mark) (u v : Text) :
    occurrences mark (u ++ c :: v) =
      occurrences mark u + occurrences mark v := by
  have hstarts (w : Text) :
      startsWith mark (w ++ c :: v) = startsWith mark w := by
    rw [Bool.eq_iff_iff, startsWith_iff, startsWith_iff,
      prefix_append_cons_iff hc]
  induction u with
  | nil =>
      have hnil := hstarts []
      rw [List.nil_append] at hnil ⊢
      rw [occurrences_cons, hnil, Nat.add_comm]
      simp [occurrences, List.countP_cons]
  | cons x u ih =>
      rw [List.cons_append, occurrences_cons, occurrences_cons, ih,
        ← List.cons_append, hstarts]
      omega

theorem infix_append_cons_iff (hc : c ∉ mark) :
    mark <:+: u ++ c :: v ↔ mark <:+: u ∨ mark <:+: v := by
  rw [← not_iff_not, not_or, ← occurrences_eq_zero_iff,
    ← occurrences_eq_zero_iff, ← occurrences_eq_zero_iff,
    occurrences_append_cons hc, Nat.add_eq_zero_iff]

/-- Nor does an occurrence begin among other characters than the first of the
mark. -/
theorem infix_of_infix_append (hc : c ∉ u) (h : c :: mark <:+: u ++ v) :
    c :: mark <:+: v := by
  induction u with
  | nil => exact h
  | cons x u ih =>
      rw [List.mem_cons, not_or] at hc
      rcases List.infix_cons_iff.mp h with hbegin | hwithin
      · exact absurd (List.cons_prefix_cons.mp hbegin).1 hc.1
      · exact ih hc.2 hwithin

theorem not_infix_of_cut? {before rest : Text} (hmark : mark ≠ [])
    (h : cut? mark t = some (before, rest)) : ¬ mark <:+: before := by
  induction t generalizing before with
  | nil =>
      obtain ⟨rest', hrest, _⟩ := Option.map_eq_some_iff.mp h
      have hnil := after?_eq_some_iff.mp hrest
      exact absurd (List.append_eq_nil_iff.mp hnil.symm).1 hmark
  | cons x t ih =>
      cases hafter : after? mark (x :: t) with
      | some rest' =>
          rw [cut?_of_after? hafter] at h
          simp only [Option.some.injEq, Prod.mk.injEq] at h
          rw [← h.1, List.infix_nil]
          exact hmark
      | none =>
          have hcut := cut?_cons hafter
          rw [h] at hcut
          obtain ⟨⟨before', rest'⟩, hbefore, heq⟩ :=
            Option.map_eq_some_iff.mp hcut.symm
          simp only [Prod.mk.injEq] at heq
          rw [heq.2] at hbefore
          rw [← heq.1, List.infix_cons_iff]
          rintro (hbegin | hwithin)
          · -- The mark would have been found where the text begins.
            have hstart : mark <+: x :: t := by
              rw [eq_of_cut? hbefore]
              exact hbegin.trans (List.prefix_append (x :: before') _)
            rw [← startsWith_iff, startsWith, hafter] at hstart
            contradiction
          · exact ih hbefore hwithin

/-! ## Parts of a text -/

theorem infix_trim (t : Text) : trim t <:+: t := by
  obtain ⟨blanks, blanks', _, _, hsplit⟩ := trim_split t
  exact ⟨blanks, blanks', by rw [List.append_assoc, ← hsplit]⟩

theorem infix_join_of_mem {separator piece : Text} {pieces : List Text}
    (h : piece ∈ pieces) : piece <:+: join separator pieces := by
  induction pieces with
  | nil => contradiction
  | cons first pieces ih =>
      rw [join] at ih ⊢
      by_cases hpieces : pieces = []
      · subst pieces
        rw [List.mem_singleton.mp h, List.intercalate_singleton]
      · rw [List.intercalate_cons_of_ne_nil hpieces]
        rcases List.mem_cons.mp h with rfl | h
        · rw [List.append_assoc]
          exact List.infix_append [] piece _
        · exact (ih h).trans (List.suffix_append _ _).isInfix

theorem infix_of_mem_splitOn {piece : Text} (h : piece ∈ t.splitOn c) :
    piece <:+: t := by
  have hjoin : piece <:+: join [c] (t.splitOn c) := infix_join_of_mem h
  rwa [join, List.intercalate_splitOn] at hjoin

theorem prefix_withoutReturn (line : Text) :
    (before? ['\r'] line).getD line <+: line := by
  cases hbefore : before? ['\r'] line with
  | none => exact List.prefix_rfl
  | some front =>
      rw [before?_eq_some_iff.mp hbefore]
      exact List.prefix_append front _

theorem infix_of_mem_lines {line : Text} (h : line ∈ lines t) :
    line <:+: t := by
  have hended {piece : Text} (hpiece : piece ∈ (t.splitOn '\n').dropLast) :
      (before? ['\r'] piece).getD piece <:+: t :=
    (prefix_withoutReturn piece).isInfix.trans
      (infix_of_mem_splitOn (List.mem_of_mem_dropLast hpiece))
  unfold lines at h
  split at h
  · contradiction
  · simp only at h
    split at h
    · next last hlast =>
      rcases List.mem_append.mp h with h | h
      · obtain ⟨piece, hpiece, rfl⟩ := List.mem_map.mp h
        exact hended hpiece
      · rw [List.mem_singleton.mp h]
        exact infix_of_mem_splitOn (List.mem_of_getLast? hlast)
    · obtain ⟨piece, hpiece, rfl⟩ := List.mem_map.mp h
      exact hended hpiece

/-- The first line is a beginning of the text. -/
theorem headD_lines (t : Text) :
    (lines t).headD [] <+: t ∧ '\n' ∉ (lines t).headD [] := by
  by_cases hfeed : '\n' ∈ t
  · obtain ⟨first, rest, rfl, hfirst⟩ := List.eq_append_cons_of_mem hfeed
    have hhead : (lines (first ++ '\n' :: rest)).headD [] =
        (before? ['\r'] first).getD first := by
      obtain ⟨second, others, hrest⟩ :=
        List.exists_cons_of_ne_nil (List.splitOnP_ne_nil (· == '\n') rest)
      rw [lines, splitOn_append_cons, splitOn_of_notMem hfirst, List.splitOn,
        hrest]
      simp only [List.singleton_append, List.dropLast_cons_cons, List.map_cons]
      split
      · rfl
      · rfl
    rw [hhead]
    have hbegin := prefix_withoutReturn first
    exact ⟨hbegin.trans (List.prefix_append _ _),
      fun hmem => hfirst (hbegin.subset hmem)⟩
  · cases t with
    | nil => exact ⟨List.prefix_rfl, hfeed⟩
    | cons c t =>
        have hlines : lines (c :: t) = [c :: t] := by
          rw [lines, splitOn_of_notMem hfeed]
          rfl
        rw [hlines]
        exact ⟨List.prefix_rfl, hfeed⟩

/-- A separator that is not in the mark keeps the pieces apart. -/
theorem exists_infix_of_infix_join (hmark : mark ≠ []) (hc : c ∉ mark)
    {pieces : List Text} (h : mark <:+: join [c] pieces) :
    ∃ piece ∈ pieces, mark <:+: piece := by
  induction pieces with
  | nil => exact absurd (List.infix_nil.mp h) hmark
  | cons first pieces ih =>
      rw [join] at h ih
      by_cases hpieces : pieces = []
      · rw [hpieces, List.intercalate_singleton] at h
        exact ⟨first, List.mem_cons_self, h⟩
      · rw [List.intercalate_cons_of_ne_nil hpieces, List.append_assoc,
          List.singleton_append, infix_append_cons_iff hc] at h
        rcases h with h | h
        · exact ⟨first, List.mem_cons_self, h⟩
        · obtain ⟨piece, hpiece, h⟩ := ih h
          exact ⟨piece, List.mem_cons_of_mem _ hpiece, h⟩

end Text

/-! ## The rendered comment -/

namespace TypeScript

open Text

/-- A comment with this padding whose only end stands in front of the final
line feed. -/
structure IsDocComment (pad t : Text) : Prop where
  ends : ∃ body, t = Text.concat [pad, "/**", body, "*/\n"]
  once : occurrences "*/" t = 1

theorem holdsEnd_concat_star {t : Text} :
    HoldsEnd (t ++ ['*']) ↔ HoldsEnd t := by
  unfold HoldsEnd
  rw [List.infix_concat_iff, or_iff_right]
  intro h
  have hlast := h.getLast (by simp)
  simp at hlast

theorem holdsEnd_opening {pad : Text} :
    HoldsEnd (pad ++ ("/**" : Text)) ↔ HoldsEnd (pad ++ ("/" : Text)) := by
  have hsplit : pad ++ ("/**" : Text) =
      pad ++ ("/" : Text) ++ ['*'] ++ ['*'] := by simp
  rw [hsplit, holdsEnd_concat_star, holdsEnd_concat_star]

theorem occurrences_line (pad doc : Text) :
    occurrences "*/" (Text.concat [pad, "/** ", doc, " */\n"]) =
      occurrences "*/" (pad ++ ("/**" : Text)) + occurrences "*/" doc + 1 := by
  have hsplit : Text.concat [pad, "/** ", doc, " */\n"] =
      (pad ++ ("/**" : Text)) ++ ' ' :: (doc ++ ' ' :: ['*', '/', '\n']) := by
    simp [Text.concat]
  have hend : occurrences "*/" ['*', '/', '\n'] = 1 := by decide
  rw [hsplit, occurrences_append_cons (by decide),
    occurrences_append_cons (by decide), hend, Nat.add_assoc]

theorem occurrences_join {separator : Text}
    (h : ∀ u v, occurrences "*/" (u ++ separator ++ v) =
      occurrences "*/" u + occurrences "*/" v) (lines : List Text) :
    occurrences "*/" (Text.join separator lines) =
      (lines.map (occurrences "*/")).sum := by
  induction lines with
  | nil => rfl
  | cons line lines ih =>
      rw [Text.join] at ih ⊢
      rw [List.map_cons, List.sum_cons]
      by_cases hlines : lines = []
      · subst lines
        simp
      · rw [List.intercalate_cons_of_ne_nil hlines, h, ih]

theorem occurrences_block (pad lines : Text) :
    occurrences "*/"
        (Text.concat [pad, "/**\n", pad, " * ", lines, "\n", pad, " */\n"]) =
      occurrences "*/" (pad ++ ("/**" : Text)) + occurrences "*/" pad +
        occurrences "*/" lines + occurrences "*/" pad + 1 := by
  have hsplit : Text.concat [pad, "/**\n", pad, " * ", lines, "\n", pad,
      " */\n"] = (pad ++ ("/**" : Text)) ++ '\n' :: (pad ++ ' ' :: (['*'] ++
        ' ' :: (lines ++ '\n' :: (pad ++ ' ' :: ['*', '/', '\n'])))) := by
    simp [Text.concat]
  have hstar : occurrences "*/" ['*'] = 0 := by decide
  have hend : occurrences "*/" ['*', '/', '\n'] = 1 := by decide
  rw [hsplit, occurrences_append_cons (by decide),
    occurrences_append_cons (by decide), occurrences_append_cons (by decide),
    occurrences_append_cons (by decide), occurrences_append_cons (by decide),
    hstar, hend]
  omega

/-- Padding without an end of a comment brings none between the lines. -/
theorem occurrences_join_pad {pad : Text} (hpad : occurrences "*/" pad = 0)
    (doc : Text) :
    occurrences "*/" (Text.join (Text.concat ["\n", pad, " * "])
      (doc.splitOn '\n')) = occurrences "*/" doc := by
  have hfeed : occurrences "*/" (Text.join ['\n'] (doc.splitOn '\n')) =
      occurrences "*/" doc := by
    rw [Text.join, List.intercalate_splitOn]
  rw [← hfeed, occurrences_join, occurrences_join]
  · intro u v
    rw [List.append_assoc, List.singleton_append,
      occurrences_append_cons (by decide)]
  · intro u v
    have hsplit : u ++ Text.concat ["\n", pad, " * "] ++ v =
        u ++ '\n' :: (pad ++ ' ' :: (['*'] ++ ' ' :: v)) := by
      simp [Text.concat]
    have hstar : occurrences "*/" ['*'] = 0 := by decide
    rw [hsplit, occurrences_append_cons (by decide),
      occurrences_append_cons (by decide), occurrences_append_cons (by decide),
      hpad, hstar]
    omega

theorem occurrences_docText_eq_one_iff (pad doc : Text) :
    occurrences "*/" (docText pad (some doc)) = 1 ↔
      ¬ HoldsEnd doc ∧ ¬ HoldsEnd (pad ++ ("/" : Text)) := by
  rw [← holdsEnd_opening, HoldsEnd, HoldsEnd, ← occurrences_eq_zero_iff,
    ← occurrences_eq_zero_iff, docText]
  split
  · rw [occurrences_block]
    constructor
    · intro h
      have hpad : occurrences "*/" pad = 0 := by omega
      rw [occurrences_join_pad hpad] at h
      omega
    · rintro ⟨hdoc, hopening⟩
      have hpad : occurrences "*/" pad = 0 := by
        rw [occurrences_eq_zero_iff] at hopening ⊢
        exact fun h => hopening (h.trans (List.prefix_append pad _).isInfix)
      rw [occurrences_join_pad hpad]
      omega
  · rw [occurrences_line]
    omega

theorem isDocComment_docText_iff (pad doc : Text) :
    IsDocComment pad (docText pad (some doc)) ↔
      ¬ HoldsEnd doc ∧ ¬ HoldsEnd (pad ++ ("/" : Text)) := by
  rw [← occurrences_docText_eq_one_iff]
  refine ⟨IsDocComment.once, fun h => ⟨?_, h⟩⟩
  rw [docText]
  split
  · exact ⟨Text.concat ["\n", pad, " * ", Text.join (Text.concat
      ["\n", pad, " * "]) (doc.splitOn '\n'), "\n", pad, " "],
      by simp [Text.concat]⟩
  · exact ⟨Text.concat [" ", doc, " "], by simp [Text.concat]⟩

end TypeScript

/-! ## Documentation without its decoration -/

namespace Source

open Text

theorem infix_undecorated (line : Text) : undecorated line <:+: line := by
  have htrim := infix_trim line
  unfold undecorated
  simp only
  split
  · next rest hrest =>
    rw [after?_eq_some_iff.mp hrest] at htrim
    exact ((infix_trim rest).trans
      (List.suffix_append _ rest).isInfix).trans htrim
  · exact htrim

/-- Lines that are taken from the lines of a text and put together again. -/
theorem holdsEnd_of_join_lines {f : Text → Text}
    (hf : ∀ line, f line <:+: line) {t : Text}
    (h : HoldsEnd (Text.join "\n" ((Text.lines t).map f))) : HoldsEnd t := by
  obtain ⟨piece, hpiece, hend⟩ :=
    exists_infix_of_infix_join (c := '\n') (by simp) (by decide) h
  obtain ⟨line, hline, rfl⟩ := List.mem_map.mp hpiece
  exact hend.trans ((hf line).trans (infix_of_mem_lines hline))

theorem holdsEnd_of_cleanDescription {t : Text}
    (h : HoldsEnd (cleanDescription t)) : HoldsEnd t :=
  (holdsEnd_of_join_lines infix_undecorated (h.trans (infix_trim _))).trans
    (infix_trim t)

theorem holdsEnd_of_docLinesText {t : Text} (h : HoldsEnd (docLinesText t)) :
    HoldsEnd t := by
  refine holdsEnd_of_join_lines ?_ (holdsEnd_of_cleanDescription h)
  intro line
  exact (infix_trim _).trans ((List.dropWhile_suffix _).isInfix.trans
    (List.dropWhile_suffix _).isInfix)

theorem not_holdsEnd_docBlockText {inside : Text} (h : ¬ HoldsEnd inside) :
    ¬ HoldsEnd (docBlockText (Text.concat ["/**", inside, "*/"])) := by
  have hafter : Text.after? "/**" (Text.concat ["/**", inside, "*/"]) =
      some (inside ++ ("*/" : Text)) := by
    rw [after?_eq_some_iff]
    simp [Text.concat]
  have hbefore : Text.before? "*/" (inside ++ ("*/" : Text)) = some inside :=
    before?_eq_some_iff.mpr rfl
  rw [docBlockText, hafter, Option.bind_some, hbefore, Option.getD_some]
  exact fun hend => h (holdsEnd_of_cleanDescription hend)

/-! ## Comments -/

/-- An end of a comment in the documentation comes from a line of the text that
has it behind three slashes. -/
def Accounts (t doc : Text) : Prop := HoldsEnd doc → HoldsEndOnLine t

theorem Accounts.mono {t u doc : Text} (h : Accounts u doc) (hu : u <:+: t) :
    Accounts t doc := by
  intro hend
  obtain ⟨line, hline, hfeed, hend⟩ := h hend
  exact ⟨line, hline.trans hu, hfeed, hend⟩

theorem accounts_slashes {line : Text} (hfeed : '\n' ∉ line) :
    Accounts (("///" : Text) ++ line) (("///" : Text) ++ line) := by
  intro hend
  exact ⟨line, List.infix_rfl, hfeed, infix_of_infix_append (by decide) hend⟩

theorem accounts_block (t : Text) {inside : Text} (h : ¬ HoldsEnd inside) :
    Accounts t (docBlockText (Text.concat ["/**", inside, "*/"])) :=
  fun hend => absurd hend (not_holdsEnd_docBlockText h)

/-- A run of lines that begin with three slashes, blanks apart. -/
inductive DocLines : Text → Prop
  | first {line : Text} (hline : '\n' ∉ line) :
    DocLines (("///" : Text) ++ line)
  | next {t blanks line : Text} (ht : DocLines t) (hblanks : '*' ∉ blanks)
    (hline : '\n' ∉ line) :
    DocLines (t ++ '\n' :: (blanks ++ (("///" : Text) ++ line)))

theorem DocLines.accounts {t : Text} (h : DocLines t) : Accounts t t := by
  induction h with
  | first hline => exact accounts_slashes hline
  | @next t blanks line ht hblanks hline ih =>
      intro hend
      rcases (infix_append_cons_iff (by decide)).mp hend with hend | hend
      · exact ih.mono (List.prefix_append _ _).isInfix hend
      · refine (accounts_slashes hline).mono ?_
          (infix_of_infix_append hblanks hend)
        exact ⟨t ++ '\n' :: blanks, [], by simp⟩

open Matcher

theorem exists_line {t rest : Text} (h : rest ∈ run notLineFeed t) :
    ∃ line, t = line ++ rest ∧ '\n' ∉ line := by
  obtain ⟨line, hline, hsplit⟩ := Text.takes_dropWhile notLineFeed t
  rw [← mem_run.mp h] at hsplit
  refine ⟨line, hsplit, fun hmem => ?_⟩
  have hfeed := hline _ hmem
  contradiction

/-- Each further line goes on with the run. -/
theorem DocLines.of_mem_repeated {t part mid rest : Text}
    (hpart : DocLines part) (ht : t = part ++ mid)
    (h : rest ∈ repeated (sequence [literal "\n", run Text.isInlineSpace,
      literal "///", run notLineFeed]) mid) :
    ∃ lines, t = lines ++ rest ∧ DocLines lines := by
  induction hn : mid.length using Nat.strong_induction_on
    generalizing part mid with
  | _ n ih =>
      rw [repeated, List.mem_append, List.mem_flatMap] at h
      rcases h with ⟨mid', hmid', h⟩ | h
      · split at h
        · next hlt =>
          simp only [mem_sequence_cons, mem_sequence_nil, mem_literal] at hmid'
          obtain ⟨t1, rfl, t2, ht2, t3, rfl, t4, ht4, rfl⟩ := hmid'
          obtain ⟨blanks, hblanks, hsplit⟩ :=
            Text.takes_dropWhile Text.isInlineSpace t1
          rw [← mem_run.mp ht2] at hsplit
          obtain ⟨line, rfl, hline⟩ := exists_line ht4
          have hstar : '*' ∉ blanks := by
            intro hmem
            have hspace := hblanks _ hmem
            contradiction
          refine ih mid'.length (hn ▸ hlt) (hpart.next hstar hline) ?_ h rfl
          rw [ht, hsplit]
          simp
        · contradiction
      · rw [List.mem_singleton.mp h]
        exact ⟨part, ht, hpart⟩

theorem exists_docLines {t rest : Text} (h : rest ∈ docLines t) :
    ∃ lines, t = lines ++ rest ∧ DocLines lines := by
  obtain ⟨t1, ht1, hfirst⟩ := mem_sequence_cons.mp h
  obtain ⟨t2, ht2, hnext⟩ := mem_sequence_cons.mp hfirst
  obtain ⟨line, rfl, hline⟩ := exists_line ht2
  refine (DocLines.first hline).of_mem_repeated ?_ hnext
  rw [mem_literal.mp ht1, List.append_assoc]

theorem accounts_of_docRule {α : Type} {t text rest : Text}
    (h : (docRule : Rule (Piece α)).first? t = some (.doc text, rest)) :
    Accounts t text := by
  simp only [docRule, Rule.first?, Option.or_eq_some_iff] at h
  rcases h with h | ⟨_, h⟩
  · obtain ⟨left, hmem, heq⟩ := Rule.of_run_capture h
    obtain ⟨lines, rfl, hlines⟩ := exists_docLines hmem
    simp only [Span.text_append, Option.some.injEq, Prod.mk.injEq,
      Piece.doc.injEq] at heq
    rw [← heq.1]
    intro hend
    exact hlines.accounts.mono (List.prefix_append _ _).isInfix
      (holdsEnd_of_docLinesText hend)
  · obtain ⟨left, hmem, heq⟩ := Rule.of_run_capture h
    obtain ⟨t1, ht1, hthrough⟩ := mem_sequence_cons.mp hmem
    obtain ⟨inside, hcut⟩ := mem_through.mp hthrough
    have hsplit : t = Text.concat ["/**", inside, "*/"] ++ left := by
      rw [mem_literal.mp ht1, Text.eq_of_cut? hcut]
      simp [Text.concat]
    subst t
    simp only [Span.text_append, Option.some.injEq, Prod.mk.injEq,
      Piece.doc.injEq] at heq
    rw [← heq.1]
    exact accounts_block _ (not_infix_of_cut? (by simp) hcut)

/-- A line comment ends at the first line feed and a block comment at the first
star and slash. -/
def Lexeme.Whole : Lexeme → Prop
  | .code _ => True
  | .lineComment body _ => '\n' ∉ body
  | .blockComment body _ => ¬ HoldsEnd body

theorem whole_of_mem_lexFrom {mode : LexMode} {t : Text} (h : mode.Open t)
    {l : Lexeme} (hl : l ∈ lexFrom mode t) : l.Whole := by
  fun_induction lexFrom mode t with
  | case1 => contradiction
  | case2 t ih => exact ih (by simp [LexMode.Open]) hl
  | case3 t ih =>
      refine ih (fun hwithin => ?_) hl
      have hle := hwithin.length_le
      simp at hle
  | case4 c t _ _ ih =>
      rcases List.mem_cons.mp hl with rfl | hl
      · trivial
      · exact ih trivial hl
  | case5 read =>
      rw [List.mem_singleton.mp hl]
      exact fun hmem => h (List.mem_reverse.mp hmem)
  | case6 read t ih =>
      rcases List.mem_cons.mp hl with rfl | hl
      · exact fun hmem => h (List.mem_reverse.mp hmem)
      · exact ih trivial hl
  | case7 read c t hc ih =>
      refine ih ?_ hl
      simp only [LexMode.Open, List.mem_cons, not_or]
      exact ⟨fun heq => hc heq.symm, h⟩
  | case8 read =>
      rw [List.mem_singleton.mp hl]
      exact fun hend => h (hend.trans (List.prefix_append _ _).isInfix)
  | case9 read t ih =>
      rcases List.mem_cons.mp hl with rfl | hl
      · exact fun hend => h (hend.trans (List.prefix_append _ _).isInfix)
      · exact ih trivial hl
  | case10 read c t hend ih => exact ih (open_block_cons h hend) hl

theorem whole_of_mem_lex {t : Text} {l : Lexeme} (hl : l ∈ lex t) :
    l.Whole := by
  have hopen : LexMode.code.Open t := trivial
  exact whole_of_mem_lexFrom hopen hl

theorem text_infix_of_mem_lex {t : Text} {l : Lexeme} (hl : l ∈ lex t) :
    l.text <:+: t := by
  obtain ⟨before, after, hsplit⟩ := List.append_of_mem hl
  refine ⟨Lexeme.textOf before, Lexeme.textOf after, ?_⟩
  rw [← textOf_lex t, hsplit]
  simp [Lexeme.textOf]

/-- A block that is not closed is taken with its opening, which adds no end. -/
theorem not_holdsEnd_open_block {body : Text} (h : ¬ HoldsEnd ('*' :: body)) :
    ¬ HoldsEnd (docBlockText ('/' :: '*' :: '*' :: body)) := by
  have hafter : Text.after? "/**" ('/' :: '*' :: '*' :: body) = some body :=
    after?_eq_some_iff.mpr rfl
  have hbefore : Text.before? "*/" body = none := by
    rw [Option.eq_none_iff_forall_ne_some]
    intro inside hinside
    apply h
    rw [before?_eq_some_iff.mp hinside]
    exact ⟨'*' :: inside, [], by simp⟩
  rw [docBlockText, hafter, Option.bind_some, hbefore, Option.getD_none]
  intro hend
  have hopen : HoldsEnd (['/'] ++ '*' :: '*' :: body) :=
    holdsEnd_of_cleanDescription hend
  have hstars : ['*', '/'] <:+: '*' :: '*' :: body :=
    infix_of_infix_append (by decide) hopen
  rcases List.infix_cons_iff.mp hstars with hbegin | hwithin
  · simp [List.cons_prefix_cons] at hbegin
  · exact h hwithin

theorem Lexeme.Whole.accounts {l : Lexeme} (hl : l.Whole) {text : Text}
    (h : l.documentation = some text) : Accounts l.text text := by
  unfold Lexeme.documentation at h
  split at h
  · next body ended =>
    have hfeed : '\n' ∉ body := fun hmem => hl (List.mem_cons_of_mem _ hmem)
    rw [← Option.some.inj h]
    intro hend
    exact (accounts_slashes hfeed).mono (List.prefix_append _ _).isInfix
      (holdsEnd_of_docLinesText hend)
  · next body closed =>
    rw [← Option.some.inj h]
    cases closed with
    | true =>
        have hbody : ¬ HoldsEnd body := fun hbody =>
          hl (hbody.trans (List.suffix_cons '*' body).isInfix)
        have htext : Lexeme.text (.blockComment ('*' :: body) true) =
            Text.concat ["/**", body, "*/"] := by
          simp [Lexeme.text, Text.concat]
        rw [htext]
        exact accounts_block _ hbody
    | false =>
        have htext : Lexeme.text (.blockComment ('*' :: body) false) =
            '/' :: '*' :: '*' :: body := by
          simp [Lexeme.text]
        rw [htext]
        exact fun hend => absurd hend (not_holdsEnd_open_block hl)
  · contradiction

theorem documentation_of_skipLeadingComments {doc : Option Text}
    {ls : List Lexeme} {text : Text}
    (h : (skipLeadingComments doc ls).1 = some text) :
    doc = some text ∨ ∃ l ∈ ls, l.documentation = some text := by
  fun_induction skipLeadingComments doc ls with
  | case1 doc => exact .inl h
  | case2 doc c ls _ ih =>
      rcases ih h with h | ⟨l, hl, h⟩
      · exact .inl h
      · exact .inr ⟨l, List.mem_cons_of_mem _ hl, h⟩
  | case3 doc c ls _ => exact .inl h
  | case4 doc comment ls _ ih =>
      rcases ih h with h | ⟨l, hl, h⟩
      · rcases Option.or_eq_some_iff.mp h with h | ⟨_, h⟩
        · exact .inr ⟨comment, List.mem_cons_self, h⟩
        · exact .inl h
      · exact .inr ⟨l, List.mem_cons_of_mem _ hl, h⟩

theorem Enumerator.accounts_of_parse? {piece text : Text} {e : Enumerator}
    (h : Enumerator.parse? piece = some e) (htext : e.description = some text) :
    Accounts piece text := by
  have hdoc : (skipLeadingComments none (lex piece)).1 = some text := by
    simp only [Enumerator.parse?] at h
    split at h
    all_goals
      simp only [Option.ite_none_left_eq_some, Option.some.injEq] at h
      rw [← h.2] at htext
      exact Option.filter_eq_some_iff.mp htext |>.1
  rcases documentation_of_skipLeadingComments hdoc with hnone | ⟨l, hl, hdoc⟩
  · contradiction
  · exact ((whole_of_mem_lex hl).accounts hdoc).mono (text_infix_of_mem_lex hl)

theorem accounts_of_leadingDescription {raw text : Text}
    (h : leadingDescription raw = some text) : Accounts raw text := by
  unfold leadingDescription at h
  split at h
  · next hstart =>
    obtain ⟨hbegin, hfeed⟩ := headD_lines raw
    rw [← Option.some.inj h]
    intro hend
    have hline := holdsEnd_of_docLinesText hend
    generalize (Text.lines raw).headD [] = line at hbegin hfeed hline
    rw [startsWith_iff] at hstart
    rcases List.prefix_or_prefix_of_prefix hbegin hstart with hshort | hlong
    · -- There is no star among the slashes.
      have hstar : '*' ∈ ("///" : Text) :=
        hshort.subset (hline.subset (by decide))
      contradiction
    · obtain ⟨rest, rfl⟩ := hlong
      have hrest : '\n' ∉ rest := fun hmem =>
        hfeed (List.mem_append_right _ hmem)
      exact (accounts_slashes hrest).mono hbegin.isInfix hline
  · simp only [Option.bind_eq_bind, Option.bind_eq_some_iff] at h
    obtain ⟨body, _, ⟨inside, _⟩, hcut, heq⟩ := h
    simp only [Option.pure_def, Option.some.injEq] at heq
    rw [← heq]
    exact accounts_block _ (not_infix_of_cut? (by simp) hcut)

/-! ## Sections about parameters -/

theorem infix_said {s name said : Text}
    (h : paramSection? s = some (name, said)) : said <:+: s := by
  simp only [paramSection?, Option.bind_eq_bind, Option.bind_eq_some_iff] at h
  obtain ⟨rest, hrest, h⟩ := h
  rw [after?_eq_some_iff.mp hrest]
  split at h
  · contradiction
  · simp only [Option.pure_def, Option.some.injEq, Prod.mk.injEq] at h
    rw [← h.2]
    refine (infix_trim _).trans ?_
    have hdash (t : Text) : (Text.after? "-" t).getD t <:+ t := by
      cases hafter : Text.after? "-" t with
      | none => exact List.suffix_rfl
      | some said =>
          rw [after?_eq_some_iff.mp hafter]
          exact List.suffix_append _ said
    exact ((hdash _).trans ((List.dropWhile_suffix _).trans
      ((List.dropWhile_suffix _).trans ((List.dropWhile_suffix _).trans
        (List.suffix_append _ rest))))).isInfix

theorem holdsEnd_of_general {t : Text}
    (h : HoldsEnd (Description.ofText t).general) : HoldsEnd t := by
  unfold Description.ofText at h
  split at h
  · exact absurd (List.infix_nil.mp h) (by simp)
  · next first sections hsplit =>
    obtain ⟨piece, hpiece, hend⟩ := exists_infix_of_infix_join (c := '@')
      (by simp) (by decide) (h.trans (infix_trim _))
    have hmem : piece ∈ t.splitOn '@' := by
      rw [hsplit]
      exact List.cons_subset_cons first List.filter_sublist.subset hpiece
    exact hend.trans (infix_of_mem_splitOn hmem)

theorem holdsEnd_of_mem_params {t name said : Text}
    (hmem : (name, said) ∈ (Description.ofText t).params)
    (h : HoldsEnd said) : HoldsEnd t := by
  unfold Description.ofText at hmem
  split at hmem
  · contradiction
  · next first sections hsplit =>
    obtain ⟨s, hs, hsaid⟩ :=
      List.mem_filterMap.mp (List.mem_reverse.mp hmem)
    have hmem : s ∈ t.splitOn '@' := by
      rw [hsplit]
      exact List.mem_cons_of_mem _ hs
    exact h.trans ((infix_said hsaid).trans (infix_of_mem_splitOn hmem))

end Source

end Bindery
