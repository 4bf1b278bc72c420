import Bindery.Proofs.ListPieces
import Bindery.Source.Declarator

/-!
# Declarators and their tokens

A declarator is written with a token for each sigil, one for the name, and
brackets around each dimension.  Reading takes it apart from the end: first
the dimensions, the last of them first, then the name, and what is left must
be sigils.  Blanks and tabs may stand around every token, so reading inverts
every spelling of a declarator, and whatever is read is, up to white space,
the text that it was read from.
-/

namespace Bindery

namespace Text

/-! ## Removing white space -/

/-- The text without its white space. -/
def squeezed (t : Text) : Text := t.filter (!isSpace ·)

theorem squeezed_append (t u : Text) :
    squeezed (t ++ u) = squeezed t ++ squeezed u :=
  List.filter_append t u

theorem squeezed_cons {c : Char} (h : isSpace c = false) (t : Text) :
    squeezed (c :: t) = c :: squeezed t :=
  List.filter_cons_of_pos (by simp [h])

theorem squeezed_spaces {blanks : Text}
    (h : ∀ c ∈ blanks, isSpace c = true) : squeezed blanks = [] := by
  rw [squeezed, List.filter_eq_nil_iff]
  intro c hc
  simp [h c hc]

theorem squeezed_eq_self {t : Text} (h : ∀ c ∈ t, isSpace c = false) :
    squeezed t = t := by
  rw [squeezed, List.filter_eq_self]
  intro c hc
  simp [h c hc]

theorem squeezed_squeezed (t : Text) : squeezed (squeezed t) = squeezed t := by
  apply squeezed_eq_self
  intro c hc
  simpa using (List.mem_filter.mp hc).2

theorem squeezed_trim (t : Text) : squeezed (trim t) = squeezed t := by
  obtain ⟨blanks, blanks', hblanks, hblanks', hsplit⟩ := trim_split t
  conv_rhs => rw [hsplit]
  rw [squeezed_append, squeezed_append, squeezed_spaces hblanks,
    squeezed_spaces hblanks', List.append_nil, List.nil_append]

theorem squeezed_trimStart (t : Text) :
    squeezed (trimStart t) = squeezed t := by
  obtain ⟨blanks, hblanks, hsplit⟩ := takes_dropWhile isSpace t
  conv_rhs => rw [hsplit]
  rw [squeezed_append, squeezed_spaces hblanks]
  rfl

/-! ## The end of a text -/

theorem trimEnd_eq_self {t : Text}
    (h : ∀ c ∈ t.getLast?, isSpace c = false) : trimEnd t = t := by
  have hstops : Stops isSpace t.reverse := by
    intro c hc
    rw [List.head?_reverse] at hc
    exact h c hc
  rw [trimEnd, hstops.dropWhile_eq, List.reverse_reverse]

theorem trimEnd_append_spaces (t : Text) {blanks : Text}
    (h : ∀ c ∈ blanks, isSpace c = true) :
    trimEnd (t ++ blanks) = trimEnd t := by
  unfold trimEnd
  rw [List.reverse_append, List.dropWhile_append_of_pos (by simpa using h)]

theorem squeezed_trimEnd (t : Text) : squeezed (trimEnd t) = squeezed t := by
  have hblanks : ∀ c ∈ t.rtakeWhile isSpace, isSpace c = true :=
    fun _ hc => List.mem_rtakeWhile_imp hc
  conv_rhs => rw [← List.rdropWhile_append_rtakeWhile (p := isSpace) (l := t)]
  rw [squeezed_append, squeezed_spaces hblanks, List.append_nil]
  rfl

theorem not_of_mem_getLast?_rdropWhile (p : Char → Bool) (t : Text) :
    ∀ c ∈ (t.rdropWhile p).getLast?, p c = false := by
  rw [List.rdropWhile, List.getLast?_reverse]
  exact stops_dropWhile p t.reverse

theorem cutLast?_append {c : Char} {inner : Text} (h : c ∉ inner)
    (outer : Text) :
    cutLast? c (outer ++ c :: inner) = some (outer, inner) := by
  have hinner : ∀ a ∈ inner.reverse, (a != c) = true := by
    intro a ha
    rw [bne_iff_ne]
    rintro rfl
    exact h (List.mem_reverse.mp ha)
  have hreverse : (outer ++ c :: inner).reverse =
      inner.reverse ++ c :: outer.reverse := by
    simp
  unfold cutLast?
  rw [hreverse, List.dropWhile_append_of_pos hinner,
    List.takeWhile_append_of_pos hinner]
  simp

/-! ## Tokens with white space around them -/

/-- The text consists of the tokens in their order, with blanks and tabs in
front of each and at the end. -/
inductive Spaced : List Text → Text → Prop
  | nil {blanks : Text} (hblanks : ∀ c ∈ blanks, c = ' ' ∨ c = '\t') :
      Spaced [] blanks
  | cons {blanks : Text} (hblanks : ∀ c ∈ blanks, c = ' ' ∨ c = '\t')
      (token : Text) {tokens : List Text} {t : Text} (ht : Spaced tokens t) :
      Spaced (token :: tokens) (blanks ++ (token ++ t))

theorem isSpace_of_blank {blanks : Text}
    (h : ∀ c ∈ blanks, c = ' ' ∨ c = '\t') :
    ∀ c ∈ blanks, isSpace c = true := by
  intro c hc
  rcases h c hc with rfl | rfl
  · rfl
  · rfl

theorem spaced_cons_iff {token : Text} {tokens : List Text} {t : Text} :
    Spaced (token :: tokens) t ↔
      ∃ blanks rest, (∀ c ∈ blanks, c = ' ' ∨ c = '\t') ∧
        t = blanks ++ (token ++ rest) ∧ Spaced tokens rest := by
  constructor
  · intro h
    cases h with
    | cons hblanks _ ht => exact ⟨_, _, hblanks, rfl, ht⟩
  · rintro ⟨blanks, rest, hblanks, rfl, hrest⟩
    exact .cons hblanks token hrest

theorem concat_chars (t : Text) : concat (t.map ([·])) = t := by
  rw [concat, ← List.flatMap_def, List.flatMap_singleton']

/-- The tokens may stand without white space. -/
theorem spaced_concat (tokens : List Text) :
    Spaced tokens (concat tokens) := by
  induction tokens with
  | nil => exact .nil (List.forall_mem_nil _)
  | cons token tokens ih => exact .cons (List.forall_mem_nil _) token ih

namespace Spaced

theorem blank_cons {tokens : List Text} {t : Text} (h : Spaced tokens t) :
    Spaced tokens (' ' :: t) := by
  cases h with
  | nil hblanks => exact .nil (List.forall_mem_cons.mpr ⟨.inl rfl, hblanks⟩)
  | cons hblanks token ht =>
      exact .cons (List.forall_mem_cons.mpr ⟨.inl rfl, hblanks⟩) token ht

theorem split {xs ys : List Text} {t : Text} (h : Spaced (xs ++ ys) t) :
    ∃ u v, t = u ++ v ∧ Spaced xs u ∧ Spaced ys v := by
  induction xs generalizing t with
  | nil => exact ⟨[], t, rfl, .nil (List.forall_mem_nil _), h⟩
  | cons x xs ih =>
      obtain ⟨blanks, rest, hblanks, rfl, hrest⟩ := spaced_cons_iff.mp h
      obtain ⟨u, v, rfl, hu, hv⟩ := ih hrest
      exact ⟨blanks ++ (x ++ u), v, by simp, .cons hblanks x hu, hv⟩

theorem mem {tokens : List Text} {t : Text} (h : Spaced tokens t) :
    ∀ c ∈ t, c = ' ' ∨ c = '\t' ∨ ∃ token ∈ tokens, c ∈ token := by
  intro c hc
  induction h with
  | nil hblanks => exact (hblanks c hc).imp_right .inl
  | cons hblanks token ht ih =>
      rcases List.mem_append.mp hc with hc | hc
      · exact (hblanks c hc).imp_right .inl
      · rcases List.mem_append.mp hc with hc | hc
        · exact .inr (.inr ⟨token, List.mem_cons_self, hc⟩)
        · rcases ih hc with hc | hc | ⟨other, hother, hc⟩
          · exact .inl hc
          · exact .inr (.inl hc)
          · exact .inr (.inr ⟨other, List.mem_cons_of_mem token hother, hc⟩)

theorem squeezed_eq {tokens : List Text} {t : Text} (h : Spaced tokens t) :
    squeezed t = squeezed (concat tokens) := by
  induction h with
  | nil hblanks => exact squeezed_spaces (isSpace_of_blank hblanks)
  | cons hblanks token ht ih =>
      rw [squeezed_append, squeezed_spaces (isSpace_of_blank hblanks),
        squeezed_append, ih, List.nil_append, ← squeezed_append]
      rfl

end Spaced

end Text

namespace Source

/-! ## The name at the end -/

/-- The identifier that ends a text is found behind anything else. -/
theorem trailingIdentifier_append (name : Identifier) {x : Text}
    (hx : ∀ c ∈ x.getLast?, Text.isIdent c = false) :
    trailingIdentifier (x ++ name.text) = some (x, name.text) := by
  have hident : ∀ c ∈ name.text.reverse, Text.isIdent c = true := by
    intro c hc
    exact name.isIdent c (List.mem_reverse.mp hc)
  have hstops : Text.Stops Text.isIdent x.reverse := by
    intro c hc
    rw [List.head?_reverse] at hc
    exact hx c hc
  have htake : x.reverse.takeWhile Text.isIdent = [] := by
    have hsplit := List.takeWhile_append_dropWhile (p := Text.isIdent)
      (l := x.reverse)
    rw [hstops.dropWhile_eq] at hsplit
    simpa using hsplit
  unfold trailingIdentifier
  rw [List.reverse_append, List.takeWhile_append_of_pos hident,
    hstops.dropWhile_append hident, htake, List.append_nil,
    List.reverse_reverse, List.reverse_reverse]
  simp [Identifier.text, name.head_notDigit]

/-- What is found at the end of a text is the whole identifier there. -/
theorem trailingIdentifier_eq_some {t head name : Text}
    (h : trailingIdentifier t = some (head, name)) :
    ∃ i : Identifier, i.text = name ∧ t = head ++ name ∧
      ∀ c ∈ head.getLast?, Text.isIdent c = false := by
  have hsplit : t.rdropWhile Text.isIdent ++ t.rtakeWhile Text.isIdent = t :=
    List.rdropWhile_append_rtakeWhile
  have hident : ∀ c ∈ t.rtakeWhile Text.isIdent, Text.isIdent c = true :=
    fun _ hc => List.mem_rtakeWhile_imp hc
  unfold trailingIdentifier at h
  simp only at h
  split at h
  · contradiction
  · next c tail hname =>
    replace hname : t.rtakeWhile Text.isIdent = c :: tail := hname
    split at h
    · contradiction
    · next hdigit =>
      obtain ⟨rfl, rfl⟩ := Prod.mk.inj (Option.some.inj h)
      rw [hname, List.forall_mem_cons] at hident
      refine ⟨⟨c, tail, hident.1, by simpa using hdigit, hident.2⟩,
        hname.symm, hsplit.symm, ?_⟩
      exact Text.not_of_mem_getLast?_rdropWhile Text.isIdent t

/-! ## The dimensions behind the name -/

theorem takeDims_stop {head : Text} {dims : List Text}
    (h : Text.before? [']'] head = none) :
    takeDims head dims = some (head, dims) := by
  rw [takeDims]
  split
  · rfl
  · next heq =>
    rw [h] at heq
    contradiction

theorem takeDims_step {outer dim : Text} {dims : List Text}
    (h : '[' ∉ dim) :
    takeDims (outer ++ '[' :: (dim ++ [']'])) dims =
      takeDims (Text.trimEnd outer) (Text.trim dim :: dims) := by
  have hbefore : Text.before? [']'] (outer ++ '[' :: (dim ++ [']'])) =
      some (outer ++ '[' :: dim) := by
    rw [Text.before?_eq_some_iff]
    simp
  rw [takeDims]
  split
  · next heq =>
    rw [hbefore] at heq
    contradiction
  · next inner heq =>
    rw [hbefore, Option.some.injEq] at heq
    subst heq
    split
    · next heq =>
      rw [Text.cutLast?_append h] at heq
      contradiction
    · next heq =>
      rw [Text.cutLast?_append h, Option.some.injEq, Prod.mk.injEq] at heq
      rw [heq.1, heq.2]

/-- The dimension is written between brackets with white space around it. -/
structure IsDimension (dim : Text) : Prop where
  trim_eq : Text.trim dim = dim
  notOpened : '[' ∉ dim
  notClosed : ']' ∉ dim

def dimTokens (dims : List Text) : List Text :=
  dims.flatMap fun dim => [['['], dim, [']']]

theorem concat_dimTokens (dims : List Text) :
    Text.concat (dimTokens dims) =
      dims.flatMap fun dim => '[' :: (dim ++ [']']) := by
  induction dims with
  | nil => rfl
  | cons dim dims ih =>
      rw [List.flatMap_cons, ← ih]
      simp [dimTokens, Text.concat]

/-- One more dimension at the end is taken off first. -/
theorem takeDims_spaced_step {dim : Text} (hdim : IsDimension dim)
    {v : Text} (hv : Text.Spaced [['['], dim, [']']] v) (head : Text)
    (taken : List Text) :
    takeDims (Text.trimEnd (head ++ v)) taken =
      takeDims (Text.trimEnd head) (dim :: taken) := by
  simp only [Text.spaced_cons_iff] at hv
  obtain ⟨b₁, _, h₁, rfl, b₂, _, h₂, rfl, b₃, b₄, h₃, rfl, hend⟩ := hv
  cases hend with
  | nil h₄ =>
      have hwhole : head ++ (b₁ ++ (['['] ++ (b₂ ++ (dim ++
          (b₃ ++ ([']'] ++ b₄)))))) =
          ((head ++ b₁) ++ '[' :: ((b₂ ++ (dim ++ b₃)) ++ [']'])) ++ b₄ := by
        simp
      have hlast : ∀ c ∈ ((head ++ b₁) ++
          '[' :: ((b₂ ++ (dim ++ b₃)) ++ [']'])).getLast?,
          Text.isSpace c = false := by
        simp [List.getLast?_append, List.getLast?_cons]
        decide
      have hopen : '[' ∉ b₂ ++ (dim ++ b₃) := by
        intro hmem
        simp only [List.mem_append] at hmem
        rcases hmem with hmem | hmem | hmem
        · exact absurd (h₂ _ hmem) (by decide)
        · exact hdim.notOpened hmem
        · exact absurd (h₃ _ hmem) (by decide)
      have htrim : Text.trim (b₂ ++ (dim ++ b₃)) = dim := by
        rw [Text.trim_spaces_append (Text.isSpace_of_blank h₂),
          Text.trim_append_spaces _ (Text.isSpace_of_blank h₃), hdim.trim_eq]
      rw [hwhole, Text.trimEnd_append_spaces _ (Text.isSpace_of_blank h₄),
        Text.trimEnd_eq_self hlast, takeDims_step hopen, htrim,
        Text.trimEnd_append_spaces _ (Text.isSpace_of_blank h₁)]

theorem takeDims_spaced {head : Text}
    (hhead : Text.before? [']'] (Text.trimEnd head) = none)
    {dims : List Text} (hdims : ∀ dim ∈ dims, IsDimension dim) {v : Text}
    (hv : Text.Spaced (dimTokens dims) v) (taken : List Text) :
    takeDims (Text.trimEnd (head ++ v)) taken =
      some (Text.trimEnd head, dims ++ taken) := by
  -- The dimensions that were taken stand to the right of the others, so the
  -- induction is from the right.
  induction dims using List.reverseRecOn generalizing v taken with
  | nil =>
      cases hv with
      | nil hblanks =>
          rw [Text.trimEnd_append_spaces _ (Text.isSpace_of_blank hblanks),
            takeDims_stop hhead]
          rfl
  | append_singleton dims dim ih =>
      rw [List.forall_mem_append, List.forall_mem_singleton] at hdims
      rw [dimTokens, List.flatMap_append, List.flatMap_singleton] at hv
      obtain ⟨u, w, rfl, hu, hw⟩ := hv.split
      rw [← List.append_assoc, takeDims_spaced_step hdims.2 hw,
        ih hdims.1 hu, List.append_assoc, List.singleton_append]

/-- Taking dimensions off the end loses white space only. -/
theorem squeezed_of_takeDims {head head' : Text} {dims dims' : List Text}
    (h : takeDims head dims = some (head', dims')) :
    Text.squeezed (head ++ Text.concat (dimTokens dims)) =
      Text.squeezed (head' ++ Text.concat (dimTokens dims')) := by
  fun_induction takeDims head dims with
  | case1 head dims hnone =>
      obtain ⟨rfl, rfl⟩ := Prod.mk.inj (Option.some.inj h)
      rfl
  | case2 head dims inner hinner hcut => contradiction
  | case3 head dims inner hinner outer dim hcut ih =>
      rw [← ih h, Text.before?_eq_some_iff.mp hinner,
        Text.eq_of_cutLast? hcut]
      have hdims : Text.concat (dimTokens (Text.trim dim :: dims)) =
          '[' :: (Text.trim dim ++
            (']' :: Text.concat (dimTokens dims))) := rfl
      rw [hdims]
      simp only [Text.squeezed_append, Text.squeezed_trimEnd,
        Text.squeezed_trim, Text.squeezed_cons (c := '[') rfl,
        Text.squeezed_cons (c := ']') rfl, List.append_assoc,
        List.cons_append]
      rfl

/-! ## Declarators -/

namespace Declarator

/-- The sigils, the name, and the dimensions with their brackets. -/
def tokens (d : Declarator) : List Text :=
  d.sigils.map ([·]) ++ d.name :: dimTokens d.dims

theorem concat_tokens (d : Declarator) :
    Text.concat d.tokens =
      d.sigils ++ (d.name ++ Text.concat (dimTokens d.dims)) := by
  rw [tokens, Text.concat, List.flatten_append]
  exact congrArg (· ++ _) (Text.concat_chars d.sigils)

structure IsProper (d : Declarator) : Prop where
  sigils : ∀ c ∈ d.sigils, c = '*' ∨ c = '&'
  name : ∃ i : Identifier, i.text = d.name
  dims : ∀ dim ∈ d.dims, IsDimension dim

theorem parse?_eq_some_iff {raw : Text} {d : Declarator} :
    parse? raw = some d ↔ ∃ head lead,
      takeDims (Text.trim raw) [] = some (head, d.dims) ∧
      trailingIdentifier head = some (lead, d.name) ∧
      (∀ c ∈ Text.trim lead, c = '*' ∨ c = '&' ∨ c = ' ' ∨ c = '\t') ∧
      Text.squeezed lead = d.sigils := by
  have hall (lead : Text) : (lead.all fun c =>
      c == '*' || c == '&' || c == ' ' || c == '\t') = true ↔
        ∀ c ∈ lead, c = '*' ∨ c = '&' ∨ c = ' ' ∨ c = '\t' := by
    simp [or_assoc]
  simp only [parse?, Option.bind_eq_bind, Option.bind_eq_some_iff,
    Prod.exists, Option.ite_none_right_eq_some, hall, Option.pure_def,
    Option.some.injEq]
  constructor
  · rintro ⟨head, dims, hdims, lead, name, hname, hlead, rfl⟩
    exact ⟨head, lead, hdims, hname, hlead, (Text.squeezed_trim lead).symm⟩
  · rintro ⟨head, lead, hdims, hname, hlead, hsigils⟩
    refine ⟨head, d.dims, hdims, lead, d.name, hname, hlead, ?_⟩
    change mk (Text.squeezed (Text.trim lead)) d.name d.dims = d
    rw [Text.squeezed_trim, hsigils]

/-- What sigils with white space around them consist of. -/
theorem spaced_sigils {sigils u : Text}
    (hsigils : ∀ c ∈ sigils, c = '*' ∨ c = '&')
    (hu : Text.Spaced (sigils.map ([·])) u) :
    (∀ c ∈ u, c = '*' ∨ c = '&' ∨ c = ' ' ∨ c = '\t') ∧
      Text.squeezed u = sigils := by
  constructor
  · intro c hc
    rcases hu.mem c hc with hc | hc | ⟨token, htoken, hc⟩
    · exact .inr (.inr (.inl hc))
    · exact .inr (.inr (.inr hc))
    · obtain ⟨sigil, hsigil, rfl⟩ := List.mem_map.mp htoken
      rw [List.mem_singleton.mp hc]
      exact (hsigils sigil hsigil).imp_right .inl
  · rw [hu.squeezed_eq, Text.concat_chars]
    apply Text.squeezed_eq_self
    intro c hc
    rcases hsigils c hc with rfl | rfl
    · rfl
    · rfl

/-- Exactly the dimensions behind the name are taken off. -/
theorem takeDims_name (lead : Text) (name : Identifier) {dims : List Text}
    (hdims : ∀ dim ∈ dims, IsDimension dim) {v : Text}
    (hv : Text.Spaced (dimTokens dims) v) :
    takeDims (Text.trimEnd ((lead ++ name.text) ++ v)) [] =
      some (lead ++ name.text, dims) := by
  have hlast : ∀ c ∈ (lead ++ name.text).getLast?, Text.isIdent c = true := by
    rw [List.getLast?_append_of_ne_nil _ name.text_ne_nil]
    exact fun c hc => name.isIdent c (List.mem_of_getLast? hc)
  have hend : Text.trimEnd (lead ++ name.text) = lead ++ name.text :=
    Text.trimEnd_eq_self fun c hc => Text.isSpace_of_isIdent (hlast c hc)
  have hbracket : Text.before? [']'] (Text.trimEnd (lead ++ name.text)) =
      none := by
    rw [Option.eq_none_iff_forall_ne_some]
    intro x hx
    rw [Text.before?_eq_some_iff, hend] at hx
    rw [hx] at hlast
    exact absurd (hlast ']' (by simp)) (by decide)
  rw [takeDims_spaced hbracket hdims hv, hend, List.append_nil]

/-- A declarator is read from its tokens, whatever blanks and tabs stand
around them. -/
theorem parse?_of_spaced {d : Declarator} (hd : d.IsProper) {raw : Text}
    (h : Text.Spaced d.tokens raw) : parse? raw = some d := by
  obtain ⟨i, hi⟩ := hd.name
  obtain ⟨u, _, rfl, hu, hrest⟩ := h.split
  obtain ⟨blanks, v, hblanks, rfl, hv⟩ := Text.spaced_cons_iff.mp hrest
  obtain ⟨hmem, hsqueezed⟩ := spaced_sigils hd.sigils hu
  -- The sigils and all white space in front of the name.
  let lead := Text.trimStart (u ++ blanks)
  have hlead : ∀ c ∈ lead, c = '*' ∨ c = '&' ∨ c = ' ' ∨ c = '\t' := by
    intro c hc
    rcases List.mem_append.mp ((List.dropWhile_sublist _).subset hc) with
      hc | hc
    · exact hmem c hc
    · exact .inr (.inr (hblanks c hc))
  have htrim : Text.trim (u ++ (blanks ++ (d.name ++ v))) =
      Text.trimEnd ((lead ++ i.text) ++ v) := by
    have hstart := Text.trimStart_append_cons
      (Text.isSpace_of_isIdent i.head_isIdent) (u ++ blanks) (i.tail ++ v)
    rw [← hi, ← List.append_assoc, List.append_assoc lead]
    exact congrArg Text.trimEnd hstart
  refine parse?_eq_some_iff.mpr ⟨lead ++ i.text, lead, ?_, ?_, ?_, ?_⟩
  · rw [htrim, takeDims_name lead i hd.dims hv]
  · rw [← hi]
    apply trailingIdentifier_append
    intro c hc
    rcases hlead c (List.mem_of_getLast? hc) with rfl | rfl | rfl | rfl
    · rfl
    · rfl
    · rfl
    · rfl
  · exact fun c hc => hlead c (Text.mem_of_mem_trim hc)
  · rw [Text.squeezed_trimStart, Text.squeezed_append, hsqueezed,
      Text.squeezed_spaces (Text.isSpace_of_blank hblanks), List.append_nil]

/-- Up to white space, a declarator is the text that it was read from. -/
theorem squeezed_of_parse? {raw : Text} {d : Declarator}
    (h : parse? raw = some d) :
    Text.squeezed raw = Text.squeezed (Text.concat d.tokens) := by
  obtain ⟨head, lead, hdims, hname, _, hsigils⟩ := parse?_eq_some_iff.mp h
  obtain ⟨_, _, rfl, _⟩ := trailingIdentifier_eq_some hname
  calc
    Text.squeezed raw =
        Text.squeezed (Text.trim raw ++ Text.concat (dimTokens [])) := by
          rw [← Text.squeezed_trim]
          exact congrArg Text.squeezed (List.append_nil _).symm
    _ = Text.squeezed
          ((lead ++ d.name) ++ Text.concat (dimTokens d.dims)) :=
      squeezed_of_takeDims hdims
    _ = Text.squeezed (Text.concat d.tokens) := by
          rw [concat_tokens, ← hsigils]
          simp only [Text.squeezed_append, Text.squeezed_squeezed,
            List.append_assoc]

/-- Reading a declarator inverts writing its tokens with blanks and tabs
around them. -/
theorem parse?_inverts_tokens :
    (∀ d : Declarator, d.IsProper → ∀ raw, Text.Spaced d.tokens raw →
      parse? raw = some d) ∧
    ∀ raw d, parse? raw = some d →
      (∃ i : Identifier, i.text = d.name) ∧
      (∀ c ∈ d.sigils, c = '*' ∨ c = '&') ∧
      Text.squeezed raw = Text.squeezed (Text.concat d.tokens) := by
  refine ⟨fun d hd raw h => parse?_of_spaced hd h, fun raw d h => ?_⟩
  obtain ⟨head, lead, _, hname, hlead, hsigils⟩ := parse?_eq_some_iff.mp h
  obtain ⟨i, hi, _⟩ := trailingIdentifier_eq_some hname
  refine ⟨⟨i, hi⟩, ?_, squeezed_of_parse? h⟩
  intro c hc
  rw [← hsigils, ← Text.squeezed_trim, Text.squeezed, List.mem_filter] at hc
  rcases hlead c hc.1 with rfl | rfl | rfl | rfl
  · exact .inl rfl
  · exact .inr rfl
  · exact absurd hc.2 (by decide)
  · exact absurd hc.2 (by decide)

/-- Two sigils and two dimensions, one of which holds blanks itself. -/
theorem parse?_inverts_tokens_blanks :
    let d : Declarator := ⟨"*&", "rows", ["N + 1", ""]⟩
    let raw : Text := "\t* & rows\t[ N + 1] [\t]"
    d.IsProper ∧ Text.Spaced d.tokens raw ∧ parse? raw = some d ∧
      Text.squeezed raw = Text.squeezed (Text.concat d.tokens) := by
  intro d raw
  have hproper : d.IsProper := by
    have hsigils : d.sigils.all (fun c => c == '*' || c == '&') = true := by
      decide
    refine ⟨by simpa using hsigils,
      ⟨⟨'r', "ows", rfl, rfl, List.all_eq_true.mp (by decide)⟩, rfl⟩, ?_⟩
    intro dim hdim
    rcases List.mem_pair.mp hdim with rfl | rfl
    · exact ⟨by decide, by decide, by decide⟩
    · exact ⟨by decide, by decide, by decide⟩
  have hspaced : Text.Spaced d.tokens raw := by
    have gap (b : Text) (hb : b.all (fun c => c == ' ' || c == '\t') = true) :
        ∀ c ∈ b, c = ' ' ∨ c = '\t' := by
      simpa using hb
    exact .cons (gap "\t" rfl) _ (.cons (gap " " rfl) _
      (.cons (gap " " rfl) _ (.cons (gap "\t" rfl) _
      (.cons (gap " " rfl) _ (.cons (gap "" rfl) _ (.cons (gap " " rfl) _
      (.cons (gap "" rfl) _ (.cons (gap "\t" rfl) _
      (.nil (gap "" rfl))))))))))
  have hparse := parse?_inverts_tokens.1 d hproper raw hspaced
  exact ⟨hproper, hspaced, hparse, (parse?_inverts_tokens.2 raw d hparse).2.2⟩

end Declarator

end Source

end Bindery
