import Bindery.Proofs.Brackets
import Bindery.Proofs.WholeWords

/-!
# Reading makes progress

A recognised piece takes at least one character and ends between two
characters of the text, and where nothing is recognised a token is passed
over.  So a walk has no more steps than its text has characters.  The body of
a struct or enum is shorter than the text that it was read from, so the
descent into nested bodies ends as well.

To say that reading needs no more room than that, the readers are given a
bound below: on the steps of every walk and on the depth of the descent.  A
reader gives up when it meets its bound.  From the number of characters of the
text on it never does, and reads what the reader without a bound reads.
-/

namespace Bindery

namespace Rule

variable {α β : Type} {P : β → Prop} {m : Matcher}

/-- Where the rule succeeds, the continuation accepted a value with the
property. -/
def Yields (P : α → Prop) (r : Rule α) : Prop :=
  ∀ (β : Type) (t : Text) (k : α → Text → Option β) (b : β),
    r.run t k = some b → ∃ a rest, P a ∧ k a rest = some b

theorem Yields.pure {b : β} (h : P b) : (Pure.pure b : Rule β).Yields P :=
  fun _ t _ _ hrun => ⟨b, t, h, hrun⟩

theorem Yields.skip_bind {f : Unit → Rule β} (hf : (f ()).Yields P) :
    (skip m >>= f).Yields P := by
  intro γ t k b h
  rw [run_bind] at h
  obtain ⟨rest, _, h⟩ := of_run_skip h
  exact hf γ rest k b h

theorem Yields.capture_bind {f : Span → Rule β}
    (hf : ∀ span, (f span).Yields P) : (capture m >>= f).Yields P := by
  intro γ t k b h
  rw [run_bind] at h
  obtain ⟨rest, _, h⟩ := of_run_capture h
  exact hf _ γ rest k b h

theorem Yields.of_first? {r : Rule β} (hr : r.Yields P) {t rest : Text}
    {b : β} (h : r.first? t = some (b, rest)) : P b := by
  obtain ⟨b', rest', hb, heq⟩ := hr _ t _ _ h
  simp only [Option.some.injEq, Prod.mk.injEq] at heq
  exact heq.1 ▸ hb

end Rule

namespace Source

variable {α : Type}

/-! ## A step -/

/-- The number of bytes that a recognised piece takes. -/
def Found.size {c : Cursor} (found : Found α c) : Nat :=
  Text.utf8Size c.ahead - Text.utf8Size found.rest

/-- The piece takes something, and ends between two characters of the text. -/
structure Found.Progresses {c : Cursor} (found : Found α c) : Prop where
  pos : 0 < found.size
  le : found.size ≤ Text.utf8Size c.ahead
  boundary : dropBytes? found.size c.ahead = some found.rest

theorem Found.progresses {c : Cursor} {found : Found α c}
    (h : found.rest <:+ c.ahead) : found.Progresses := by
  obtain ⟨taken, htaken⟩ := h
  have hsize : found.size = Text.utf8Size taken := by
    rw [Found.size, ← htaken, utf8Size_append, Nat.add_sub_cancel]
  have hne : taken ≠ [] := by
    rintro rfl
    have hlt := found.shorter
    rw [← htaken, List.nil_append] at hlt
    exact absurd hlt (Nat.lt_irrefl _)
  refine ⟨?_, ?_, ?_⟩
  · rw [hsize]
    exact Nat.pos_of_ne_zero fun hzero => hne (eq_nil_of_utf8Size hzero)
  · exact Nat.sub_le _ _
  · rw [hsize, ← htaken]
    exact dropBytes?_utf8Size taken found.rest

/-- Passing over a token takes at least one character. -/
theorem Cursor.exists_token {c : Cursor} (h : c.ahead ≠ []) :
    ∃ token, token ≠ [] ∧ c.ahead = token ++ c.skipToken.ahead := by
  obtain ⟨rest, hahead, _⟩ := c.breaksAt_token
  refine ⟨c.token, Cursor.token_ne_nil h, ?_⟩
  have hskip : c.skipToken.ahead = rest := by
    rw [Cursor.skipToken, Cursor.advance]
    conv_lhs => rw [hahead]
    exact List.drop_left
  rw [hskip]
  exact hahead

/-! ## Bodies of compounds -/

namespace Compound

/-- The body stands in the text, and something follows it there. -/
theorem exists_split_of_read? {keyword t rest : Text} {c : Compound}
    (h : read? keyword t = some (c, rest)) :
    ∃ before after, t = before ++ (c.body ++ after) ∧ after ≠ [] := by
  obtain ⟨t1, inside, t2, ⟨before, hbefore⟩, hinside, hbody, _⟩ :=
    exists_of_read? h
  obtain ⟨closing, _, ht1⟩ := enclosed_eq hinside
  obtain ⟨blanks, blanks', _, _, htrim⟩ := Text.trim_split inside
  refine ⟨before ++ blanks, blanks' ++ closing :: t2, ?_, by simp⟩
  rw [← hbefore, ht1, hbody]
  conv_lhs => rw [htrim]
  simp

/-- The body is shorter, both in characters and in bytes. -/
def BodyShorter (c : Compound) (t : Text) : Prop :=
  c.body.length < t.length ∧ Text.utf8Size c.body < Text.utf8Size t

theorem bodyShorter_of_read? {keyword t rest : Text} {c : Compound}
    (h : read? keyword t = some (c, rest)) : c.BodyShorter t := by
  obtain ⟨before, after, rfl, hafter⟩ := exists_split_of_read? h
  have hlength := List.length_pos_iff.mpr hafter
  have hsize : Text.utf8Size after ≠ 0 := fun hzero =>
    hafter (eq_nil_of_utf8Size hzero)
  constructor
  · simp only [List.length_append]
    omega
  · simp only [utf8Size_append]
    omega

end Compound

/-- The struct or enum that a declaration consists of. -/
def Declaration.compound? : Declaration → Option Compound
  | .enum compound => some compound
  | .struct compound => some compound
  | _ => none

def Entry.compound? : Entry → Option Compound
  | .enum compound => some compound
  | _ => none

/-- The struct or enum that an element of a struct body consists of. -/
def BodyItem.compound? : BodyItem → Option Compound
  | .entry e => e.compound?
  | .struct compound => some compound

/-- A struct or enum at file scope was read as such. -/
theorem Declaration.exists_read?_of_next {d : Dialect} {c : Cursor}
    {found : Found Declaration c} {x : Declaration} {compound : Compound}
    (h : next d c = some found) (hpiece : found.piece = .declared x)
    (hx : x.compound? = some compound) :
    ∃ keyword rest,
      Compound.read? keyword c.ahead = some (compound, rest) := by
  cases readAt_of_next h hpiece with
  | define h =>
      obtain ⟨_, _, rfl, _⟩ := defineRule_kind h
      contradiction
  | constant h =>
      obtain ⟨_, _, rfl, _⟩ := constantRule_kind h
      contradiction
  | enum h =>
      obtain rfl := Option.some.inj hx
      exact ⟨_, _, h⟩
  | typedef h =>
      obtain ⟨_, _, _, rfl, _⟩ := typedefRule_kind h
      contradiction
  | handle h =>
      obtain ⟨_, _, rfl, _⟩ := handleRule_kind h
      contradiction
  | struct h =>
      obtain rfl := Option.some.inj hx
      exact ⟨_, _, h⟩
  | function _ h =>
      obtain ⟨_, _, _, rfl, _⟩ := functionRule_kind h
      contradiction

theorem Declaration.bodyShorter_of_next {d : Dialect} {c : Cursor}
    {found : Found Declaration c} {x : Declaration} {compound : Compound}
    (h : next d c = some found) (hpiece : found.piece = .declared x)
    (hx : x.compound? = some compound) : compound.BodyShorter c.ahead := by
  obtain ⟨_, _, hread⟩ := exists_read?_of_next h hpiece hx
  exact Compound.bodyShorter_of_read? hread

namespace BodyItem

variable {d : Dialect} {t rest : Text} {e : Entry} {compound : Compound}

theorem tupleRule_yields :
    (tupleRule d).Yields fun e => e.compound? = none :=
  .skip_bind (.pure rfl)

theorem ptrGetterRule_yields :
    (ptrGetterRule d).Yields fun e => e.compound? = none :=
  .skip_bind (.capture_bind fun _ => .skip_bind (.capture_bind fun _ =>
    .skip_bind (.pure rfl)))

theorem arrayGetterRule_yields :
    (arrayGetterRule d).Yields fun e => e.compound? = none :=
  .skip_bind (.capture_bind fun _ => .skip_bind (.capture_bind fun _ =>
    .skip_bind (.capture_bind fun _ => .skip_bind (.pure rfl))))

theorem variablesRule_yields :
    variablesRule.Yields fun e => e.compound? = none :=
  .capture_bind fun _ => .capture_bind fun _ => .skip_bind (.pure rfl)

theorem compound?_of_constructor? (h : constructor? d t = some (e, rest)) :
    e.compound? = none := by
  obtain ⟨_, _, _, _, rfl⟩ := exists_of_constructor? h
  rfl

theorem compound?_of_method? (h : method? d t = some (e, rest)) :
    e.compound? = none := by
  obtain ⟨_, _, _, _, _, rfl⟩ := exists_of_method? h
  rfl

/-- A struct or enum in a body was read as such. -/
theorem exists_read?_of_next {c : Cursor} {found : Found BodyItem c}
    {x : BodyItem} (h : next d c = some found)
    (hpiece : found.piece = .declared x)
    (hx : x.compound? = some compound) :
    ∃ keyword rest,
      Compound.read? keyword c.ahead = some (compound, rest) := by
  cases readAt_of_next h hpiece with
  | tuple h => simp [compound?, tupleRule_yields.of_first? h] at hx
  | constructor h => simp [compound?, compound?_of_constructor? h] at hx
  | method h => simp [compound?, compound?_of_method? h] at hx
  | ptrGetter h => simp [compound?, ptrGetterRule_yields.of_first? h] at hx
  | arrayGetter h => simp [compound?, arrayGetterRule_yields.of_first? h] at hx
  | enum h =>
      obtain rfl := Option.some.inj hx
      exact ⟨_, _, h⟩
  | struct h =>
      obtain rfl := Option.some.inj hx
      exact ⟨_, _, h⟩
  | «variables» h => simp [compound?, variablesRule_yields.of_first? h] at hx

theorem bodyShorter_of_next {c : Cursor} {found : Found BodyItem c}
    {x : BodyItem} (h : next d c = some found)
    (hpiece : found.piece = .declared x)
    (hx : x.compound? = some compound) : compound.BodyShorter c.ahead := by
  obtain ⟨_, _, hread⟩ := exists_read?_of_next h hpiece hx
  exact Compound.bodyShorter_of_read? hread

end BodyItem

/-! ## Walks -/

variable {next : (c : Cursor) → Option (Found α c)}

/-- Every step of a walk takes at least one character. -/
theorem length_walk_le (next : (c : Cursor) → Option (Found α c))
    (c : Cursor) : (walk next c).length ≤ c.ahead.length := by
  fun_induction walk next c with
  | case1 => simp
  | case2 c _ found _ ih =>
      have hlt := found.shorter
      rw [Cursor.length_advanceTo] at ih
      rw [List.length_cons]
      omega
  | case3 c hne _ ih =>
      have hlt := Cursor.length_skipToken_lt hne
      rw [List.length_cons]
      omega

/-- A walk of at most `bound` steps. -/
def walkWithin (next : (c : Cursor) → Option (Found α c)) :
    (bound : Nat) → Cursor → Option (List (Located α))
  | bound, c =>
    if c.ahead = [] then some []
    else
      match bound with
      | 0 => none
      | bound + 1 =>
        match next c with
        | some found =>
          (walkWithin next bound (c.advanceTo found.rest)).map
            (⟨c, found.piece⟩ :: ·)
        | none =>
          (walkWithin next bound c.skipToken).map (⟨c, .token c.token⟩ :: ·)

theorem walkWithin_eq {bound : Nat} {c : Cursor}
    (h : c.ahead.length ≤ bound) :
    walkWithin next bound c = some (walk next c) := by
  induction bound generalizing c with
  | zero =>
      have hnil := List.length_eq_zero_iff.mp (Nat.le_zero.mp h)
      rw [walkWithin, walk, if_pos hnil, dif_pos hnil]
  | succ bound ih =>
      rw [walkWithin, walk]
      split
      · rfl
      · next hne =>
        cases hnext : next c with
        | some found =>
            have hlt := found.shorter
            have hle := Cursor.length_advanceTo c found.rest
            simp only [ih (show (c.advanceTo found.rest).ahead.length ≤ bound
              by omega), Option.map_some]
        | none =>
            have hlt := Cursor.length_skipToken_lt hne
            simp only [ih (show c.skipToken.ahead.length ≤ bound by omega),
              Option.map_some]

/-! ## Nested bodies -/

theorem mapM_eq_map {β γ : Type} {f : β → Option γ} {g : β → γ} {l : List β}
    (h : ∀ x ∈ l, f x = some (g x)) : l.mapM f = some (l.map g) := by
  induction l with
  | nil => rfl
  | cons x l ih =>
      rw [List.forall_mem_cons] at h
      rw [List.mapM_cons, h.1, ih h.2]
      rfl

theorem foldlM_eq_foldl {β γ : Type} {f : γ → β → Option γ} {g : γ → β → γ}
    {l : List β} (h : ∀ x ∈ l, ∀ a, f a x = some (g a x)) (a : γ) :
    l.foldlM f a = some (l.foldl g a) := by
  induction l generalizing a with
  | nil => rfl
  | cons x l ih =>
      rw [List.forall_mem_cons] at h
      rw [List.foldlM_cons, h.1]
      exact ih h.2 (g a x)

namespace Tree

/-- Reads a body as `readBody` does, with at most `bound` steps in each walk,
and nested bodies with a smaller bound. -/
def readBodyWithin (d : Dialect) : (bound : Nat) → Text → Option (List Tree)
  | 0, body => if body = [] then some [] else none
  | bound + 1, body => do
    let pieces ← walkWithin (BodyItem.next d) (bound + 1) (.start body)
    (documented (pieces.map Located.piece)).mapM fun x =>
      match x.item with
      | .entry e => some (.entry x.doc e)
      | .struct compound =>
        (readBodyWithin d bound compound.body).map (.nested x.doc compound)

theorem readBodyWithin_eq {d : Dialect} {bound : Nat} {body : Text}
    (h : body.length ≤ bound) :
    readBodyWithin d bound body = some (readBody d body) := by
  induction bound generalizing body with
  | zero =>
      have hnil := List.length_eq_zero_iff.mp (Nat.le_zero.mp h)
      subst hnil
      rw [readBodyWithin, if_pos rfl, readBody_eq, items, walk]
      rfl
  | succ bound ih =>
      have hwalk : walkWithin (BodyItem.next d) (bound + 1) (.start body) =
          some (walk (BodyItem.next d) (.start body)) := walkWithin_eq h
      rw [readBodyWithin, hwalk, Option.bind_eq_bind, Option.bind_some,
        readBody_eq]
      apply mapM_eq_map
      intro x hx
      cases hitem : x.item with
      | entry e => rfl
      | struct compound =>
          have hlt := length_lt_of_mem_items hx hitem
          simp only [ih (show compound.body.length ≤ bound by omega),
            Option.map_some]

end Tree

end Source

open Source

/-! ## Headers -/

/-- A struct at file scope is read within a bound. -/
def gatherWithin (d : Dialect) (bound : Nat) (g : Gathered)
    (x : Documented Declaration) : Option Gathered :=
  match x.item with
  | .struct compound =>
    (Tree.readBodyWithin d bound compound.body).map
      (gatherStruct x.doc g compound)
  | _ => some (gatherDeclaration d g x)

/-- The entities of a header, if they can be found with at most `bound` steps
in each walk and a descent of at most `bound` levels. -/
def Header.parseWithin (d : Dialect) (bound : Nat) (source : Text) :
    Option (List Entity) := do
  let pieces ←
    walkWithin (Declaration.next d) bound (.start (spliceLines source))
  let g ← (documented (pieces.map Located.piece)).foldlM
    (gatherWithin d bound) {}
  return g.entities

theorem length_lt_of_mem_readAll {d : Dialect} {t : Text}
    {x : Documented Declaration} {compound : Compound}
    (h : x ∈ Declaration.readAll d t) (hx : x.item = .struct compound) :
    compound.body.length < t.length := by
  have hpiece := mem_of_mem_documentedFrom h
  rw [List.mem_map] at hpiece
  obtain ⟨located, hlocated, hpiece⟩ := hpiece
  obtain ⟨hle, ⟨found, hfound, heq⟩ | htoken⟩ := mem_walk hlocated
  · have hshorter := Declaration.bodyShorter_of_next hfound
      (heq.symm.trans hpiece) (by rw [hx]; rfl)
    exact Nat.lt_of_lt_of_le hshorter.1 hle
  · rw [hpiece] at htoken
    contradiction

theorem gatherWithin_eq {d : Dialect} {bound : Nat}
    {x : Documented Declaration}
    (h : ∀ compound, x.item = .struct compound →
      compound.body.length ≤ bound) (g : Gathered) :
    gatherWithin d bound g x = some (gatherDeclaration d g x) := by
  unfold gatherWithin
  split
  · next compound hitem =>
    rw [Tree.readBodyWithin_eq (h compound hitem), gatherDeclaration, hitem]
    rfl
  · rfl

theorem Header.parseWithin_eq {d : Dialect} {bound : Nat} {source : Text}
    (h : (spliceLines source).length ≤ bound) :
    parseWithin d bound source = some (parse d source) := by
  have hwalk : walkWithin (Declaration.next d) bound
      (.start (spliceLines source)) =
        some (walk (Declaration.next d) (.start (spliceLines source))) :=
    walkWithin_eq h
  have hfold : (Declaration.readAll d (spliceLines source)).foldlM
      (gatherWithin d bound) {} =
        some ((Declaration.readAll d (spliceLines source)).foldl
          (gatherDeclaration d) {}) := by
    apply foldlM_eq_foldl
    intro x hx g
    apply gatherWithin_eq
    intro compound hitem
    have hlt := length_lt_of_mem_readAll hx hitem
    omega
  rw [parseWithin, hwalk, Option.bind_eq_bind, Option.bind_some]
  change (Declaration.readAll d (spliceLines source)).foldlM
    (gatherWithin d bound) {} >>= _ = _
  rw [hfold]
  rfl

/-- Every piece that `next` finds takes something, the bodies of structs and
enums that it finds are shorter than the text in front of it, where it finds
nothing a token is passed over, and a walk has no more steps than its text has
characters. -/
structure MakesProgress {α : Type}
    (next : (c : Cursor) → Option (Found α c))
    (compound? : α → Option Compound) : Prop where
  found : ∀ c found, next c = some found → found.Progresses
  body : ∀ c found x compound, next c = some found →
    found.piece = .declared x → compound? x = some compound →
    compound.BodyShorter c.ahead
  token : ∀ c, next c = none → c.ahead ≠ [] →
    ∃ token, token ≠ [] ∧ c.ahead = token ++ c.skipToken.ahead
  steps : ∀ t, (walk next (.start t)).length ≤ t.length

theorem makesProgress_of_breaks {α : Type}
    {next : (c : Cursor) → Option (Found α c)}
    {compound? : α → Option Compound}
    (hbreaks : ∀ c found, next c = some found →
      Text.BreaksAt c.ahead found.rest)
    (hbody : ∀ c found x compound, next c = some found →
      found.piece = .declared x → compound? x = some compound →
      compound.BodyShorter c.ahead) : MakesProgress next compound? where
  found c found h := found.progresses (hbreaks c found h).suffix
  body := hbody
  token _ _ hne := Cursor.exists_token hne
  steps _ := length_walk_le next _

/-- Reading a header makes progress at every step, at file scope and in struct
bodies, and ends: no bound from the number of characters of the text on makes
a difference. -/
theorem Header.parse_makes_progress (d : Dialect) :
    MakesProgress (Declaration.next d) Declaration.compound? ∧
      MakesProgress (BodyItem.next d) BodyItem.compound? ∧
      (∀ body bound, body.length ≤ bound →
        Tree.readBodyWithin d bound body = some (Tree.readBody d body)) ∧
      ∀ source bound, (spliceLines source).length ≤ bound →
        Header.parseWithin d bound source =
          some (Header.parse d source) := by
  refine ⟨?_, ?_, ?_, ?_⟩
  · exact makesProgress_of_breaks
      (fun _ _ => Declaration.breaksAt_of_next)
      (fun _ _ _ _ => Declaration.bodyShorter_of_next)
  · exact makesProgress_of_breaks
      (fun _ _ => BodyItem.breaksAt_of_next)
      (fun _ _ _ _ => BodyItem.bodyShorter_of_next)
  · intro body bound h
    exact Tree.readBodyWithin_eq h
  · intro source bound h
    exact Header.parseWithin_eq h

/-- A piece with a character of two bytes, and a struct in a struct that is
read within the length of the text. -/
theorem Header.parse_makes_progress_nested :
    let t : Text := "/** é */ struct A { struct B { int b; } b; };"
    (Declaration.next {} (.start t)).map Found.size = some 9 ∧
      (∀ found, Declaration.next {} (.start t) = some found →
        found.Progresses) ∧
      (Header.parse {} t).map Entity.name = [("B" : Text), ("A" : Text)] ∧
      Header.parseWithin {} 45 t = some (Header.parse {} t) := by
  intro t
  obtain ⟨hfile, _, _, hparse⟩ := Header.parse_makes_progress {}
  refine ⟨by decide +kernel, fun found h => hfile.found _ found h,
    by decide +kernel, ?_⟩
  exact hparse t 45 (by decide)

end Bindery
