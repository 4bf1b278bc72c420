import Bindery.Binding.TypeScript
import Bindery.Proofs.Spelling

/-!
# References to declared types

A declaration gives a type the exposed name of its entity.  A type of the
header that names the entity is rendered on another way: its marker is taken
off, it is cut into words, qualifiers and sigils are dropped, and what is left
is exposed and starts with a capital letter.

The two ways meet as long as the words of the type are just the name.  Names
are words, so the separators of a type never cut one.  What remains are the
names that the second way does not take for names, and the capital letter.
-/

namespace Bindery.TypeScript

/-! ## The words of a type -/

/-- What stands between the words of a type. -/
def isSeparator (c : Char) : Bool := c == '*' || c == '&' || Text.isSpace c

theorem isSeparator_of_isSpace {c : Char} (h : Text.isSpace c = true) :
    isSeparator c = true := by
  simp [isSeparator, h]

theorem isSeparator_of_isWord {c : Char} (h : Text.isWord c = true) :
    isSeparator c = false := by
  have hspace : Text.isSpace c = false := by
    by_contra hspace
    rw [Text.isWord_of_isSpace (by simpa using hspace)] at h
    contradiction
  have hsigils : c ≠ '*' ∧ c ≠ '&' := by
    constructor
    · rintro rfl
      contradiction
    · rintro rfl
      contradiction
  simp [isSeparator, hspace, hsigils]

theorem typeWords_eq (t : Text) :
    typeWords t = (t.splitOnP isSeparator).filter fun word : Text =>
      !word.isEmpty && word != "const" :=
  rfl

/-- Everything about the words of a type follows from this equation. -/
theorem typeWords_append_separator {c : Char} (h : isSeparator c = true)
    (s t : Text) : typeWords (s ++ c :: t) = typeWords s ++ typeWords t := by
  rw [typeWords_eq, List.splitOnP_append_cons s t h, List.filter_append]
  rfl

theorem typeWords_nil : typeWords [] = [] := rfl

theorem typeWords_const : typeWords "const" = [] := rfl

theorem typeWords_separators_append {seps : Text}
    (h : ∀ c ∈ seps, isSeparator c = true) (t : Text) :
    typeWords (seps ++ t) = typeWords t := by
  induction seps with
  | nil => rfl
  | cons c seps ih =>
      simp only [List.mem_cons, forall_eq_or_imp] at h
      have hcut := typeWords_append_separator h.1 [] (seps ++ t)
      rw [List.nil_append, typeWords_nil, List.nil_append] at hcut
      rw [List.cons_append, hcut, ih h.2]

/-- A run of separators ends one word and starts another. -/
theorem typeWords_append_separators {seps : Text} (hne : seps ≠ [])
    (h : ∀ c ∈ seps, isSeparator c = true) (s t : Text) :
    typeWords (s ++ (seps ++ t)) = typeWords s ++ typeWords t := by
  cases seps with
  | nil => contradiction
  | cons c seps =>
      simp only [List.mem_cons, forall_eq_or_imp] at h
      rw [List.cons_append, typeWords_append_separator h.1,
        typeWords_separators_append h.2]

theorem typeWords_trim (t : Text) : typeWords (Text.trim t) = typeWords t := by
  obtain ⟨blanks, blanks', hblanks, hblanks', hsplit⟩ := Text.trim_split t
  have hseps : ∀ c ∈ blanks', isSeparator c = true :=
    fun c hc => isSeparator_of_isSpace (hblanks' c hc)
  have hlast : typeWords (Text.trim t ++ blanks') =
      typeWords (Text.trim t) := by
    by_cases hnil : blanks' = []
    · rw [hnil, List.append_nil]
    · have hcut := typeWords_append_separators hnil hseps (Text.trim t) []
      rwa [List.append_nil, typeWords_nil, List.append_nil] at hcut
  conv_rhs => rw [hsplit]
  rw [typeWords_separators_append
    fun c hc => isSeparator_of_isSpace (hblanks c hc), hlast]

/-- A name without separators is the only word of itself, unless it is taken
for a qualifier. -/
theorem typeWords_name {name : Text} (hne : name ≠ [])
    (h : ∀ c ∈ name, isSeparator c = false) :
    typeWords name = if name = "const" then [] else [name] := by
  rw [typeWords_eq, List.splitOnP_eq_singleton h]
  by_cases hconst : name = "const"
  · rw [if_pos hconst, hconst]
    rfl
  · have hkept : (!name.isEmpty && name != "const".toList) = true := by
      rw [Bool.and_eq_true, bne_iff_ne]
      exact ⟨by simpa using hne, hconst⟩
    rw [if_neg hconst]
    exact List.filter_cons_of_pos hkept

/-- The word at the beginning of a type ends where a separator stands. -/
theorem firstWord_unique {word word' rest rest' : Text}
    (hword : ∀ c ∈ word, isSeparator c = false)
    (hword' : ∀ c ∈ word', isSeparator c = false)
    (hrest : Text.Stops (!isSeparator ·) rest)
    (hrest' : Text.Stops (!isSeparator ·) rest')
    (h : word ++ rest = word' ++ rest') : word = word' ∧ rest = rest' := by
  have hdrop := congrArg (List.dropWhile (!isSeparator ·)) h
  rw [hrest.dropWhile_append (by simpa using hword),
    hrest'.dropWhile_append (by simpa using hword')] at hdrop
  rw [hdrop] at h
  exact ⟨List.append_cancel_right h, hdrop⟩

theorem stops_of_head_isSpace {rest : Text}
    (h : rest.head?.any Text.isSpace = true) :
    Text.Stops (!isSeparator ·) rest := by
  intro c hc
  rw [Option.mem_def.mp hc, Option.any_some] at h
  simp [isSeparator_of_isSpace h]

/-! ## Types that name something -/

/-- How a type names something: any number of `const` in front, sigils and
further `const` behind. -/
structure Mention where
  /-- White space in front of the type. -/
  margin : Text
  /-- The white space behind each `const` in front of the name. -/
  front : List Text
  /-- The separators behind the name, run by run, each with whether `const`
  follows. -/
  back : List (Text × Bool)
  margin_blank : ∀ c ∈ margin, Text.isSpace c = true
  front_blank : ∀ blanks ∈ front,
    blanks ≠ [] ∧ ∀ c ∈ blanks, Text.isSpace c = true
  back_separators : ∀ x ∈ back,
    x.1 ≠ [] ∧ ∀ c ∈ x.1, isSeparator c = true

namespace Mention

def frontText (front : List Text) : Text :=
  front.flatMap fun blanks => ("const" : Text) ++ blanks

def backText (back : List (Text × Bool)) : Text :=
  back.flatMap fun x => x.1 ++ if x.2 then ("const" : Text) else []

/-- The type that names `name` in this way. -/
def text (m : Mention) (name : Text) : Text :=
  m.margin ++ (frontText m.front ++ (name ++ backText m.back))

theorem typeWords_frontText {front : List Text}
    (h : ∀ blanks ∈ front, blanks ≠ [] ∧ ∀ c ∈ blanks, Text.isSpace c = true)
    (t : Text) : typeWords (frontText front ++ t) = typeWords t := by
  induction front with
  | nil => rfl
  | cons blanks front ih =>
      simp only [List.mem_cons, forall_eq_or_imp] at h
      obtain ⟨⟨hne, hblanks⟩, hfront⟩ := h
      have hseps : ∀ c ∈ blanks, isSeparator c = true :=
        fun c hc => isSeparator_of_isSpace (hblanks c hc)
      have hsplit : frontText (blanks :: front) ++ t =
          ("const" : Text) ++ (blanks ++ (frontText front ++ t)) := by
        simp only [frontText, List.flatMap_cons, List.append_assoc]
      rw [hsplit, typeWords_append_separators hne hseps, typeWords_const,
        List.nil_append, ih hfront]

theorem typeWords_backText {back : List (Text × Bool)}
    (h : ∀ x ∈ back, x.1 ≠ [] ∧ ∀ c ∈ x.1, isSeparator c = true)
    (t : Text) : typeWords (t ++ backText back) = typeWords t := by
  induction back generalizing t with
  | nil => rw [backText, List.flatMap_nil, List.append_nil]
  | cons x back ih =>
      simp only [List.mem_cons, forall_eq_or_imp] at h
      obtain ⟨⟨hne, hseps⟩, hback⟩ := h
      have hsplit : t ++ backText (x :: back) = t ++ (x.1 ++
          ((if x.2 then ("const" : Text) else []) ++ backText back)) := by
        simp only [backText, List.flatMap_cons, List.append_assoc]
      have hconst : typeWords (if x.2 then ("const" : Text) else []) = [] := by
        split
        · exact typeWords_const
        · exact typeWords_nil
      rw [hsplit, typeWords_append_separators hne hseps, ih hback, hconst,
        List.append_nil]

theorem typeWords_text (m : Mention) (name : Text) :
    typeWords (m.text name) = typeWords name := by
  have hmargin : ∀ c ∈ m.margin, isSeparator c = true :=
    fun c hc => isSeparator_of_isSpace (m.margin_blank c hc)
  rw [text, typeWords_separators_append hmargin,
    typeWords_frontText m.front_blank, typeWords_backText m.back_separators]

/-- The marker that a type starts with, where it takes the place of the
name. -/
structure ReadsAsMarker (m : Mention) (name : Text) : Prop where
  front_eq : m.front = []
  marker : name ∈ (Direction.declaredMarkers {}).map Prod.fst
  blank : (backText m.back).head?.any Text.isSpace = true

theorem stops_backText {back : List (Text × Bool)}
    (h : ∀ x ∈ back, x.1 ≠ [] ∧ ∀ c ∈ x.1, isSeparator c = true) :
    Text.Stops (!isSeparator ·) (backText back) := by
  cases back with
  | nil =>
      intro c hc
      contradiction
  | cons x back =>
      obtain ⟨hne, hseps⟩ := h x List.mem_cons_self
      obtain ⟨c, seps, hx⟩ := List.exists_cons_of_ne_nil hne
      have hc : isSeparator c = true := hseps c (hx ▸ List.mem_cons_self)
      rw [backText, List.flatMap_cons, hx]
      exact Text.stops_cons (by simp [hc]) _

theorem trimStart_text (m : Mention) {name : Text} (hne : name ≠ [])
    (h : ∀ c ∈ name, isSeparator c = false) :
    Text.trimStart (m.text name) =
      frontText m.front ++ (name ++ backText m.back) := by
  rw [text, Text.trimStart_append m.margin_blank]
  cases m.front with
  | nil =>
      obtain ⟨c, tail, rfl⟩ := List.exists_cons_of_ne_nil hne
      apply Text.trimStart_cons
      by_contra hspace
      have hsep := isSeparator_of_isSpace (by simpa using hspace)
      rw [h c List.mem_cons_self] at hsep
      contradiction
  | cons blanks front => exact Text.trimStart_cons rfl _

theorem markers_default {marker : Text}
    (h : marker ∈ (Direction.declaredMarkers {}).map Prod.fst) :
    marker ≠ "const" ∧ ∀ c ∈ marker, isSeparator c = false := by
  have hall : ((Direction.declaredMarkers {}).map Prod.fst).all
      (fun marker => marker != ("const" : Text) &&
        marker.all (!isSeparator ·)) = true := rfl
  simpa using List.all_eq_true.mp hall marker h

/-- A marker is found at the beginning of a type only in place of the name. -/
theorem afterMarker?_text (m : Mention) {name marker rest : Text}
    (hne : name ≠ []) (hname : ∀ c ∈ name, isSeparator c = false)
    (hmarker : marker ∈ (Direction.declaredMarkers {}).map Prod.fst) :
    ArgumentType.afterMarker? marker (Text.trimStart (m.text name)) =
        some rest ↔
      marker = name ∧ rest = backText m.back ∧ m.ReadsAsMarker name := by
  obtain ⟨hconst, hseps⟩ := markers_default hmarker
  rw [ArgumentType.afterMarker?, Option.filter_eq_some_iff,
    Text.after?_eq_some_iff, trimStart_text m hne hname]
  constructor
  · rintro ⟨heq, hblank⟩
    have hrest := stops_of_head_isSpace hblank
    cases hfront : m.front with
    | nil =>
        rw [hfront] at heq
        obtain ⟨rfl, rfl⟩ := firstWord_unique hname hseps
          (stops_backText m.back_separators) hrest heq
        exact ⟨rfl, rfl, hfront, hmarker, hblank⟩
    | cons blanks front =>
        obtain ⟨hblanks, hspace⟩ := m.front_blank blanks
          (hfront ▸ List.mem_cons_self)
        obtain ⟨c, blanks, rfl⟩ := List.exists_cons_of_ne_nil hblanks
        have hc : (!isSeparator c) = false := by
          simp [isSeparator_of_isSpace (hspace c List.mem_cons_self)]
        have hword : ∀ c ∈ ("const" : Text), isSeparator c = false := by
          simp [isSeparator, Text.isSpace]
        rw [hfront, frontText, List.flatMap_cons, List.append_assoc,
          List.append_assoc] at heq
        exact absurd (firstWord_unique hword hseps (Text.stops_cons hc _)
          hrest heq).1.symm hconst
  · rintro ⟨rfl, rfl, hreads⟩
    rw [hreads.front_eq]
    exact ⟨rfl, hreads.blank⟩

/-- The words of a type that names something, its marker taken off. -/
theorem typeWords_bareType (m : Mention) {name : Text} (hne : name ≠ [])
    (hname : ∀ c ∈ name, isSeparator c = false) :
    (m.ReadsAsMarker name →
      typeWords (ArgumentType.classify {} (m.text name)).bareType = []) ∧
    (¬ m.ReadsAsMarker name →
      typeWords (ArgumentType.classify {} (m.text name)).bareType =
        typeWords name) := by
  have hmem : ∀ x ∈ Direction.markers {},
      x.1 ∈ (Direction.declaredMarkers {}).map Prod.fst := by
    intro x hx
    exact List.mem_map_of_mem (List.mem_mergeSort.mp hx)
  unfold ArgumentType.classify
  simp only
  split
  · next direction rest hmarked =>
    obtain ⟨x, hx, hfound⟩ := List.exists_of_findSome?_eq_some hmarked
    obtain ⟨rest', hafter, heq⟩ := Option.map_eq_some_iff.mp hfound
    obtain ⟨_, rfl, hreads⟩ :=
      (m.afterMarker?_text hne hname (hmem x hx)).mp hafter
    rw [← (Prod.mk.inj heq).2]
    refine ⟨fun _ => ?_, fun hnot => absurd hreads hnot⟩
    have hwords := typeWords_backText m.back_separators []
    rw [List.nil_append, typeWords_nil] at hwords
    rw [typeWords_trim, hwords]
  · next hmarked =>
    refine ⟨fun hreads => ?_, fun _ => ?_⟩
    · obtain ⟨x, hx, rfl⟩ := List.mem_map.mp hreads.marker
      have hnone := List.findSome?_eq_none_iff.mp hmarked x
        (List.mem_mergeSort.mpr hx)
      rw [Option.map_eq_none_iff] at hnone
      have hsome := (m.afterMarker?_text hne hname hreads.marker).mpr
        ⟨rfl, rfl, hreads⟩
      rw [hnone] at hsome
      contradiction
    · rw [typeWords_trim, typeWords_text]

end Mention

/-! ## Declared types -/

/-- A type of the header that names something is rendered with the exposed
name as it is, unless the name is not taken for one or its first letter
changes. -/
theorem typeName_text_iff (m : Mention) {name : Text} (hne : name ≠ [])
    (hname : ∀ c ∈ name, isSeparator c = false) :
    typeName {} (m.text name) = Text.concat ["ode.", exposedName {} name] ↔
      name ≠ "const" ∧ ¬ m.ReadsAsMarker name ∧
        ∃ c ∈ (exposedName {} name).head?, Text.upper c = [c] := by
  have hunknown : ∀ t : Text, Text.concat ["ode.", t] ≠ "unknown" := by
    intro t
    simp [Text.concat]
  obtain ⟨hmarker, hplain⟩ := m.typeWords_bareType hne hname
  unfold typeName
  simp only
  by_cases hreads : m.ReadsAsMarker name
  · rw [hmarker hreads]
    refine iff_of_false (hunknown _).symm ?_
    exact fun h => h.2.1 hreads
  · rw [hplain hreads, typeWords_name hne hname]
    by_cases hconst : name = "const"
    · rw [if_pos hconst]
      refine iff_of_false (hunknown _).symm ?_
      exact fun h => h.1 hconst
    · have hjoin : Text.join "_" [name] = name := List.intercalate_singleton
      rw [if_neg hconst, hjoin]
      cases exposedName {} name with
      | nil =>
          refine iff_of_false (hunknown _).symm ?_
          simp
      | cons c rest =>
          simp only [Text.concat, List.flatten_cons, List.flatten_nil,
            List.append_nil, List.append_cancel_left_eq]
          constructor
          · intro h
            rw [← List.singleton_append, List.append_left_inj] at h
            exact ⟨hconst, hreads, c, rfl, h⟩
          · rintro ⟨_, _, c', hc', hupper⟩
            rw [← Option.some.inj hc'] at hupper
            rw [hupper]
            rfl

theorem isSeparator_qualifiedName {e : Entity} (h : e.Spelled)
    (hcategory : e.category ≠ .define) :
    ∀ c ∈ e.qualifiedName, isSeparator c = false := by
  intro c hc
  rcases List.mem_append.mp hc with hc | hc
  · obtain ⟨outer, houter, hc⟩ := List.mem_flatMap.mp hc
    rcases List.mem_append.mp hc with hc | hc
    · exact isSeparator_of_isWord (h.scope outer houter c hc)
    · have hcolon : c = ':' := by simpa using hc
      rw [hcolon]
      rfl
  · exact isSeparator_of_isWord (h.name hcategory c hc)

theorem category_ne_define {ctx : Context} {e : Entity} {x : Declaration}
    (hx : declaration? ctx e = some x) (htype : x.declaresType = true) :
    e.category ≠ .define := by
  intro hcategory
  have hshape : x.shape = .constant (typeName ctx.dialect e.typeText) := by
    obtain ⟨shape, hshape, rfl⟩ := Option.map_eq_some_iff.mp hx
    simpa [shape?, boundArray?, hcategory] using hshape.symm
  simp [Declaration.declaresType, hshape] at htype

theorem exports_isInfix (name lead rest : Text) (before after : List Text) :
    Text.concat ["export type ", name, " = "] <:+:
      Text.concat (before ++ (lead ++ ("export type " : Text)) :: name ::
        ((" = " : Text) ++ rest) :: after) := by
  refine ⟨Text.concat before ++ lead, rest ++ Text.concat after, ?_⟩
  simp only [Text.concat, List.flatten_append, List.flatten_cons,
    List.flatten_nil, List.append_nil, List.append_assoc]

theorem classText_exports (name : Text) (params : List Param)
    (members : Text) :
    Text.concat ["export type ", name, " = "] <:+:
      classText name params members :=
  exports_isInfix name " \x7d;\n" "\x7b\n"
    ["export const ", name, ": \x7b new (", paramsText params, "): ode.", name]
    [indent, "[EngineSymbol]: \"", name, "\";\n", members, indent,
      "delete(): void;\n\x7d;\n"]

/-- A declaration of a type says so in its text. -/
theorem exports_type {x : Declaration} (h : x.declaresType = true) :
    Text.concat ["export type ", x.exposed, " = "] <:+: x.text := by
  obtain ⟨name, doc, shape⟩ := x
  refine List.IsInfix.trans ?_ (List.suffix_append (docText [] doc) _).isInfix
  cases shape with
  | constant type => contradiction
  | enum values =>
      exact exports_isInfix name [] "EnumValue<"
        ["export const ", name, ": Enum<", name, "_Map>;\n"] _
  | handle => exact classText_exports name [] _
  | valueObject fields => exact exports_isInfix name [] "\x7b\n" [] _
  | classOf params members => exact classText_exports name params _
  | tuple elements => exact exports_isInfix name [] "readonly [" [] _
  | array element length => exact exports_isInfix name [] "readonly [\n" [] _
  | function params type => contradiction

theorem qualifiedName_ne_nil {d : Dialect} {source : Text} {e : Entity}
    (h : e ∈ Header.parse d source) : e.qualifiedName ≠ [] := by
  have hnames : ∀ x ∈ Source.Declaration.readAll d (Source.spliceLines source),
      x.item.name? ≠ some [] :=
    fun x hx => Source.Declaration.name_of_mem_readAll hx
  have hinvariant := gatherDeclarations_invariant (d := d)
    Gathered.Invariant.initial hnames
  have hname := (hinvariant.each e h).name_ne_nil
  exact List.append_ne_nil_of_right_ne_nil _ hname

/-- Under the default dialect a type that names a declared type refers to the
declaration unless its name is taken for a qualifier or a marker, or the
declared name does not start with a capital letter. -/
theorem reference_resolves_iff {ctx : Context} (hd : ctx.dialect = {})
    {source : Text} {e : Entity} (he : e ∈ Header.parse {} source)
    {x : Declaration} (hx : declaration? ctx e = some x)
    (htype : x.declaresType = true) (m : Mention) :
    Text.concat ["export type ", x.exposed, " = "] <:+: x.text ∧
    (typeName ctx.dialect (m.text e.qualifiedName) =
        Text.concat ["ode.", x.exposed] ↔
      e.qualifiedName ≠ "const" ∧ ¬ m.ReadsAsMarker e.qualifiedName ∧
        ∃ c ∈ x.exposed.head?, Text.upper c = [c]) := by
  have hexposed : x.exposed = exposedName {} e.qualifiedName := by
    obtain ⟨shape, _, rfl⟩ := Option.map_eq_some_iff.mp hx
    rw [← hd]
    rfl
  have hname : ∀ c ∈ e.qualifiedName, isSeparator c = false :=
    isSeparator_qualifiedName (Header.spelled_of_mem_parse he)
      (category_ne_define hx htype)
  refine ⟨exports_type htype, ?_⟩
  rw [hd, hexposed]
  exact typeName_text_iff m (qualifiedName_ne_nil he) hname

/-- The type of a constant pointer. -/
def Mention.constPointer : Mention where
  margin := []
  front := [" "]
  back := [(" *", false)]
  margin_blank := by simp
  front_blank := by simp [Text.isSpace]
  back_separators := by simp [isSeparator, Text.isSpace]

/-- The type of a constant pointer to an enumeration refers to what is
declared for the enumeration. -/
theorem enum_reference_resolves :
    ∃ e ∈ Header.parse {} "typedef enum { A } ODE_E;",
      (declaration? {} e).map Declaration.declaresType = some true ∧
      typeName {} "const ODE_E *" = "ode.E" := by
  let e : Entity :=
    { category := .enum, name := "ODE_E",
      members := [{ category := .enumValue, name := "A", value := some "0" }] }
  have he : e ∈ Header.parse {} "typedef enum { A } ODE_E;" :=
    List.mem_of_mem_head? (by cbv)
  have hmarker : ¬ Mention.constPointer.ReadsAsMarker e.qualifiedName :=
    fun h => absurd h.front_eq (by decide)
  refine ⟨e, he, rfl, ?_⟩
  exact (@reference_resolves_iff {} rfl _ e he _ rfl rfl
    Mention.constPointer).2.mpr ⟨by decide, hmarker, 'E', rfl, by decide⟩

/-- The declaration of an array instance starts with a small letter, and a type
that names it refers to another name. -/
theorem array_reference_dangles :
    ∃ e ∈ Header.parse {} "typedef struct { float m[16]; } ODE_Transform;",
      ∃ x, declaration? {} e = some x ∧
        Text.concat ["export type ", "float_array_16", " = "] <:+: x.text ∧
        e.qualifiedName = "float_array_16" ∧
        typeName {} e.qualifiedName = "ode.Float_array_16" := by
  let e : Entity :=
    { category := .arrayInstance, type := some "float[16]",
      name := "float_array_16" }
  have he : e ∈ Header.parse {}
      "typedef struct { float m[16]; } ODE_Transform;" :=
    List.mem_of_mem_head? (by cbv)
  let x : Declaration :=
    { exposed := "float_array_16", doc := some "An array of 16 floats",
      shape := .array "ode.Float" 16 }
  have hx : declaration? {} e = some x := by cbv
  exact ⟨e, he, x, hx, exports_type (x := x) rfl, rfl, by cbv⟩

end Bindery.TypeScript
