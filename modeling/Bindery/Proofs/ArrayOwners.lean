import Bindery.Proofs.DirectionLookup
import Bindery.Proofs.RenderedFiles

/-!
# Which headers register an array type

Headers that use the same array type all declare an instance of it, but the
type may be registered only once in a run.  The header that comes first among
those that declare the instance registers it, and the others leave it out.
Nothing else in a header's bindings depends on the other headers: an array
instance neither continues nor ends a run of registrations, and it needs no
helper functions, so the lines of all other entities stay as they are.

This does not make the registration unique.  A typedef of an array type is
registered by every header that declares it, and its registration may read like
that of an instance.  So the registration of an instance occurs once for the
instance, in the first header, and once more for each such rival.
-/

namespace Bindery

/-- An element is the only one with its key, if no key occurs twice. -/
theorem filter_key_eq_singleton {α β : Type} [DecidableEq β] {key : α → β}
    {l : List α} (h : (l.map key).Nodup) {a : α} (ha : a ∈ l) :
    l.filter (key · = key a) = [a] := by
  have hcount : (l.map key).count (key a) = 1 :=
    List.count_eq_one_of_mem h (List.mem_map_of_mem ha)
  have hlength : (l.filter (key · = key a)).length = 1 := by
    rw [← hcount, List.count_eq_length_filter, List.filter_map,
      List.length_map]
    rfl
  obtain ⟨b, hb⟩ := List.length_eq_one_iff.mp hlength
  have hmem : a ∈ l.filter (key · = key a) := by simp [ha]
  rw [hb, List.mem_singleton] at hmem
  rw [hb, hmem]

namespace Header

/-! ## The first header with an array instance -/

def arrays (h : Header) : List Entity :=
  h.entities.filter (·.category = .arrayInstance)

def arrayNames (h : Header) : List Text := h.arrays.map Entity.qualifiedName

/-- The first header that declares an array instance of that name. -/
def firstWithArray (headers : List Header) (name : Text) : Option Header :=
  headers.find? (·.arrayNames.contains name)

theorem lookup_arrayOwners (ctx : Context) (headers : List Header)
    (name : Text) :
    (ctx.withHeaders headers).arrayOwners.lookup name =
      (firstWithArray headers name).map Header.path := by
  unfold firstWithArray
  induction headers with
  | nil => rfl
  | cons h headers ih =>
      have hcons : (ctx.withHeaders (h :: headers)).arrayOwners =
          (h.arrayNames.map fun name => (name, h.path)) ++
            (ctx.withHeaders headers).arrayOwners := by
        simp [Context.withHeaders, arrayNames, arrays]
      rw [hcons, List.lookup_append, lookup_map_const, ih, List.find?_cons]
      by_cases hmem : name ∈ h.arrayNames
      · simp [hmem]
      · simp [hmem]

/-- A header binds an array instance exactly if no header in front of it
declares the instance. -/
theorem bindsArray_iff {headers : List Header}
    (hpaths : headers.Pairwise fun g h => g.path.same h.path = false)
    (ctx : Context) {h : Header} (hh : h ∈ headers) {e : Entity}
    (he : e ∈ h.arrays) :
    (ctx.withHeaders headers).bindsArray e h.path = true ↔
      firstWithArray headers e.qualifiedName = some h := by
  have hsymm : Std.Symm fun g h : Header => g.path.same h.path = false := by
    refine ⟨fun g h hsame => ?_⟩
    simpa [Path.same, eq_comm] using hsame
  have hname : e.qualifiedName ∈ h.arrayNames := List.mem_map_of_mem he
  unfold Context.bindsArray
  rw [lookup_arrayOwners]
  cases hfirst : firstWithArray headers e.qualifiedName with
  | none =>
      have hnot := List.find?_eq_none.mp hfirst h hh
      simp [hname] at hnot
  | some g =>
      rw [Option.map_some, Option.all_some, Option.some.injEq]
      constructor
      · intro hsame
        by_contra hne
        rw [hpaths.forall (List.mem_of_find?_eq_some hfirst) hh hne] at hsame
        contradiction
      · rintro rfl
        simp [Path.same]

end Header

namespace Embind

/-! ## The bindings of a header -/

/-- An entity with the text that registers it, and the blank line in front
where there is one. -/
structure Binding where
  entity : Entity
  gap : Text
  text : Text
deriving DecidableEq

def Binding.lines (b : Binding) : Text := b.gap ++ b.text

/-- The bindings of those entities that are chosen, behind a run of
registrations. -/
def bindingsFrom (ctx : Context) (chosen : Entity → Bool) :
    (run : Option Category) → List Entity → List Binding
  | _, [] => []
  | run, e :: es =>
    match registration? ctx e with
    | none => bindingsFrom ctx chosen run es
    | some r =>
      if chosen e then
        ⟨e, if run = some e.category then [] else ['\n'], r.text⟩ ::
          bindingsFrom ctx chosen
            (if formsRun e.category then some e.category else run) es
      else bindingsFrom ctx chosen run es

/-- Array instances that belong to another header are not chosen. -/
def isChosen (ctx : Context) (path : Path) (e : Entity) : Bool :=
  e.category ≠ .arrayInstance || ctx.bindsArray e path

def bindings (ctx : Context) (h : Header) : List Binding :=
  bindingsFrom ctx (isChosen ctx h.path) none h.entities

theorem registrationLines_eq (ctx : Context) (h : Header) :
    registrationLines none (registrations ctx h) =
      (bindings ctx h).flatMap Binding.lines := by
  unfold registrations bindings
  generalize (none : Option Category) = run
  induction h.entities generalizing run with
  | nil => rfl
  | cons e es ih =>
      have hchosen : (e.category = .arrayInstance &&
          !ctx.bindsArray e h.path) = !isChosen ctx h.path e := by
        simp [isChosen]
      rw [bindingsFrom, List.filterMap_cons]
      cases hr : registration? ctx e with
      | none =>
          simp only [Option.map_none, ite_self]
          exact ih run
      | some r =>
          simp only [hchosen, Option.map_some]
          cases isChosen ctx h.path e with
          | false => simpa using ih run
          | true =>
              simp only [Bool.not_true, Bool.false_eq_true, if_false, if_true,
                registrationLines, List.flatMap_cons, Binding.lines, ih]

/-- A binding holds the registration of its entity. -/
theorem registration?_of_mem {ctx : Context} {chosen : Entity → Bool}
    {run : Option Category} {es : List Entity} {b : Binding}
    (h : b ∈ bindingsFrom ctx chosen run es) :
    ∃ r, registration? ctx b.entity = some r ∧ b.text = r.text ∧
      (b.gap = [] ∨ b.gap = ['\n']) := by
  induction es generalizing run with
  | nil => contradiction
  | cons e es ih =>
      rw [bindingsFrom] at h
      cases hr : registration? ctx e with
      | none =>
          rw [hr] at h
          exact ih h
      | some r =>
          simp only [hr] at h
          split at h
          · rcases List.mem_cons.mp h with rfl | h
            · refine ⟨r, hr, rfl, ?_⟩
              by_cases hrun : run = some e.category
              · exact .inl (if_pos hrun)
              · exact .inr (if_neg hrun)
            · exact ih h
          · exact ih h

theorem exists_binding {ctx : Context} {chosen : Entity → Bool}
    {es : List Entity} {e : Entity} (he : e ∈ es) (hchosen : chosen e = true)
    {r : Registration} (hr : registration? ctx e = some r)
    (run : Option Category) :
    ∃ b ∈ bindingsFrom ctx chosen run es, b.entity = e ∧ b.text = r.text := by
  induction es generalizing run with
  | nil => contradiction
  | cons x es ih =>
      rw [bindingsFrom]
      rcases List.mem_cons.mp he with rfl | he
      · simp only [hr, hchosen, if_true]
        exact ⟨_, List.mem_cons_self, rfl, rfl⟩
      · cases registration? ctx x with
        | none => exact ih he run
        | some r' =>
            simp only
            split
            · obtain ⟨b, hb, hentity⟩ := ih he _
              exact ⟨b, List.mem_cons_of_mem _ hb, hentity⟩
            · exact ih he run

/-- The lines that register an array type. -/
def valueArrayText (exposed element : Text) (length : Nat) : Text :=
  Text.concat ["    ", "value_array<std::array<", element, ", ",
    Text.ofNat length, "> >(\"", exposed, "\")",
    (List.range length).flatMap fun i =>
      Text.concat ["\n", "    ", "    ", ".element(emscripten::index<",
        Text.ofNat i, ">())"],
    ";\n"]

theorem text_array (exposed target element : Text) (length : Nat) :
    Registration.text ⟨exposed, target, .array element length⟩ =
      valueArrayText exposed element length :=
  rfl

theorem registration?_of_boundArray? (ctx : Context) {e : Entity}
    {element : Text} {length : Nat}
    (h : boundArray? e = some (element, length)) :
    ∃ r, registration? ctx e = some r ∧
      r.text = valueArrayText (ctx.exposedName e) element length := by
  simp only [registration?, shape?, h, Option.map_some]
  exact ⟨_, rfl, rfl⟩

theorem registration?_array (ctx : Context) {e : Entity}
    (he : e.category = .arrayInstance) :
    registration? ctx e = (boundArray? e).map fun (element, length) =>
      ⟨ctx.exposedName e, e.qualifiedName, .array element length⟩ := by
  unfold registration? shape?
  cases boundArray? e with
  | none => simp [he]
  | some array => rfl

/-- The helper functions that the binding of an entity needs. -/
def helpersOf (ctx : Context) (e : Entity) : Text :=
  ((registration? ctx e).map (Registration.helpers ctx.dialect)).getD []

theorem helpersOf_array (ctx : Context) {e : Entity}
    (he : e.category = .arrayInstance) : helpersOf ctx e = [] := by
  rw [helpersOf, registration?_array ctx he]
  cases boundArray? e with
  | none => rfl
  | some array => rfl

theorem helpers_registrations (ctx : Context) (h : Header) :
    (registrations ctx h).flatMap (fun r => r.2.helpers ctx.dialect) =
      h.entities.flatMap (helpersOf ctx) := by
  unfold registrations
  induction h.entities with
  | nil => rfl
  | cons e es ih =>
      rw [List.filterMap_cons, List.flatMap_cons, ← ih]
      by_cases hleft : e.category = .arrayInstance &&
          !ctx.bindsArray e h.path
      · have he : e.category = .arrayInstance := by simp_all
        rw [if_pos hleft, helpersOf_array ctx he]
        rfl
      · rw [if_neg hleft, helpersOf]
        cases registration? ctx e with
        | none => rfl
        | some r => rfl

theorem opening_withHeaders (ctx : Context) (headers : List Header)
    (h : Header) : opening (ctx.withHeaders headers) h = opening ctx h := by
  simp only [opening, helpers_registrations]
  rfl

/-- The source file of a header consists of its bindings in a frame. -/
theorem render_eq_bindings (ctx : Context) (h : Header) :
    render ctx h = opening ctx h ++
      ((bindings ctx h).flatMap Binding.lines ++ closing) := by
  rw [render_eq, registrationLines_eq]

theorem formsRun_arrayInstance : formsRun .arrayInstance = false := rfl

/-- The bindings that are left do not change with those that are left out. -/
theorem bindingsFrom_filter (ctx : Context) {chosen : Entity → Bool}
    (hchosen : ∀ e, e.category ≠ .arrayInstance → chosen e = true)
    (run : Option Category) (es : List Entity) :
    bindingsFrom ctx chosen run es =
      (bindingsFrom ctx (fun _ => true) run es).filter (chosen ·.entity) := by
  induction es generalizing run with
  | nil => rfl
  | cons e es ih =>
      rw [bindingsFrom, bindingsFrom]
      cases registration? ctx e with
      | none => exact ih run
      | some r =>
          simp only [if_true]
          cases he : chosen e with
          | true => simp [he, ih]
          | false =>
              -- Only an array instance is left out, and the run goes on.
              have harray : e.category = .arrayInstance := by
                by_contra hne
                rw [hchosen e hne] at he
                contradiction
              simp [he, harray, formsRun_arrayInstance, ih]

theorem bindingsFrom_withHeaders (ctx : Context) (headers : List Header)
    (chosen : Entity → Bool) (run : Option Category) (es : List Entity) :
    bindingsFrom (ctx.withHeaders headers) chosen run es =
      bindingsFrom ctx chosen run es := by
  induction es generalizing run with
  | nil => rfl
  | cons e es ih =>
      have hr : registration? (ctx.withHeaders headers) e =
          registration? ctx e := rfl
      simp only [bindingsFrom, hr, ih]

theorem bindings_alone {ctx : Context} (hctx : ctx.arrayOwners = [])
    (h : Header) :
    bindings ctx h = bindingsFrom ctx (fun _ => true) none h.entities := by
  have hall : isChosen ctx h.path = fun _ => true := by
    funext e
    simp [isChosen, Context.bindsArray, hctx]
  rw [bindings, hall]

/-- Knowing the headers of the run only takes bindings away. -/
theorem bindings_withHeaders {ctx : Context} (hctx : ctx.arrayOwners = [])
    (headers : List Header) (h : Header) :
    bindings (ctx.withHeaders headers) h = (bindings ctx h).filter
      fun b => isChosen (ctx.withHeaders headers) h.path b.entity := by
  rw [bindings_alone hctx,
    ← bindingsFrom_filter ctx fun e he => by simp [isChosen, he]]
  exact bindingsFrom_withHeaders ctx headers _ none h.entities

/-- The binding of an array instance, with its blank line. -/
def arrayBinding? (ctx : Context) (e : Entity) : Option Binding :=
  (boundArray? e).map fun (element, length) =>
    ⟨e, ['\n'], valueArrayText (ctx.exposedName e) element length⟩

theorem entity_of_arrayBinding? {ctx : Context} {e : Entity} {b : Binding}
    (h : arrayBinding? ctx e = some b) : b.entity = e := by
  obtain ⟨array, _, rfl⟩ := Option.map_eq_some_iff.mp h
  rfl

theorem filter_array_bindingsFrom (ctx : Context) {run : Option Category}
    (hrun : run ≠ some .arrayInstance) (es : List Entity) :
    (bindingsFrom ctx (fun _ => true) run es).filter
        (·.entity.category = .arrayInstance) =
      (es.filter (·.category = .arrayInstance)).filterMap
        (arrayBinding? ctx) := by
  induction es generalizing run with
  | nil => rfl
  | cons e es ih =>
      rw [bindingsFrom]
      by_cases he : e.category = .arrayInstance
      · have hr := registration?_array ctx he
        cases harray : boundArray? e with
        | none =>
            rw [harray] at hr
            simp [he, hr, arrayBinding?, harray, ih hrun]
        | some array =>
            rw [harray] at hr
            simp [he, hr, arrayBinding?, harray, hrun, formsRun_arrayInstance,
              text_array, ih hrun]
      · cases registration? ctx e with
        | none => simp [he, ih hrun]
        | some r =>
            have hnext : (if formsRun e.category then some e.category
                else run) ≠ some .arrayInstance := by
              split
              · simpa using he
              · exact hrun
            simp [he, ih hnext]

/-- A header alone binds all of its array instances. -/
theorem array_bindings {ctx : Context} (hctx : ctx.arrayOwners = [])
    (h : Header) :
    (bindings ctx h).filter (·.entity.category = .arrayInstance) =
      h.arrays.filterMap (arrayBinding? ctx) := by
  rw [bindings_alone hctx]
  exact filter_array_bindingsFrom ctx (by decide) h.entities

/-- An array instance whose name occurs once is bound once. -/
theorem filter_name_bindings {ctx : Context} (hctx : ctx.arrayOwners = [])
    {h : Header} (hnames : h.arrayNames.Nodup) {e : Entity}
    (he : e ∈ h.arrays) :
    ((bindings ctx h).filter (·.entity.category = .arrayInstance)).filter
        (·.entity.qualifiedName = e.qualifiedName) =
      (arrayBinding? ctx e).toList := by
  have hname : (fun x => (arrayBinding? ctx x).filter
      (·.entity.qualifiedName = e.qualifiedName)) =
      fun x => if decide (x.qualifiedName = e.qualifiedName) = true then
        arrayBinding? ctx x else none := by
    funext x
    cases hx : arrayBinding? ctx x with
    | none => simp
    | some b => simp [Option.filter_some, entity_of_arrayBinding? hx]
  rw [array_bindings hctx, List.filter_filterMap, hname,
    ← List.filterMap_filter, filter_key_eq_singleton hnames he]
  cases hbinding : arrayBinding? ctx e with
  | none => simp [hbinding]
  | some b => simp [hbinding]

/-! ## Bindings in a run -/

section Run

variable {ctx : Context} {headers : List Header} {h : Header}

theorem firstWithArray_of_bound (hctx : ctx.arrayOwners = [])
    (hpaths : headers.Pairwise fun g h => g.path.same h.path = false)
    (hh : h ∈ headers) {b : Binding}
    (hb : b ∈ bindings (ctx.withHeaders headers) h)
    (hcategory : b.entity.category = .arrayInstance) :
    Header.firstWithArray headers b.entity.qualifiedName = some h := by
  rw [bindings_withHeaders hctx, List.mem_filter] at hb
  have hmem : b ∈ h.arrays.filterMap (arrayBinding? ctx) := by
    rw [← array_bindings hctx, List.mem_filter]
    exact ⟨hb.1, by simpa using hcategory⟩
  obtain ⟨e, he, hbinding⟩ := List.mem_filterMap.mp hmem
  have hbinds : (ctx.withHeaders headers).bindsArray b.entity h.path =
      true := by
    simpa [isChosen, hcategory] using hb.2
  rw [entity_of_arrayBinding? hbinding] at hbinds ⊢
  exact (Header.bindsArray_iff hpaths ctx hh he).mp hbinds

theorem filter_name_of_first (hctx : ctx.arrayOwners = [])
    (hpaths : headers.Pairwise fun g h => g.path.same h.path = false)
    (hh : h ∈ headers) (hnames : h.arrayNames.Nodup) {e : Entity}
    (he : e ∈ h.arrays)
    (hfirst : Header.firstWithArray headers e.qualifiedName = some h) :
    (bindings (ctx.withHeaders headers) h).filter (fun b =>
        b.entity.category = .arrayInstance ∧
          b.entity.qualifiedName = e.qualifiedName) =
      (arrayBinding? ctx e).toList := by
  have hchosen : isChosen (ctx.withHeaders headers) h.path e = true := by
    rw [isChosen, (Header.bindsArray_iff hpaths ctx hh he).mpr hfirst,
      Bool.or_true]
  have halone : (bindings ctx h).filter (fun b =>
      b.entity.category = .arrayInstance ∧
        b.entity.qualifiedName = e.qualifiedName) =
      (arrayBinding? ctx e).toList := by
    rw [← filter_name_bindings hctx hnames he, List.filter_filter]
    apply List.filter_congr
    intro b _
    rw [Bool.decide_and, Bool.and_comm]
  rw [bindings_withHeaders hctx, List.filter_comm, halone,
    List.filter_eq_self]
  intro b hb
  rw [entity_of_arrayBinding? (Option.mem_toList.mp hb)]
  exact hchosen

theorem other_bindings_withHeaders (hctx : ctx.arrayOwners = []) :
    (bindings (ctx.withHeaders headers) h).filter
        (·.entity.category ≠ .arrayInstance) =
      (bindings ctx h).filter (·.entity.category ≠ .arrayInstance) := by
  rw [bindings_withHeaders hctx, List.filter_filter]
  apply List.filter_congr
  intro b _
  by_cases hb : b.entity.category = .arrayInstance
  · simp [hb]
  · simp [hb, isChosen]

end Run

/-! ## Rivals -/

/-- The binding is that of the array instance with the name. -/
def Binding.isInstance (name : Text) (b : Binding) : Bool :=
  b.entity.category = .arrayInstance ∧ b.entity.qualifiedName = name

/-- Other entities that are registered with the same text as an array
instance. -/
def rivals (ctx : Context) (h : Header) (name text : Text) : List Binding :=
  (bindings ctx h).filter fun b => b.text = text ∧ ¬ b.isInstance name

/-- A registration is that of an array instance or of a rival. -/
theorem count_eq_add_rivals (ctx : Context) (h : Header) (name text : Text) :
    ((bindings ctx h).map Binding.text).count text =
      (((bindings ctx h).filter (Binding.isInstance name)).filter
        (·.text = text)).length + (rivals ctx h name text).length := by
  rw [List.count_eq_countP, List.countP_map,
    List.countP_eq_countP_filter_add _ _ (Binding.isInstance name),
    List.countP_eq_length_filter, List.countP_eq_length_filter, rivals]
  congr 2
  · apply List.filter_congr
    intro b _
    rw [Bool.eq_iff_iff]
    simp
  · rw [List.filter_filter]
    apply List.filter_congr
    intro b _
    rw [Bool.eq_iff_iff]
    simp

section Rivals

variable {ctx : Context} {h : Header} {name : Text} {exposed element : Text}
  {length : Nat}

/-- A typedef of the same array type under the same exposed name is a rival. -/
theorem exists_typedef_rival (ctx : Context) (name : Text) {e : Entity}
    (he : e ∈ h.entities) (hcategory : e.category = .typedef)
    (harray : boundArray? e = some (element, length)) :
    ∃ b ∈ rivals ctx h name
        (valueArrayText (ctx.exposedName e) element length), b.entity = e := by
  obtain ⟨r, hr, htext⟩ := registration?_of_boundArray? ctx harray
  have hchosen : isChosen ctx h.path e = true := by
    simp [isChosen, hcategory]
  obtain ⟨b, hb, rfl, hbtext⟩ := exists_binding he hchosen hr none
  refine ⟨b, List.mem_filter.mpr ⟨hb, ?_⟩, rfl⟩
  simp [hbtext, htext, Binding.isInstance, hcategory]

theorem mem_of_append_eq {target x y : Text}
    (h : target ++ '>' :: x = ("std::array<" : Text) ++ y) : '<' ∈ target := by
  rcases List.append_eq_append_iff.mp h with
    ⟨rest, hrest, htail⟩ | ⟨rest, rfl, _⟩
  · cases rest with
    | nil =>
        rw [List.append_nil] at hrest
        rw [← hrest]
        decide
    | cons c rest =>
        -- The name would end in the middle of the fixed text.
        have hc : c = '>' := (List.cons.inj htail).1.symm
        have hmem : '>' ∈ ("std::array<" : Text) := by
          rw [hrest, hc]
          simp
        exact absurd hmem (by decide)
  · exact List.mem_append_left _ (by decide)

/-- Only a name with an angle bracket makes another registration read like that
of an array. -/
theorem exists_array_of_text {r : Registration} (hname : '<' ∉ r.target)
    (htext : r.text = valueArrayText exposed element length) :
    ∃ element' length', r.shape = .array element' length' := by
  obtain ⟨exposed', target, shape⟩ := r
  have hlead (n : Nat) := congrArg (List.take n) htext
  cases shape with
  | constant =>
      have hfirst : ("    c" : Text) = "    v" := hlead 5
      exact absurd hfirst (by decide)
  | enum values =>
      have hfirst : ("    e" : Text) = "    v" := hlead 5
      exact absurd hfirst (by decide)
  | handle =>
      have hfirst : ("    c" : Text) = "    v" := hlead 5
      exact absurd hfirst (by decide)
  | valueObject fields =>
      have hfirst : ("    value_o" : Text) = "    value_a" := hlead 11
      exact absurd hfirst (by decide)
  | classOf constructor members =>
      have hfirst : ("    c" : Text) = "    v" := hlead 5
      exact absurd hfirst (by decide)
  | tuple elements =>
      have hrest := congrArg (List.drop 16) htext
      exact absurd (mem_of_append_eq hrest) hname
  | array element' length' => exact ⟨element', length', rfl⟩
  | function =>
      have hfirst : ("    f" : Text) = "    v" := hlead 5
      exact absurd hfirst (by decide)

theorem category_of_array_shape {e : Entity}
    (h : shape? ctx e = some (.array element length)) :
    e.category = .typedef ∨ e.category = .arrayInstance := by
  unfold shape? at h
  cases harray : boundArray? e with
  | some array =>
      unfold boundArray? at harray
      split at harray
      · next hcategory => exact .inr hcategory
      · next hcategory => exact .inl hcategory
      · contradiction
  | none =>
      rw [harray] at h
      cases hcategory : e.category with
      | struct =>
          simp only [hcategory] at h
          split at h
          · simp at h
          · simp [classShape] at h
      | _ => simp [hcategory] at h

/-- A rival is a typedef or an array instance of another name. -/
theorem category_of_mem_rivals {b : Binding}
    (hb : b ∈ rivals ctx h name (valueArrayText exposed element length))
    (hname : '<' ∉ b.entity.qualifiedName) :
    b.entity.category = .typedef ∨ b.entity.category = .arrayInstance := by
  obtain ⟨hb, hrival⟩ := List.mem_filter.mp hb
  obtain ⟨r, hr, htext, _⟩ := registration?_of_mem hb
  obtain ⟨shape, hshape, rfl⟩ := Option.map_eq_some_iff.mp hr
  have harray : b.text = valueArrayText exposed element length := by
    simpa using (And.left (by simpa using hrival))
  obtain ⟨element', length', rfl⟩ :=
    exists_array_of_text hname (htext.symm.trans harray)
  exact category_of_array_shape hshape

end Rivals

/-- The registrations of array types in the output for a header, when the
headers of the run are known.  An instance is registered by the first header
that declares it, once, and by no other; every rival adds one registration with
the same text.  Rivals are typedefs and instances of other names.  All other
bindings are those that the header has alone. -/
structure CountsArrays (ctx : Context) (headers : List Header) (h : Header) :
    Prop where
  render_eq : render (ctx.withHeaders headers) h = opening ctx h ++
    ((bindings (ctx.withHeaders headers) h).flatMap Binding.lines ++ closing)
  render_alone_eq : render ctx h = opening ctx h ++
    ((bindings ctx h).flatMap Binding.lines ++ closing)
  gap_eq : ∀ b ∈ bindings (ctx.withHeaders headers) h,
    b.gap = [] ∨ b.gap = ['\n']
  first_count : ∀ e ∈ h.arrays,
    Header.firstWithArray headers e.qualifiedName = some h →
      ∀ element length, boundArray? e = some (element, length) →
        let text := valueArrayText (ctx.exposedName e) element length
        ((bindings (ctx.withHeaders headers) h).map Binding.text).count text =
          1 + (rivals (ctx.withHeaders headers) h e.qualifiedName text).length
  other_count : ∀ e, e.category = .arrayInstance →
    Header.firstWithArray headers e.qualifiedName ≠ some h →
      ∀ element length, boundArray? e = some (element, length) →
        let text := valueArrayText (ctx.exposedName e) element length
        ((bindings (ctx.withHeaders headers) h).map Binding.text).count text =
          (rivals (ctx.withHeaders headers) h e.qualifiedName text).length
  typedef_rival : ∀ e ∈ h.entities, e.category = .typedef →
    ∀ element length, boundArray? e = some (element, length) →
      ∀ name, ∃ b ∈ rivals (ctx.withHeaders headers) h name
        (valueArrayText (ctx.exposedName e) element length), b.entity = e
  rival_category : ∀ name exposed element length,
    ∀ b ∈ rivals (ctx.withHeaders headers) h name
      (valueArrayText exposed element length),
      '<' ∉ b.entity.qualifiedName →
        b.entity.category = .typedef ∨ b.entity.category = .arrayInstance
  others_eq : (bindings (ctx.withHeaders headers) h).filter
      (·.entity.category ≠ .arrayInstance) =
    (bindings ctx h).filter (·.entity.category ≠ .arrayInstance)

/-- In a run over headers at different paths, how often the registration of an
array instance stands in the output for each header. -/
theorem array_registration_count {headers : List Header}
    (hpaths : headers.Pairwise fun g h => g.path.same h.path = false)
    (hnames : ∀ h ∈ headers, h.arrayNames.Nodup) (dialect : Dialect)
    (usage : PointerUsage) (generatorName : Text) :
    let ctx : Context := { dialect, pointerUsage := usage, generatorName }
    ∀ h ∈ headers, CountsArrays ctx headers h := by
  intro ctx h hh
  have hctx : ctx.arrayOwners = [] := rfl
  constructor
  · rw [render_eq_bindings, opening_withHeaders]
  · exact render_eq_bindings ctx h
  · intro b hb
    obtain ⟨_, _, _, hgap⟩ := registration?_of_mem hb
    exact hgap
  · intro e he hfirst element length harray text
    have hbound := filter_name_of_first hctx hpaths hh (hnames h hh) he hfirst
    rw [count_eq_add_rivals _ _ e.qualifiedName]
    have hone : (bindings (ctx.withHeaders headers) h).filter
        (Binding.isInstance e.qualifiedName) =
          [⟨e, ['\n'], text⟩] := by
      rw [arrayBinding?, harray] at hbound
      exact hbound
    rw [hone]
    simp
  · intro e he hfirst element length harray text
    rw [count_eq_add_rivals _ _ e.qualifiedName]
    have hnone : (bindings (ctx.withHeaders headers) h).filter
        (Binding.isInstance e.qualifiedName) = [] := by
      rw [List.filter_eq_nil_iff]
      intro b hb hinstance
      obtain ⟨hcategory, hname⟩ : b.entity.category = .arrayInstance ∧
          b.entity.qualifiedName = e.qualifiedName := by
        simpa [Binding.isInstance] using hinstance
      apply hfirst
      rw [← hname]
      exact firstWithArray_of_bound hctx hpaths hh hb hcategory
    rw [hnone]
    simp
  · intro e he hcategory element length harray name
    exact exists_typedef_rival (ctx.withHeaders headers) name he hcategory
      harray
  · intro name exposed element length b hb hname
    exact category_of_mem_rivals hb hname
  · exact other_bindings_withHeaders hctx

/-- Two headers share an array instance.  The second has one of its own, and a
typedef that is registered with the same text. -/
theorem array_registration_count_shared :
    let array (type name : Text) (category : Category) : Entity :=
      { category, type := some type, name }
    let shared := array "float[3]" "float_array_3" .arrayInstance
    let own := array "int[2]" "int_array_2" .arrayInstance
    let copy := array "int[2]" "ODE_int_array_2" .typedef
    let g : Header := { path := "ode/a.h", entities := [shared] }
    let h : Header := { path := "ode//b.h", entities := [shared, copy, own] }
    let count (header : Header) (text : Text) : Nat :=
      ((bindings (Context.withHeaders {} [g, h]) header).map
        Binding.text).count text
    [g, h].Pairwise (fun x y => x.path.same y.path = false) ∧
    (∀ x ∈ [g, h], x.arrayNames.Nodup) ∧
    count g (valueArrayText "float_array_3" "float" 3) = 1 ∧
    count h (valueArrayText "float_array_3" "float" 3) = 0 ∧
    count h (valueArrayText "int_array_2" "int" 2) = 2 := by
  intro array shared own copy g h count
  have hpaths : [g, h].Pairwise
      (fun x y => x.path.same y.path = false) := by decide +kernel
  have hnames : ∀ x ∈ [g, h], x.arrayNames.Nodup := by decide +kernel
  have hcounts := array_registration_count hpaths hnames {} {} "odegen"
  have hg := hcounts g (by simp)
  have hh := hcounts h (by simp)
  refine ⟨hpaths, hnames, ?_, ?_, ?_⟩
  · refine (hg.first_count shared (by decide +kernel) (by decide +kernel)
      "float" 3 (by decide +kernel)).trans ?_
    decide +kernel
  · refine (hh.other_count shared rfl (by decide +kernel) "float" 3
      (by decide +kernel)).trans ?_
    decide +kernel
  · refine (hh.first_count own (by decide +kernel) (by decide +kernel)
      "int" 2 (by decide +kernel)).trans ?_
    decide +kernel

/-- A typedef spells out the array type that a field uses.  The first header
registers it twice, and so does every other header that has the typedef. -/
theorem array_type_registered_again :
    let g : Header :=
      { path := "a/mesh.h"
        entities := Header.parse {} (Text.concat
          ["typedef float float_array_3[3];\n",
            "typedef struct \x7b float m[3]; \x7d ODE_S;"]) }
    let h : Header :=
      { path := "b/list.h"
        entities := Header.parse {} "typedef float float_array_3[3];" }
    let ctx : Context := Context.withHeaders {} [g, h]
    let text := valueArrayText "float_array_3" "float" 3
    g.path.same h.path = false ∧
      g.arrayNames = [("float_array_3" : Text)] ∧ h.arrayNames = [] ∧
      text ++ '\n' :: text <:+: render ctx g ∧ text <:+: render ctx h := by
  decide +kernel

end Embind

end Bindery
