import Bindery.Binding.Embind
import Bindery.Binding.Napi
import Bindery.Binding.TypeScript
import Mathlib

/-!
# What generated files consist of

A file is generated for all entities of a header.  In each of the three kinds
of files the text of an entity stands by itself: the file is a frame, and in
the frame stand the texts of the entities, in order, with nothing but blank
lines between them.  So what is shown about the text of one entity holds of
that text in the file.
-/

namespace Bindery

/-- The pieces make up the text, in order, each with at most one line feed in
front. -/
def Text.Stacked : (pieces : List Text) → Text → Prop
  | [], t => t = []
  | piece :: pieces, t =>
    ∃ gap rest : Text, (gap = [] ∨ gap = ['\n']) ∧
      t = gap ++ (piece ++ rest) ∧ Text.Stacked pieces rest

namespace Text.Stacked

theorem cons {piece t : Text} {pieces : List Text} (h : Stacked pieces t)
    (c : Prop) [Decidable c] :
    Stacked (piece :: pieces) ((if c then [] else ['\n']) ++ (piece ++ t)) := by
  refine ⟨_, t, ?_, rfl, h⟩
  by_cases hc : c
  · exact .inl (if_pos hc)
  · exact .inr (if_neg hc)

theorem infix_of_mem {piece t : Text} {pieces : List Text}
    (h : Stacked pieces t) (hpiece : piece ∈ pieces) : piece <:+: t := by
  induction pieces generalizing t with
  | nil => contradiction
  | cons first pieces ih =>
      obtain ⟨gap, rest, _, rfl, hrest⟩ := h
      rcases List.mem_cons.mp hpiece with rfl | hpiece
      · exact ⟨gap, rest, by simp⟩
      · have htail : rest <:+ gap ++ (first ++ rest) :=
          (List.suffix_append first rest).trans (List.suffix_append gap _)
        exact (ih hrest hpiece).trans htail.isInfix

theorem eq_nil_iff {t : Text} {pieces : List Text} (h : Stacked pieces t)
    (hpieces : ∀ piece ∈ pieces, piece ≠ []) : t = [] ↔ pieces = [] := by
  cases pieces with
  | nil => exact iff_of_true h rfl
  | cons piece pieces =>
      obtain ⟨gap, rest, _, rfl, _⟩ := h
      simp [hpieces piece List.mem_cons_self]

end Text.Stacked

/-! ## Declarations -/

namespace TypeScript

/-- The declaration file in front of the declarations. -/
def opening : Text :=
  Text.concat ["\nimport \x7b EngineSymbol, Enum, EnumValue \x7d from ",
    "\"./internal.js\";\nimport * as ode from \"./exports.js\";\n"]

/-- The texts of the declarations for entities. -/
def declared (ctx : Context) (entities : List Entity) : List Text :=
  (entities.filterMap (declaration? ctx)).map Declaration.text

theorem stacked_declarationLines (ctx : Context) (previous : Option Category)
    (entities : List Entity) :
    Text.Stacked (declared ctx entities)
      (declarationLines ctx previous entities) := by
  induction entities generalizing previous with
  | nil => rfl
  | cons e es ih =>
      rw [declared, List.filterMap_cons, declarationLines]
      cases declaration? ctx e with
      | none => exact ih (some e.category)
      | some x =>
          simp only [Option.elim_some, List.append_assoc]
          exact (ih (some e.category)).cons _

/-- A declaration file consists of declarations behind a fixed opening. -/
theorem render_stacked (ctx : Context) (entities : List Entity) :
    ∃ body, render ctx entities = opening ++ body ∧
      Text.Stacked (declared ctx entities) body := by
  refine ⟨declarationLines ctx none entities, ?_,
    stacked_declarationLines ctx none entities⟩
  simp only [render, opening, Text.concat, List.flatten_cons,
    List.flatten_nil, List.append_nil, List.append_assoc]

theorem text_infix_render {ctx : Context} {entities : List Entity}
    {e : Entity} (he : e ∈ entities) {x : Declaration}
    (hx : declaration? ctx e = some x) : x.text <:+: render ctx entities := by
  obtain ⟨body, hrender, hstacked⟩ := render_stacked ctx entities
  have hmem : x.text ∈ declared ctx entities :=
    List.mem_map_of_mem (List.mem_filterMap.mpr ⟨e, he, hx⟩)
  rw [hrender]
  exact (hstacked.infix_of_mem hmem).trans (List.suffix_append ..).isInfix

theorem text_ne_nil (x : Declaration) : x.text ≠ [] := by
  obtain ⟨name, doc, shape⟩ := x
  cases shape <;> simp [Declaration.text, classText, Text.concat]

/-- A declaration is written for an entity exactly if there is one. -/
theorem render_singleton_ne_iff (ctx : Context) (e : Entity) :
    render ctx [e] ≠ render ctx [] ↔ (declaration? ctx e).isSome := by
  obtain ⟨body, hrender, hstacked⟩ := render_stacked ctx [e]
  obtain ⟨empty, hempty, hnone⟩ := render_stacked ctx []
  have hbody := hstacked.eq_nil_iff fun text htext => by
    obtain ⟨x, _, rfl⟩ := List.mem_map.mp htext
    exact text_ne_nil x
  have hnil : empty = [] := hnone
  rw [hrender, hempty, hnil, ne_eq, List.append_right_inj, hbody]
  cases h : declaration? ctx e with
  | none => simp [declared, h]
  | some x => simp [declared, h]

end TypeScript

/-! ## Bindings for Emscripten -/

namespace Embind

/-- The texts of the registrations of a header. -/
def registered (ctx : Context) (h : Header) : List Text :=
  (registrations ctx h).map fun r => r.2.text

/-- The source file in front of the registrations. -/
def opening (ctx : Context) (h : Header) : Text :=
  Text.concat ["\n#ifdef __EMSCRIPTEN__\n#ifndef NAPI_BINDINGS\n\n",
    "#include <array>\n#include <emscripten/bind.h>\n",
    if h.utilsBeside then "#include \"utils.h\"\n"
      else "#include <ode/utils.h>\n",
    "#include \"", h.fileName, "\"\n\nusing namespace emscripten;\n\n",
    (registrations ctx h).flatMap fun r => r.2.helpers ctx.dialect,
    "EMSCRIPTEN_BINDINGS(ode) \x7b\n"]

/-- The source file behind the registrations. -/
def closing : Text :=
  Text.concat ["\n\x7d\n\n",
    "#endif // NAPI_BINDINGS\n#endif // __EMSCRIPTEN__\n"]

theorem render_eq (ctx : Context) (h : Header) :
    render ctx h = opening ctx h ++
      (registrationLines none (registrations ctx h) ++ closing) := by
  simp only [render, opening, closing, Text.concat, List.flatten_cons,
    List.flatten_nil, List.append_assoc, List.append_nil]

theorem stacked_registrationLines (run : Option Category)
    (rs : List (Category × Registration)) :
    Text.Stacked (rs.map fun r => r.2.text) (registrationLines run rs) := by
  induction rs generalizing run with
  | nil => rfl
  | cons r rs ih =>
      rw [List.map_cons, registrationLines, List.append_assoc]
      exact (ih _).cons _

/-- The source file of a header consists of registrations in a frame. -/
theorem render_stacked (ctx : Context) (h : Header) :
    ∃ body, render ctx h = opening ctx h ++ (body ++ closing) ∧
      Text.Stacked (registered ctx h) body :=
  ⟨_, render_eq ctx h, stacked_registrationLines none (registrations ctx h)⟩

end Embind

/-! ## Glue for Node-API -/

namespace Napi

theorem mem_of_mem_distinctFrom {seen : List Text} {entities : List Entity}
    {e : Entity} (h : e ∈ distinctFrom seen entities) : e ∈ entities := by
  induction entities generalizing seen with
  | nil => contradiction
  | cons x entities ih =>
      unfold distinctFrom at h
      split at h
      · exact List.mem_cons_of_mem _ (ih h)
      · rcases List.mem_cons.mp h with rfl | h
        · exact List.mem_cons_self
        · exact List.mem_cons_of_mem _ (ih h)

theorem definitions_foldl (ctx : Context) (glue : Glue)
    (entities : List Entity) :
    (entities.foldl (fun glue e => glue.append
        (Glue.append { exports := ['\n'] } (entityGlue ctx e)))
      glue).definitions =
      glue.definitions ++ entities.flatMap
        fun e => (entityGlue ctx e).definitions := by
  induction entities generalizing glue with
  | nil => simp
  | cons e es ih =>
      rw [List.foldl_cons, ih]
      simp [Glue.append]

/-- The source file ends with the definitions of the entities. -/
theorem source_of_render {ctx : Context} {h : Header} {m : Module}
    (hm : render ctx h = .ok m) :
    (distinctFrom [] h.entities).flatMap
      (fun e => (entityGlue ctx e).definitions) <:+ m.source := by
  unfold render at hm
  cases hcheck : ((distinctFrom [] h.entities).filter
      (·.category = .function)).forM (checkFunction ctx.dialect) with
  | error error =>
      simp only [hcheck] at hm
      contradiction
  | ok _ =>
      simp only [hcheck] at hm
      rw [← Except.ok.inj hm]
      simp only [assemble, definitions_foldl, Text.concat, List.flatten_cons,
        List.flatten_nil, List.append_nil, List.nil_append,
        ← List.append_assoc]
      exact List.suffix_append _ _

theorem definitions_infix_source {ctx : Context} {h : Header} {m : Module}
    (hm : render ctx h = .ok m) {e : Entity}
    (he : e ∈ distinctFrom [] h.entities) :
    (entityGlue ctx e).definitions <:+: m.source := by
  have hpart : (entityGlue ctx e).definitions <:+:
      (distinctFrom [] h.entities).flatMap
        fun e => (entityGlue ctx e).definitions :=
    List.infix_of_mem_flatten (List.mem_map_of_mem he)
  exact hpart.trans (source_of_render hm).isInfix

end Napi

end Bindery
