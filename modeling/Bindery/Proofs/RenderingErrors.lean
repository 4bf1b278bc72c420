import Bindery.Proofs.ArtifactPaths
import Bindery.Proofs.RenderedFiles

/-!
# What rendering can fail with

Functions are checked before anything is rendered, so whether a function is
refused, and which one, does not depend on the targets of the run.  A target
that checks functions again sees some of those that were checked before, which
is why it accepts them.

Once the functions are accepted every target renders, to paths that depend on
the headers alone.  All that can still go wrong is that two of these paths are
the same.
-/

namespace Bindery

/-! ## Checks that are made one after another -/

section Checks

variable {ε α : Type} {check : α → Except ε Unit} {xs : List α}

theorem forM_eq_ok_iff :
    xs.forM check = .ok () ↔ ∀ x ∈ xs, check x = .ok () := by
  induction xs with
  | nil => simp [pure, Except.pure]
  | cons x xs ih =>
      change (check x >>= fun _ => xs.forM check) = .ok () ↔ _
      rw [List.forall_mem_cons, ← ih]
      cases check x with
      | error err => simp [bind, Except.bind]
      | ok => simp [bind, Except.bind]

/-- A check refuses `x` with `err` and accepts what stands before it. -/
def FirstRefused (check : α → Except ε Unit) (xs : List α) (x : α) (err : ε) :
    Prop :=
  ∃ before after, xs = before ++ x :: after ∧
    (∀ y ∈ before, check y = .ok ()) ∧ check x = .error err

theorem firstRefused_cons_of_error {x : α} {err : ε}
    (h : check x = .error err) (y : α) (err' : ε) :
    FirstRefused check (x :: xs) y err' ↔ y = x ∧ err' = err := by
  constructor
  · rintro ⟨before, after, hsplit, hbefore, hy⟩
    rcases List.cons_eq_append_iff.mp hsplit with
      ⟨-, hcons⟩ | ⟨before', rfl, -⟩
    · obtain ⟨rfl, -⟩ := List.cons.inj hcons
      rw [h] at hy
      exact ⟨rfl, (Except.error.inj hy).symm⟩
    · have hx := hbefore x List.mem_cons_self
      rw [h] at hx
      contradiction
  · rintro ⟨rfl, rfl⟩
    exact ⟨[], xs, rfl, by simp, h⟩

theorem firstRefused_cons_of_ok {x : α} (h : check x = .ok ()) (y : α)
    (err : ε) :
    FirstRefused check (x :: xs) y err ↔ FirstRefused check xs y err := by
  constructor
  · rintro ⟨before, after, hsplit, hbefore, hy⟩
    rcases List.cons_eq_append_iff.mp hsplit with
      ⟨-, hcons⟩ | ⟨before', rfl, hsplit'⟩
    · obtain ⟨rfl, -⟩ := List.cons.inj hcons
      rw [h] at hy
      contradiction
    · exact ⟨before', after, hsplit',
        fun z hz => hbefore z (List.mem_cons_of_mem _ hz), hy⟩
  · rintro ⟨before, after, rfl, hbefore, hy⟩
    exact ⟨x :: before, after, rfl, List.forall_mem_cons.mpr ⟨h, hbefore⟩, hy⟩

theorem forM_eq_error_iff {err : ε} :
    xs.forM check = .error err ↔ ∃ x, FirstRefused check xs x err := by
  induction xs with
  | nil => simp [FirstRefused, pure, Except.pure]
  | cons x xs ih =>
      change (check x >>= fun _ => xs.forM check) = .error err ↔ _
      cases hx : check x with
      | error err' =>
          simp only [firstRefused_cons_of_error hx, bind, Except.bind,
            exists_eq_left, Except.error.injEq]
          exact eq_comm
      | ok =>
          simp only [firstRefused_cons_of_ok hx]
          exact ih

end Checks

/-! ## Functions -/

/-- The functions of all headers, in the order of headers and entities. -/
def functionsOf (headers : List Header) : List Entity :=
  headers.flatMap fun h => h.entities.filter (·.category = .function)

theorem forM_flatMap {ε α β : Type} (check : β → Except ε Unit)
    (parts : α → List β) (xs : List α) :
    (xs.flatMap parts).forM check =
      xs.forM fun x => (parts x).forM check := by
  induction xs with
  | nil => rfl
  | cons x xs ih =>
      have hstep : (x :: xs).forM (fun x => (parts x).forM check) =
          (parts x).forM check >>= fun _ =>
            xs.forM fun x => (parts x).forM check := rfl
      rw [List.flatMap_cons, hstep, ← ih]
      exact List.forM_append

theorem checkFunctions_eq (d : Dialect) (headers : List Header) :
    checkFunctions d headers = (functionsOf headers).forM (checkFunction d) :=
  (forM_flatMap _ _ _).symm

/-- A function is refused under its own name. -/
theorem exists_of_checkFunction_error {d : Dialect} {function : Entity}
    {err : Error} (h : checkFunction d function = .error err) :
    ∃ fault, err = .binding function.name fault := by
  unfold checkFunction at h
  split at h
  · contradiction
  · split at h
    · exact ⟨_, (Except.error.inj h).symm⟩
    · split at h
      · exact ⟨_, (Except.error.inj h).symm⟩
      · contradiction

/-! ## Targets -/

theorem Napi.exists_render_ok {ctx : Context} {h : Header}
    (haccepted : ∀ e ∈ h.entities, e.category = .function →
      checkFunction ctx.dialect e = .ok ()) :
    ∃ glue, Napi.render ctx h = .ok glue := by
  have hcheck : ((distinctFrom [] h.entities).filter
      (·.category = .function)).forM (checkFunction ctx.dialect) = .ok () := by
    rw [forM_eq_ok_iff]
    intro e he
    obtain ⟨hmem, hcategory⟩ := List.mem_filter.mp he
    exact haccepted e (mem_of_mem_distinctFrom hmem) (by simpa using hcategory)
  unfold Napi.render
  simp only [hcheck]
  exact ⟨_, rfl⟩

theorem exists_mapM_ok {ε α β γ : Type} {f : α → Except ε β} {view : β → γ}
    {view' : α → γ} {xs : List α}
    (h : ∀ x ∈ xs, ∃ y, f x = .ok y ∧ view y = view' x) :
    ∃ ys, xs.mapM f = .ok ys ∧ ys.map view = xs.map view' := by
  induction xs with
  | nil => exact ⟨[], rfl, rfl⟩
  | cons x xs ih =>
      obtain ⟨⟨y, hy, hview⟩, hxs⟩ := List.forall_mem_cons.mp h
      obtain ⟨ys, hys, hviews⟩ := ih hxs
      refine ⟨y :: ys, ?_, ?_⟩
      · rw [List.mapM_cons, hy, hys]
        rfl
      · rw [List.map_cons, List.map_cons, hview, hviews]

namespace Target

/-- Where the files of one header go. -/
def headerPaths (h : Header) : Target → List Path
  | embind dir => [embindPath dir h]
  | napi dir =>
    [inDir dir ["gen-", h.stem, ".cpp"], inDir dir ["gen-", h.stem, ".h"]]
  | typeScript dir => [inDir dir [h.stem, ".d.ts"]]

/-- Where the files of all headers together go. -/
def indexPaths : Target → List Path
  | embind _ => []
  | napi dir => [inDir dir ["gen.h"]]
  | typeScript dir => [inDir dir ["ode.d.ts"]]

/-- Where the files of a target go, in the order of rendering. -/
def paths (headers : List Header) (target : Target) : List Path :=
  headers.flatMap target.headerPaths ++ target.indexPaths

theorem exists_renderHeader_ok {ctx : Context} {h : Header}
    (haccepted : ∀ e ∈ h.entities, e.category = .function →
      checkFunction ctx.dialect e = .ok ()) (target : Target) :
    ∃ artifacts, target.renderHeader ctx h = .ok artifacts ∧
      artifacts.map Artifact.path = target.headerPaths h := by
  cases target with
  | embind dir => exact ⟨_, rfl, rfl⟩
  | napi dir =>
      obtain ⟨glue, hglue⟩ := Napi.exists_render_ok haccepted
      rw [renderHeader, hglue]
      exact ⟨_, rfl, rfl⟩
  | typeScript dir => exact ⟨_, rfl, rfl⟩

theorem map_path_renderIndex (ctx : Context) (headers : List Header)
    (target : Target) :
    (target.renderIndex ctx headers).map Artifact.path =
      target.indexPaths := by
  cases target with
  | embind dir => rfl
  | napi dir => rfl
  | typeScript dir => rfl

end Target

section Accepted

variable {ctx : Context} {headers : List Header}

theorem accepted_of_checkFunctions
    (haccepted : checkFunctions ctx.dialect headers = .ok ()) :
    ∀ h ∈ headers, ∀ e ∈ h.entities, e.category = .function →
      checkFunction ctx.dialect e = .ok () := by
  rw [checkFunctions_eq, forM_eq_ok_iff] at haccepted
  intro h hh e he hcategory
  apply haccepted
  exact List.mem_flatMap.mpr ⟨h, hh, List.mem_filter.mpr ⟨he, by simpa⟩⟩

/-- No target fails on functions that were accepted. -/
theorem Target.exists_render_ok
    (haccepted : checkFunctions ctx.dialect headers = .ok ())
    (target : Target) :
    ∃ artifacts, target.render ctx headers = .ok artifacts ∧
      artifacts.map Artifact.path = target.paths headers := by
  obtain ⟨perHeader, hmap, hpaths⟩ := exists_mapM_ok fun h hh =>
    exists_renderHeader_ok (accepted_of_checkFunctions haccepted h hh) target
  refine ⟨perHeader.flatten ++ target.renderIndex ctx headers, ?_, ?_⟩
  · rw [render, hmap]
    rfl
  · rw [List.map_append, List.map_flatten, hpaths, map_path_renderIndex]
    rfl

/-- Where the files of a run go, in the order of rendering. -/
def OutputDirs.paths (dirs : OutputDirs) (headers : List Header) : List Path :=
  dirs.targets.flatMap (Target.paths headers)

theorem exists_targets_ok
    (haccepted : checkFunctions ctx.dialect headers = .ok ())
    (dirs : OutputDirs) :
    ∃ artifacts, dirs.targets.mapM (Target.render ctx headers) = .ok artifacts ∧
      artifacts.flatten.map Artifact.path = dirs.paths headers := by
  have hrenders : ∀ target ∈ dirs.targets, ∃ artifacts,
      target.render ctx headers = .ok artifacts ∧
        artifacts.map Artifact.path = target.paths headers :=
    fun target _ => target.exists_render_ok haccepted
  obtain ⟨artifacts, hmap, hpaths⟩ := exists_mapM_ok hrenders
  refine ⟨artifacts, hmap, ?_⟩
  rw [List.map_flatten, hpaths]
  rfl

theorem renderAll_of_shared
    (haccepted : checkFunctions ctx.dialect headers = .ok ())
    {dirs : OutputDirs} {path : Path}
    (hshared : sharedPath? [] (dirs.paths headers) = some path) :
    renderAll ctx dirs headers = .error (.config (.sharedTarget path)) := by
  obtain ⟨artifacts, hmap, hpaths⟩ := exists_targets_ok haccepted dirs
  rw [← hpaths] at hshared
  unfold renderAll
  simp only [haccepted, hmap, bind, Except.bind, hshared]
  rfl

theorem renderAll_of_distinct
    (haccepted : checkFunctions ctx.dialect headers = .ok ())
    {dirs : OutputDirs}
    (hdistinct : sharedPath? [] (dirs.paths headers) = none) :
    ∃ artifacts, renderAll ctx dirs headers = .ok artifacts ∧
      artifacts.map Artifact.path = dirs.paths headers := by
  obtain ⟨artifacts, hmap, hpaths⟩ := exists_targets_ok haccepted dirs
  refine ⟨artifacts.flatten, ?_, hpaths⟩
  rw [← hpaths] at hdistinct
  unfold renderAll
  simp only [haccepted, hmap, bind, Except.bind, hdistinct]
  rfl

end Accepted

/-! ## Errors of a run -/

theorem renderAll_of_refused {ctx : Context} {headers : List Header}
    {err : Error} (h : checkFunctions ctx.dialect headers = .error err)
    (dirs : OutputDirs) : renderAll ctx dirs headers = .error err := by
  unfold renderAll
  rw [h]
  rfl

/-- A run fails with the error of the first function that is refused, or
because two of its files have the same path. -/
theorem renderAll_eq_error_iff {ctx : Context} {dirs : OutputDirs}
    {headers : List Header} {err : Error} :
    renderAll ctx dirs headers = .error err ↔
      (∃ function, FirstRefused (checkFunction ctx.dialect)
        (functionsOf headers) function err) ∨
      checkFunctions ctx.dialect headers = .ok () ∧
        ∃ path, sharedPath? [] (dirs.paths headers) = some path ∧
          err = .config (.sharedTarget path) := by
  rw [← forM_eq_error_iff, ← checkFunctions_eq]
  cases hcheck : checkFunctions ctx.dialect headers with
  | error err' =>
      rw [renderAll_of_refused hcheck dirs]
      simp
  | ok =>
      cases hshared : sharedPath? [] (dirs.paths headers) with
      | some path =>
          rw [renderAll_of_shared hcheck hshared]
          simp [eq_comm]
      | none =>
          obtain ⟨artifacts, hrender, -⟩ := renderAll_of_distinct hcheck hshared
          rw [hrender]
          simp

theorem renderAll_eq_binding_iff {ctx : Context} {dirs : OutputDirs}
    {headers : List Header} {name : Text} {fault : BindingFault} :
    renderAll ctx dirs headers = .error (.binding name fault) ↔
      ∃ function, function.name = name ∧
        FirstRefused (checkFunction ctx.dialect) (functionsOf headers)
          function (.binding name fault) := by
  rw [renderAll_eq_error_iff]
  constructor
  · rintro (⟨function, hrefused⟩ | ⟨-, path, -, herr⟩)
    · obtain ⟨before, after, -, -, herr⟩ := id hrefused
      obtain ⟨fault', heq⟩ := exists_of_checkFunction_error herr
      exact ⟨function, (Error.binding.inj heq).1.symm, hrefused⟩
    · contradiction
  · rintro ⟨function, -, hrefused⟩
    exact .inl ⟨function, hrefused⟩

/-- Which function is refused, and why, is the same for all choices of
targets: it is the first one, in the order of headers and entities, that the
check refuses.  Where the check accepts all functions, every target renders,
and a run can only fail because two files would have the same path. -/
theorem binding_errors_independent_of_targets (ctx : Context)
    (headers : List Header) :
    (∀ (dirs dirs' : OutputDirs) (name : Text) (fault : BindingFault),
      renderAll ctx dirs headers = .error (.binding name fault) ↔
        renderAll ctx dirs' headers = .error (.binding name fault)) ∧
    (∀ (dirs : OutputDirs) (name : Text) (fault : BindingFault),
      renderAll ctx dirs headers = .error (.binding name fault) ↔
        ∃ function, function.name = name ∧
          FirstRefused (checkFunction ctx.dialect) (functionsOf headers)
            function (.binding name fault)) ∧
    (checkFunctions ctx.dialect headers = .ok () →
      (∀ target : Target, ∃ artifacts,
        target.render ctx headers = .ok artifacts) ∧
      ∀ (dirs : OutputDirs) (err : Error),
        renderAll ctx dirs headers = .error err →
          ∃ path, err = .config (.sharedTarget path)) := by
  refine ⟨?_, fun dirs name fault => renderAll_eq_binding_iff, ?_⟩
  · intro dirs dirs' name fault
    rw [renderAll_eq_binding_iff, renderAll_eq_binding_iff]
  · intro haccepted
    constructor
    · intro target
      obtain ⟨artifacts, hrender, -⟩ := target.exists_render_ok haccepted
      exact ⟨artifacts, hrender⟩
    · intro dirs err herr
      rcases renderAll_eq_error_iff.mp herr with
        hrefused | ⟨-, path, -, hpath⟩
      · rw [← forM_eq_error_iff, ← checkFunctions_eq, haccepted] at hrefused
        contradiction
      · exact ⟨path, hpath⟩

/-- The second of two headers has a function that returns a number of its own
besides the handle that is to be returned. -/
theorem binding_errors_independent_of_targets_two :
    let handle : Member :=
      { category := .argument, type := some "ODE_OUT_RETURN ODE_Handle *"
        name := "handle" }
    let create : Entity :=
      { category := .function, type := some "ODE_Result", name := "ode_create"
        members := [handle] }
    let find : Entity := { create with type := some "int", name := "ode_find" }
    let mesh : Header := { path := "a/mesh.h", entities := [create] }
    let scene : Header := { path := "b/scene.h", entities := [create, find] }
    let err : Error :=
      .binding "ode_find" (.returnsOther "handle" "int" "ODE_Result")
    renderAll {} {} [mesh, scene] = .error err ∧
    renderAll {} { napi := some "n" } [mesh, scene] = .error err ∧
    checkFunctions {} [mesh, mesh] = .ok () ∧
    ∃ artifacts, (Target.napi "n").render {} [mesh, mesh] = .ok artifacts := by
  intro handle create find mesh scene err
  have herr : renderAll {} {} [mesh, scene] = .error err := by cbv
  have haccepted : checkFunctions {} [mesh, mesh] = .ok () := by cbv
  obtain ⟨hsame, -, -⟩ :=
    binding_errors_independent_of_targets {} [mesh, scene]
  obtain ⟨-, -, hrenders⟩ :=
    binding_errors_independent_of_targets {} [mesh, mesh]
  exact ⟨herr, (hsame {} { napi := some "n" } _ _).mp herr, haccepted,
    (hrenders haccepted).1 (.napi "n")⟩

end Bindery
