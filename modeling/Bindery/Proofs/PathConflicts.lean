import Bindery.Proofs.RenderingErrors

/-!
# Files that would have the same path

A generated file has a directory and a name.  The names of the different kinds
of files never coincide, and each gives back the stem that it was made from;
only the index of the declarations is named like the declarations of a header
with the stem `ode`.  So it does not matter whether the directories of two
targets coincide.  For each target the paths that coincide can be told from
the stems of the headers or, where files lie beside their headers, from the
directories of the headers.
-/

namespace Bindery

/-! ## Names of generated files -/

/-- What a generated file is named after.  The index of the declarations
counts as the declarations of a header `ode`. -/
inductive OutputName where
  | besideHeader
  | embind (stem : Text)
  | napiSource (stem : Text)
  | napiHeader (stem : Text)
  | napiIndex
  | typeScript (stem : Text)

namespace OutputName

def text : OutputName → Text
  | besideHeader => "emscripten-bindings.cpp"
  | embind stem => Text.concat ["emscripten-bindings-", stem, ".cpp"]
  | napiSource stem => Text.concat ["gen-", stem, ".cpp"]
  | napiHeader stem => Text.concat ["gen-", stem, ".h"]
  | napiIndex => "gen.h"
  | typeScript stem => Text.concat [stem, ".d.ts"]

/-- The last character tells sources, headers and declarations apart. -/
def last : OutputName → Char
  | besideHeader | embind _ | napiSource _ => 'p'
  | napiHeader _ | napiIndex => 'h'
  | typeScript _ => 's'

theorem getLast?_affixed (lead stem : Text) {ending : Text} (h : ending ≠ []) :
    (Text.concat [lead, stem, ending]).getLast? = ending.getLast? := by
  have hsplit :
      Text.concat [lead, stem, ending] = (lead ++ stem) ++ ending := by
    simp [Text.concat]
  rw [hsplit, List.getLast?_append_of_ne_nil _ h]

theorem getLast?_text (name : OutputName) :
    name.text.getLast? = some name.last := by
  cases name with
  | besideHeader => rfl
  | embind stem => exact getLast?_affixed _ stem (by simp)
  | napiSource stem => exact getLast?_affixed _ stem (by simp)
  | napiHeader stem => exact getLast?_affixed _ stem (by simp)
  | napiIndex => rfl
  | typeScript stem => exact getLast?_affixed [] stem (by simp)

theorem text_injective {a b : OutputName} (h : a.text = b.text) : a = b := by
  have hlast : a.last = b.last := by
    rw [← Option.some.injEq, ← getLast?_text, ← getLast?_text, h]
  unfold text at h
  -- What ends alike begins differently or has the same affixes.
  cases a <;> cases b <;> simp [last] at hlast <;> simp_all [Text.concat]

theorem two_lt_length_text (name : OutputName) : 2 < name.text.length := by
  unfold text
  cases name with
  | besideHeader => decide
  | embind stem => simp [Text.concat]
  | napiSource stem => simp [Text.concat]
  | napiHeader stem => simp [Text.concat]
  | napiIndex => decide
  | typeScript stem => simp [Text.concat]

/-- The header that the name is made from has no slash in its name. -/
def IsPlain : OutputName → Prop
  | besideHeader | napiIndex => True
  | embind stem | napiSource stem | napiHeader stem | typeScript stem =>
    '/' ∉ stem

theorem IsPlain.isFileName {name : OutputName} (h : name.IsPlain) :
    Path.IsFileName name.text := by
  apply Path.isFileName_of_length _ name.two_lt_length_text
  unfold text
  cases name with
  | besideHeader => decide
  | embind stem => simpa [Text.concat, IsPlain] using h
  | napiSource stem => simpa [Text.concat, IsPlain] using h
  | napiHeader stem => simpa [Text.concat, IsPlain] using h
  | napiIndex => decide
  | typeScript stem => simpa [Text.concat, IsPlain] using h

/-- The target whose files have names of this kind. -/
def target : OutputName → Text
  | besideHeader | embind _ => "embind"
  | napiSource _ | napiHeader _ | napiIndex => "napi"
  | typeScript _ => "typescript"

end OutputName

/-! ## Where files go -/

/-- A directory and the name of a file in it. -/
structure Output where
  dir : Path
  name : OutputName

namespace Output

def path (o : Output) : Path := o.dir.join ⟨o.name.text⟩

/-- The files have the same name in directories that are the same. -/
def Clashes (o o' : Output) : Prop :=
  o.dir.components = o'.dir.components ∧ o.name = o'.name

theorem same_path_iff {o o' : Output} (h : o.name.IsPlain)
    (h' : o'.name.IsPlain) : o.path.same o'.path = true ↔ o.Clashes o' := by
  rw [path, path, Path.same_join_iff h.isFileName h'.isFileName]
  constructor
  · rintro ⟨hdir, hname⟩
    exact ⟨hdir, OutputName.text_injective hname⟩
  · rintro ⟨hdir, hname⟩
    exact ⟨hdir, hname ▸ rfl⟩

theorem pairwise_path_iff {outputs : List Output}
    (h : ∀ o ∈ outputs, o.name.IsPlain) :
    (outputs.map path).Pairwise (fun p q => p.same q = false) ↔
      outputs.Pairwise fun o o' => ¬ o.Clashes o' := by
  rw [List.pairwise_map]
  apply List.Pairwise.iff_of_mem
  intro o o' ho ho'
  rw [← same_path_iff (h o ho) (h o' ho'), Bool.not_eq_true]

end Output

/-- The directory that a header lies in. -/
def Header.directory (h : Header) : Path := h.path.parent?.getD ⟨[]⟩

namespace Target

/-- Where the files of a target go. -/
def outputs (headers : List Header) : Target → List Output
  | embind none => headers.map fun h => ⟨h.directory, .besideHeader⟩
  | embind (some dir) => headers.map fun h => ⟨dir, .embind h.stem⟩
  | napi dir =>
    (headers.flatMap fun h =>
      [⟨dir, .napiSource h.stem⟩, ⟨dir, .napiHeader h.stem⟩]) ++
      [⟨dir, .napiIndex⟩]
  | typeScript dir =>
    headers.map (fun h => ⟨dir, .typeScript h.stem⟩) ++
      [⟨dir, .typeScript "ode"⟩]

variable {headers : List Header}

theorem paths_eq_map_outputs
    (hnames : ∀ h ∈ headers, h.path.fileName?.isSome = true)
    (target : Target) :
    target.paths headers = (target.outputs headers).map Output.path := by
  cases target with
  | embind dir =>
      rw [paths, indexPaths, List.append_nil]
      cases dir with
      | none =>
          rw [outputs, List.map_map, List.map_eq_flatMap]
          apply List.flatMap_congr
          intro h hh
          obtain ⟨name, hname⟩ := Option.isSome_iff_exists.mp (hnames h hh)
          simp only [headerPaths, embindPath, Path.withFileName, hname]
          rfl
      | some dir =>
          rw [outputs, List.map_map, List.map_eq_flatMap]
          rfl
  | napi dir =>
      rw [outputs, List.map_append, List.map_flatMap]
      rfl
  | typeScript dir =>
      rw [outputs, List.map_append, List.map_map, List.map_eq_flatMap]
      rfl

theorem name_of_mem_outputs {target : Target} {o : Output}
    (ho : o ∈ target.outputs headers) :
    o.name.IsPlain ∧ o.name.target = target.name := by
  cases target with
  | embind dir =>
      cases dir with
      | none =>
          obtain ⟨h, -, rfl⟩ := List.mem_map.mp ho
          exact ⟨trivial, rfl⟩
      | some dir =>
          obtain ⟨h, -, rfl⟩ := List.mem_map.mp ho
          exact ⟨h.slash_notMem_stem, rfl⟩
  | napi dir =>
      rcases List.mem_append.mp ho with ho | ho
      · obtain ⟨h, -, ho⟩ := List.mem_flatMap.mp ho
        rcases List.mem_pair.mp ho with rfl | rfl
        · exact ⟨h.slash_notMem_stem, rfl⟩
        · exact ⟨h.slash_notMem_stem, rfl⟩
      · rw [List.mem_singleton.mp ho]
        exact ⟨trivial, rfl⟩
  | typeScript dir =>
      rcases List.mem_append.mp ho with ho | ho
      · obtain ⟨h, -, rfl⟩ := List.mem_map.mp ho
        exact ⟨h.slash_notMem_stem, rfl⟩
      · rw [List.mem_singleton.mp ho]
        exact ⟨by simp [OutputName.IsPlain], rfl⟩

/-- What keeps the files of one target apart. -/
def Separates (headers : List Header) : Target → Prop
  | embind none => headers.Pairwise fun h h' =>
    h.directory.components ≠ h'.directory.components
  | embind (some _) | napi _ => headers.Pairwise fun h h' => h.stem ≠ h'.stem
  | typeScript _ => (headers.Pairwise fun h h' => h.stem ≠ h'.stem) ∧
    ∀ h ∈ headers, h.stem ≠ "ode"

theorem pairwise_outputs_iff (target : Target) :
    (target.outputs headers).Pairwise (fun o o' => ¬ o.Clashes o') ↔
      target.Separates headers := by
  cases target with
  | embind dir =>
      cases dir with
      | none => simp [outputs, Separates, Output.Clashes, List.pairwise_map]
      | some dir => simp [outputs, Separates, Output.Clashes, List.pairwise_map]
  | napi dir =>
      rw [outputs, List.pairwise_append, and_iff_left]
      · simp [Separates, Output.Clashes, List.pairwise_flatMap]
      · refine ⟨List.pairwise_singleton _ _, fun o ho o' ho' hclash => ?_⟩
        rw [List.mem_singleton.mp ho'] at hclash
        obtain ⟨h, -, ho⟩ := List.mem_flatMap.mp ho
        rcases List.mem_pair.mp ho with rfl | rfl
        · exact OutputName.noConfusion hclash.2
        · exact OutputName.noConfusion hclash.2
  | typeScript dir =>
      simp [outputs, Separates, Output.Clashes, List.pairwise_append,
        List.pairwise_map]

end Target

/-! ## Where the files of a run go -/

theorem OutputDirs.pairwise_targets (dirs : OutputDirs) :
    dirs.targets.Pairwise fun target target' => target.name ≠ target'.name := by
  have hnapi (dir : Option Path) (dir' : Path) :
      (Target.embind dir).name ≠ (Target.napi dir').name := by
    change ("embind" : Text) ≠ "napi"
    decide
  have htypeScript (dir : Option Path) (dir' : Path) :
      (Target.embind dir).name ≠ (Target.typeScript dir').name := by
    change ("embind" : Text) ≠ "typescript"
    decide
  have hothers (dir dir' : Path) :
      (Target.napi dir).name ≠ (Target.typeScript dir').name := by
    change ("napi" : Text) ≠ "typescript"
    decide
  obtain ⟨embind, napi, typeScript⟩ := dirs
  cases napi with
  | none =>
      cases typeScript with
      | none => simp [targets]
      | some dir => simp [targets, htypeScript]
  | some dir =>
      cases typeScript with
      | none => simp [targets, hnapi]
      | some dir' => simp [targets, hnapi, htypeScript, hothers]

/-- Files of different targets have different names. -/
theorem OutputDirs.pairwise_paths_iff {headers : List Header}
    (hnames : ∀ h ∈ headers, h.path.fileName?.isSome = true)
    (dirs : OutputDirs) :
    (dirs.paths headers).Pairwise (fun p q => p.same q = false) ↔
      ∀ target ∈ dirs.targets, target.Separates headers := by
  have hplain : ∀ o ∈ dirs.targets.flatMap (Target.outputs headers),
      o.name.IsPlain := by
    intro o ho
    obtain ⟨target, -, ho⟩ := List.mem_flatMap.mp ho
    exact (Target.name_of_mem_outputs ho).1
  have hpaths : dirs.paths headers =
      (dirs.targets.flatMap (Target.outputs headers)).map Output.path := by
    rw [paths, List.map_flatMap]
    exact List.flatMap_congr fun target _ => target.paths_eq_map_outputs hnames
  rw [hpaths, Output.pairwise_path_iff hplain, List.pairwise_flatMap,
    and_iff_left]
  · exact forall₂_congr fun target _ => target.pairwise_outputs_iff
  · refine dirs.pairwise_targets.imp fun hne o ho o' ho' hclash => hne ?_
    rw [← (Target.name_of_mem_outputs ho).2, hclash.2,
      (Target.name_of_mem_outputs ho').2]

/-- Two headers of a run, or one that occurs twice, would have a file with the
same path, or one would take the place of the index of the declarations. -/
def OutputDirs.Conflicts (dirs : OutputDirs) (headers : List Header) : Prop :=
  (dirs.embind = none ∧ ∃ h h' : Header, [h, h'].Sublist headers ∧
    h.path.parent?.map Path.components = h'.path.parent?.map Path.components) ∨
  ((dirs.embind.isSome = true ∨ dirs.napi.isSome = true ∨
      dirs.typeScript.isSome = true) ∧
    ∃ h h' : Header, [h, h'].Sublist headers ∧ h.stem = h'.stem) ∨
  (dirs.typeScript.isSome = true ∧ ∃ h ∈ headers, h.stem = "ode")

theorem not_pairwise_iff {R : Header → Header → Prop} {headers : List Header} :
    ¬ headers.Pairwise (fun h h' => ¬ R h h') ↔
      ∃ h h', [h, h'].Sublist headers ∧ R h h' := by
  rw [List.pairwise_iff_forall_sublist]
  push Not
  rfl

theorem Header.parent_eq_iff {h h' : Header}
    (hname : h.path.fileName?.isSome = true)
    (hname' : h'.path.fileName?.isSome = true) :
    h.path.parent?.map Path.components = h'.path.parent?.map Path.components ↔
      h.directory.components = h'.directory.components := by
  obtain ⟨name, hname⟩ := Option.isSome_iff_exists.mp hname
  obtain ⟨name', hname'⟩ := Option.isSome_iff_exists.mp hname'
  obtain ⟨q, hq, -⟩ := Path.exists_parent_of_fileName hname
  obtain ⟨q', hq', -⟩ := Path.exists_parent_of_fileName hname'
  simp [directory, hq, hq']

theorem Header.exists_parent_eq_iff {headers : List Header}
    (hnames : ∀ h ∈ headers, h.path.fileName?.isSome = true) :
    (∃ h h' : Header, [h, h'].Sublist headers ∧
      h.path.parent?.map Path.components =
        h'.path.parent?.map Path.components) ↔
      ¬ headers.Pairwise fun h h' =>
        h.directory.components ≠ h'.directory.components := by
  rw [not_pairwise_iff]
  refine exists₂_congr fun h h' => and_congr_right fun hsub => ?_
  exact parent_eq_iff (hnames h (hsub.subset (by simp)))
    (hnames h' (hsub.subset (by simp)))

theorem OutputDirs.separates_iff {dirs : OutputDirs} {headers : List Header} :
    (∀ target ∈ dirs.targets, target.Separates headers) ↔
      (dirs.embind = none → headers.Pairwise fun h h' =>
        h.directory.components ≠ h'.directory.components) ∧
      (dirs.embind.isSome = true ∨ dirs.napi.isSome = true ∨
          dirs.typeScript.isSome = true →
        headers.Pairwise fun h h' => h.stem ≠ h'.stem) ∧
      (dirs.typeScript.isSome = true → ∀ h ∈ headers, h.stem ≠ "ode") := by
  obtain ⟨embind, napi, typeScript⟩ := dirs
  cases embind <;> cases napi <;> cases typeScript <;>
    simp [targets, Target.Separates]

theorem OutputDirs.conflicts_iff {headers : List Header}
    (hnames : ∀ h ∈ headers, h.path.fileName?.isSome = true)
    (dirs : OutputDirs) :
    dirs.Conflicts headers ↔
      ¬ ∀ target ∈ dirs.targets, target.Separates headers := by
  have hode : (∃ h ∈ headers, h.stem = "ode") ↔
      ¬ ∀ h ∈ headers, h.stem ≠ "ode" := by
    push Not
    rfl
  rw [Conflicts, Header.exists_parent_eq_iff hnames, ← not_pairwise_iff, hode,
    separates_iff, not_and_or, not_and_or, Classical.not_imp,
    Classical.not_imp, Classical.not_imp]

/-- A run whose functions are accepted fails with a shared path exactly if the
headers conflict, and otherwise renders files whose paths all differ. -/
theorem renderAll_shares_path_iff (ctx : Context) (dirs : OutputDirs)
    (headers : List Header)
    (hnames : ∀ h ∈ headers, h.path.fileName?.isSome = true)
    (haccepted : checkFunctions ctx.dialect headers = .ok ()) :
    ((∃ path, renderAll ctx dirs headers =
        .error (.config (.sharedTarget path))) ↔ dirs.Conflicts headers) ∧
    (¬ dirs.Conflicts headers →
      ∃ artifacts, renderAll ctx dirs headers = .ok artifacts ∧
        artifacts.Pairwise fun a b => a.path.same b.path = false) := by
  have hdistinct : sharedPath? [] (dirs.paths headers) = none ↔
      ¬ dirs.Conflicts headers := by
    rw [dirs.conflicts_iff hnames, not_not, ← dirs.pairwise_paths_iff hnames,
      sharedPath?_eq_none_iff]
    simp
  constructor
  · cases hshared : sharedPath? [] (dirs.paths headers) with
    | some path =>
        have hconflict : dirs.Conflicts headers := by
          by_contra hnone
          rw [← hdistinct, hshared] at hnone
          contradiction
        exact iff_of_true ⟨path, renderAll_of_shared haccepted hshared⟩
          hconflict
    | none =>
        obtain ⟨artifacts, hrender, -⟩ :=
          renderAll_of_distinct haccepted hshared
        refine iff_of_false ?_ (hdistinct.mp hshared)
        simp [hrender]
  · intro hnone
    obtain ⟨artifacts, hrender, -⟩ :=
      renderAll_of_distinct haccepted (hdistinct.mpr hnone)
    exact ⟨artifacts, hrender, (renderAll_paths hrender).2⟩

/-- Two headers lie in one directory, spelled in different ways.  That matters
for files beside the headers; in a directory for all targets the files find
their places, unless a third header is named like the index. -/
theorem renderAll_shares_path_spellings :
    let mesh : Header := { path := "a/mesh.h", entities := [] }
    let scene : Header := { path := "a//./scene.h", entities := [] }
    let ode : Header := { path := "../ode.h", entities := [] }
    let all : OutputDirs :=
      { embind := some "out", napi := some "out", typeScript := some "out/" }
    (∃ path, renderAll {} {} [mesh, scene] =
      .error (.config (.sharedTarget path))) ∧
    (∃ artifacts, renderAll {} all [mesh, scene] = .ok artifacts ∧
      artifacts.Pairwise fun a b => a.path.same b.path = false) ∧
    ∃ path, renderAll {} all [mesh, scene, ode] =
      .error (.config (.sharedTarget path)) := by
  intro mesh scene ode all
  refine ⟨?_, ?_, ?_⟩
  · refine (renderAll_shares_path_iff {} {} [mesh, scene] (by decide) rfl).1.mpr
      (.inl ⟨rfl, mesh, scene, List.Sublist.refl _, by decide⟩)
  · refine (renderAll_shares_path_iff {} all [mesh, scene] (by decide) rfl).2 ?_
    rintro (⟨hembind, -⟩ | ⟨-, h, h', hsub, hstem⟩ | ⟨-, h, hh, hstem⟩)
    · contradiction
    · obtain ⟨rfl, rfl⟩ : h = mesh ∧ h' = scene := by
        simpa using hsub.eq_of_length rfl
      exact absurd hstem (by decide)
    · rcases List.mem_pair.mp hh with rfl | rfl
      · exact absurd hstem (by decide)
      · exact absurd hstem (by decide)
  · refine (renderAll_shares_path_iff {} all [mesh, scene, ode] (by decide)
      rfl).1.mpr (.inr (.inr ⟨rfl, ode, by simp, by decide⟩))

end Bindery
