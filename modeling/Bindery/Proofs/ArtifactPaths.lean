import Bindery.Binding.Artifact
import Bindery.Proofs.Paths
import Bindery.Proofs.Reading

/-!
# The paths of artifacts

Every artifact lies in some directory under a name that is made up for it.  The
name contains no slash, as the names of headers contain none, so an artifact is
one step away from its directory.  None is named like the header with the
utilities.

The paths of a run are pairwise different as paths.  Where they start alike and
do not lead up they also lead to different places.
-/

namespace Bindery

/-! ## Names of headers -/

namespace Path

theorem mem_pieces_of_name {p : Path} {name : Text}
    (h : .name name ∈ p.components) : name ∈ p.pieces := by
  rw [components_eq, List.mem_append] at h
  rcases h with h | h
  · unfold lead at h
    split at h
    · simp at h
    · split at h <;> simp at h
  · obtain ⟨piece, hpiece, heq⟩ := List.mem_map.mp h
    unfold pieceComponent at heq
    split at heq
    · contradiction
    · obtain rfl := Component.name.inj heq
      exact (List.mem_filter.mp hpiece).1

theorem slash_notMem_of_mem_pieces {p : Path} {piece : Text}
    (h : piece ∈ p.pieces) : '/' ∉ piece := by
  have hsplit : piece ∈ p.raw.splitOnP (· == '/') := (List.mem_filter.mp h).1
  intro hslash
  simpa using Text.not_of_mem_splitOnP hsplit '/' hslash

theorem slash_notMem_splitExtension {name : Text} (h : '/' ∉ name) :
    '/' ∉ (splitExtension name).1 := by
  unfold splitExtension
  split
  · exact h
  · exact h
  · next hcut =>
    intro hslash
    apply h
    rw [Text.eq_of_cutLast? hcut]
    exact List.mem_append_left _ hslash

theorem slash_notMem_of_stem? {p : Path} {stem : Text}
    (h : p.stem? = some stem) : '/' ∉ stem := by
  obtain ⟨name, hname, rfl⟩ := Option.map_eq_some_iff.mp h
  apply slash_notMem_splitExtension
  unfold fileName? at hname
  split at hname
  · next hlast =>
    obtain rfl := Option.some.inj hname
    exact slash_notMem_of_mem_pieces
      (mem_pieces_of_name (List.mem_of_getLast? hlast))
  · contradiction

end Path

theorem Header.slash_notMem_stem (h : Header) : '/' ∉ h.stem := by
  unfold stem stemOf
  cases hstem : h.path.stem? with
  | none => simp
  | some stem => exact Path.slash_notMem_of_stem? hstem

/-! ## Names of artifacts -/

theorem exists_of_bind_ok {ε α β : Type} {x : Except ε α}
    {next : α → Except ε β} {b : β} (h : x >>= next = .ok b) :
    ∃ a, x = .ok a ∧ next a = .ok b := by
  cases x with
  | error => contradiction
  | ok a => exact ⟨a, rfl, h⟩

theorem exists_of_mem_mapM_ok {ε α β : Type} {f : α → Except ε β}
    {xs : List α} {ys : List β} (h : xs.mapM f = .ok ys) :
    ∀ y ∈ ys, ∃ x ∈ xs, f x = .ok y := by
  induction xs generalizing ys with
  | nil =>
      obtain rfl := Except.ok.inj h
      simp
  | cons x xs ih =>
      rw [List.mapM_cons] at h
      obtain ⟨z, hz, h⟩ := exists_of_bind_ok h
      obtain ⟨zs, hzs, h⟩ := exists_of_bind_ok h
      obtain rfl := Except.ok.inj h
      intro y hy
      rcases List.mem_cons.mp hy with rfl | hy
      · exact ⟨x, List.mem_cons_self, hz⟩
      · obtain ⟨w, hw, hy⟩ := ih hzs y hy
        exact ⟨w, List.mem_cons_of_mem _ hw, hy⟩

/-- The path leads to a file of the given kind of names in some directory. -/
def Path.IsOutput (p : Path) : Prop :=
  ∃ (dir : Path) (name : Text), IsFileName name ∧ name ≠ "utils.h" ∧
    p = dir.join ⟨name⟩

theorem Path.isFileName_of_length {name : Text} (hslash : '/' ∉ name)
    (hlength : 2 < name.length) : IsFileName name where
  ne_nil := by
    rintro rfl
    simp at hlength
  no_slash := hslash
  ne_current := by
    rintro rfl
    simp at hlength
  ne_parent := by
    rintro rfl
    simp at hlength

namespace Target

theorem isOutput_inDir (dir : Path) {parts : List Text}
    (hslash : ∀ part ∈ parts, '/' ∉ part)
    (hlength : 2 < (Text.concat parts).length)
    (hutils : Text.concat parts ≠ "utils.h") : (inDir dir parts).IsOutput := by
  have hslash' : '/' ∉ Text.concat parts := by
    intro h
    obtain ⟨part, hpart, h⟩ := List.mem_flatten.mp h
    exact hslash part hpart h
  exact ⟨dir, _, Path.isFileName_of_length hslash' hlength, hutils, rfl⟩

theorem isOutput_embindPath (dir : Option Path) (h : Header) :
    (embindPath dir h).IsOutput := by
  cases dir with
  | some dir =>
      apply isOutput_inDir
      · simp [h.slash_notMem_stem]
      · simp [Text.concat]
      · simp [Text.concat]
  | none =>
      obtain ⟨dir, -, hpath⟩ :=
        h.path.exists_withFileName_eq "emscripten-bindings.cpp"
      refine ⟨dir, _, Path.isFileName_of_length ?_ ?_, ?_, hpath⟩
      · simp
      · simp
      · simp

theorem isOutput_napi (dir : Path) {stem extension : Text}
    (hstem : '/' ∉ stem) (hextension : '/' ∉ extension) :
    (inDir dir ["gen-", stem, extension]).IsOutput := by
  apply isOutput_inDir
  · simp [hstem, hextension]
  · simp [Text.concat]
  · simp [Text.concat]

theorem isOutput_typeScript (dir : Path) {stem : Text} (hslash : '/' ∉ stem) :
    (inDir dir [stem, ".d.ts"]).IsOutput := by
  apply isOutput_inDir
  · simp [hslash]
  · simp [Text.concat]
  · intro heq
    have hlast := congrArg List.getLast? heq
    simp [Text.concat] at hlast

theorem isOutput_of_mem_renderHeader {ctx : Context} {h : Header}
    {target : Target} {artifacts : List Artifact}
    (hrender : target.renderHeader ctx h = .ok artifacts) :
    ∀ a ∈ artifacts, a.path.IsOutput := by
  cases target with
  | embind dir =>
      obtain rfl := Except.ok.inj hrender
      simp [isOutput_embindPath]
  | napi dir =>
      unfold renderHeader at hrender
      cases hglue : Napi.render ctx h with
      | error =>
          rw [hglue] at hrender
          contradiction
      | ok glue =>
          rw [hglue] at hrender
          obtain rfl := Except.ok.inj hrender
          simp only [List.forall_mem_cons]
          refine ⟨isOutput_napi dir h.slash_notMem_stem (by simp), ?_, by simp⟩
          exact isOutput_napi dir h.slash_notMem_stem (by simp)
  | typeScript dir =>
      obtain rfl := Except.ok.inj hrender
      simp only [List.forall_mem_singleton]
      exact isOutput_typeScript dir h.slash_notMem_stem

theorem isOutput_of_mem_renderIndex {ctx : Context} {headers : List Header}
    {target : Target} :
    ∀ a ∈ target.renderIndex ctx headers, a.path.IsOutput := by
  cases target with
  | embind dir => simp [renderIndex]
  | napi dir =>
      simp only [renderIndex, List.forall_mem_singleton]
      apply isOutput_inDir
      · simp
      · simp [Text.concat]
      · simp [Text.concat]
  | typeScript dir =>
      simp only [renderIndex, List.forall_mem_singleton]
      apply isOutput_inDir
      · simp
      · simp [Text.concat]
      · simp [Text.concat]

theorem isOutput_of_mem_render {ctx : Context} {headers : List Header}
    {target : Target} {artifacts : List Artifact}
    (hrender : target.render ctx headers = .ok artifacts) :
    ∀ a ∈ artifacts, a.path.IsOutput := by
  unfold render at hrender
  obtain ⟨perHeader, hmap, hrest⟩ := exists_of_bind_ok hrender
  obtain rfl := Except.ok.inj hrest
  intro a ha
  rcases List.mem_append.mp ha with ha | ha
  · obtain ⟨rendered, hrendered, ha⟩ := List.mem_flatten.mp ha
    obtain ⟨h, -, hone⟩ := exists_of_mem_mapM_ok hmap rendered hrendered
    exact isOutput_of_mem_renderHeader hone a ha
  · exact isOutput_of_mem_renderIndex a ha

end Target

/-! ## The paths of a run -/

theorem sharedPath?_eq_none_iff {seen paths : List Path} :
    sharedPath? seen paths = none ↔
      (∀ p ∈ seen, ∀ q ∈ paths, p.same q = false) ∧
        paths.Pairwise fun p q => p.same q = false := by
  induction paths generalizing seen with
  | nil => simp [sharedPath?]
  | cons p paths ih =>
      have hsplit : (seen.any (·.same p) = true) ↔
          ¬ ∀ q ∈ seen, q.same p = false := by
        simp
      rw [sharedPath?, List.pairwise_cons]
      split
      · next hseen =>
        refine iff_of_false (by simp) fun h => hsplit.mp hseen fun q hq => ?_
        exact h.1 q hq p List.mem_cons_self
      · next hseen =>
        rw [hsplit, not_not] at hseen
        rw [ih, List.forall_mem_cons, and_assoc]
        constructor
        · rintro ⟨hfirst, hothers, hpairwise⟩
          refine ⟨fun q hq => ?_, hfirst, hpairwise⟩
          exact List.forall_mem_cons.mpr ⟨hseen q hq, hothers q hq⟩
        · rintro ⟨hothers, hfirst, hpairwise⟩
          exact ⟨hfirst, fun q hq => (List.forall_mem_cons.mp (hothers q hq)).2,
            hpairwise⟩

theorem renderAll_paths {ctx : Context} {dirs : OutputDirs}
    {headers : List Header} {artifacts : List Artifact}
    (h : renderAll ctx dirs headers = .ok artifacts) :
    (∀ a ∈ artifacts, a.path.IsOutput) ∧
      artifacts.Pairwise fun a b => a.path.same b.path = false := by
  unfold renderAll at h
  obtain ⟨-, -, h⟩ := exists_of_bind_ok h
  obtain ⟨perTarget, hmap, h⟩ := exists_of_bind_ok h
  simp only at h
  split at h
  · contradiction
  · next hshared =>
    obtain rfl := Except.ok.inj h
    constructor
    · intro a ha
      obtain ⟨rendered, hrendered, ha⟩ := List.mem_flatten.mp ha
      obtain ⟨target, -, hone⟩ := exists_of_mem_mapM_ok hmap rendered hrendered
      exact Target.isOutput_of_mem_render hone a ha
    · exact List.pairwise_map.mp (sharedPath?_eq_none_iff.mp hshared).2

end Bindery
