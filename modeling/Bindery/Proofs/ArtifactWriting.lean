import Bindery.Binding.Output
import Bindery.Proofs.FileGrowth

/-!
# Writing artifacts

An artifact is brought up to date by one step: it is compared with its file and
written if they differ.  A run is such a step for each artifact in turn, and
each step sees what the steps before it did.

Steps only make directories and write the file of their own artifact.  So a run
ends with every file in the state that the last artifact for it asks for.  If
artifacts have files of their own, what a step sees of its file is what the
file was at first.  Directories that were made in between do not matter, as
they hold no file that was not there before.
-/

namespace Bindery

open FileSystem

namespace Artifact

/-- The file of the artifact has its contents. -/
def UpToDate (fs : FileSystem) (a : Artifact) : Prop :=
  fs.read a.path = .ok (Text.toBytes a.contents)

instance (fs : FileSystem) (a : Artifact) : Decidable (a.UpToDate fs) :=
  inferInstanceAs (Decidable (_ = _))

/-- What a file system says about the artifact. -/
def staleness (fs : FileSystem) (a : Artifact) : Except Fault Bool :=
  match fs.read a.path with
  | .ok bytes => .ok (bytes.data ≠ (Text.toBytes a.contents).data)
  | .error .notFound => .ok true
  | .error fault => .error fault

theorem perform_isStale (fs : FileSystem) (a : Artifact) :
    fs.perform a.isStale = (a.staleness fs, fs) := by
  rw [isStale, perform_tryCatch, perform_bind, perform_read, staleness]
  cases fs.read a.path with
  | ok bytes => rfl
  | error fault => cases fault <;> rfl

theorem staleness_eq_false_iff {fs : FileSystem} {a : Artifact} :
    a.staleness fs = .ok false ↔ a.UpToDate fs := by
  unfold staleness UpToDate
  split
  · next bytes hread => simp [hread, ByteArray.ext_iff]
  · next hread => simp [hread]
  · next hread => simp [hread]

theorem staleness_eq_ok {fs : FileSystem} {a : Artifact} {stale : Bool}
    (h : a.staleness fs = .ok stale) : stale = !decide (a.UpToDate fs) := by
  cases stale with
  | false => simpa using staleness_eq_false_iff.mp h
  | true =>
      have hstale : ¬ a.UpToDate fs := by
        rw [← staleness_eq_false_iff, h]
        simp
      simpa using hstale

/-- What one step does. -/
theorem perform_update (fs : FileSystem) (a : Artifact) :
    match fs.perform a.update with
    | (.ok stale, fs') => a.staleness fs = .ok stale ∧
        fs.Grows [fs.place a.path] fs' ∧ a.UpToDate fs'
    | (.error _, fs') => fs.Grows [] fs' := by
  rw [update, perform_bind, perform_isStale]
  cases hstale : a.staleness fs with
  | error fault => exact .refl [] fs
  | ok stale =>
      cases stale with
      | false =>
          exact ⟨rfl, .refl _ fs, staleness_eq_false_iff.mp hstale⟩
      | true =>
          have hwrite := fs.perform_writeWithDirs a.path
            (Text.toBytes a.contents)
          simp only [if_true]
          rw [perform_bind]
          rcases hresult : fs.perform (Files.writeWithDirs a.path
            (Text.toBytes a.contents)) with ⟨_ | _, fs'⟩
          all_goals rw [hresult] at hwrite
          · exact hwrite
          · exact ⟨rfl, hwrite⟩

/-- What a step sees of its file is what the file was at first, if the files
written in between are others and the artifact is readable in the end. -/
theorem staleness_at_first {written written' : List Location}
    {fs fs₁ fs₂ : FileSystem} (h : fs.Grows written fs₁)
    (h' : fs₁.Grows written' fs₂) {a : Artifact}
    (hparent : .parent ∉ a.path.steps) (hplace : fs.place a.path ∉ written)
    {bytes : ByteArray} (hread : fs₂.read a.path = .ok bytes) {stale : Bool}
    (hstale : a.staleness fs₁ = .ok stale) : a.staleness fs = .ok stale := by
  have hsame : fs.read a.path = fs₁.read a.path := by
    cases hread₁ : fs₁.read a.path with
    | ok bytes₁ => exact h.read_before hparent hplace hread₁
    | error fault =>
        have hfault : fault = .notFound := by
          rw [staleness, hread₁] at hstale
          cases fault <;> simp_all
        have hgrows : fs.Grows (written ++ written') fs₂ :=
          (h.mono (by simp +contextual)).trans (h'.mono (by simp +contextual))
        rcases hgrows.read_or_notFound hread with ⟨bytes', hread'⟩ | hread'
        · rw [h.read hplace hread'] at hread₁
          contradiction
        · rw [hread', hfault]
  rw [staleness, hsame]
  exact hstale

end Artifact

/-! ## Runs -/

theorem perform_writeArtifacts_cons (fs : FileSystem) (a : Artifact)
    (artifacts : List Artifact) :
    fs.perform (writeArtifacts (a :: artifacts)) =
      match fs.perform a.update with
      | (.error fault, fs') => (.error fault, fs')
      | (.ok stale, fs') =>
        match fs'.perform (writeArtifacts artifacts) with
        | (.error fault, fs'') => (.error fault, fs'')
        | (.ok report, fs'') => (.ok (report.note a.path stale), fs'') := by
  rw [writeArtifacts, perform_bind]
  rcases fs.perform a.update with ⟨_ | stale, fs'⟩
  · rfl
  · simp only
    rw [perform_bind]
    rcases fs'.perform (writeArtifacts artifacts) with ⟨_ | report, fs''⟩
    · rfl
    · rfl

/-- The first step of a run that succeeds, and the run after it. -/
theorem exists_run_of_cons {fs fs' : FileSystem} {a : Artifact}
    {artifacts : List Artifact} {report : WriteReport}
    (h : fs.perform (writeArtifacts (a :: artifacts)) = (.ok report, fs')) :
    ∃ stale fs₁ rest, a.staleness fs = .ok stale ∧
      fs.Grows [fs.place a.path] fs₁ ∧ a.UpToDate fs₁ ∧
      fs₁.perform (writeArtifacts artifacts) = (.ok rest, fs') ∧
      report = rest.note a.path stale := by
  have hstep := a.perform_update fs
  rw [perform_writeArtifacts_cons] at h
  rcases hupdate : fs.perform a.update with ⟨fault | stale, fs₁⟩
  all_goals rw [hupdate] at h hstep
  · simp at h
  · rcases hrun : fs₁.perform (writeArtifacts artifacts)
      with ⟨fault | rest, fs₂⟩
    all_goals simp only [hrun, Prod.mk.injEq, reduceCtorEq, false_and,
      Except.ok.injEq] at h
    · obtain ⟨rfl, rfl⟩ := h
      exact ⟨stale, fs₁, rest, hstep.1, hstep.2.1, hstep.2.2, hrun, rfl⟩

/-- What a run does, whatever the artifacts are. -/
theorem writeArtifacts_ok {fs fs' : FileSystem} {artifacts : List Artifact}
    {report : WriteReport}
    (h : fs.perform (writeArtifacts artifacts) = (.ok report, fs')) :
    fs.Grows (artifacts.map fun a => fs.place a.path) fs' ∧
      ∀ a ∈ artifacts, ∃ b ∈ artifacts, fs.place b.path = fs.place a.path ∧
        fs'.read a.path = .ok (Text.toBytes b.contents) := by
  induction artifacts generalizing fs report with
  | nil =>
      obtain ⟨-, rfl⟩ := Prod.mk.inj h
      exact ⟨.refl _ fs, by simp⟩
  | cons a artifacts ih =>
      obtain ⟨stale, fs₁, rest, -, hgrows, hread, hrun, -⟩ :=
        exists_run_of_cons h
      obtain ⟨hrest, hread'⟩ := ih hrun
      simp only [hgrows.place_eq] at hrest hread'
      refine ⟨?_, ?_⟩
      · exact (hgrows.mono (by simp)).trans
          (hrest.mono fun loc hloc => List.mem_cons_of_mem _ hloc)
      · intro x hx
        rcases List.mem_cons.mp hx with rfl | hx
        · by_cases hplace :
              fs.place x.path ∈ artifacts.map fun a => fs.place a.path
          · -- A later artifact has the same file; the last of them counts.
            obtain ⟨y, hy, hshared⟩ := List.mem_map.mp hplace
            obtain ⟨b, hb, hb', hready⟩ := hread' y hy
            refine ⟨b, List.mem_cons_of_mem _ hb, hb'.trans hshared, ?_⟩
            apply hrest.read_shared hread hready
            rw [hgrows.place_eq, hgrows.place_eq, hshared]
          · refine ⟨x, List.mem_cons_self, rfl, hrest.read ?_ hread⟩
            rwa [hgrows.place_eq]
        · obtain ⟨b, hb, hb', hready⟩ := hread' x hx
          exact ⟨b, List.mem_cons_of_mem _ hb, hb', hready⟩

/-- A run fails at one of its steps. -/
theorem writeArtifacts_error {fs fs' : FileSystem} {artifacts : List Artifact}
    {fault : Fault}
    (h : fs.perform (writeArtifacts artifacts) = (.error fault, fs')) :
    ∃ before a after report fs₁, artifacts = before ++ a :: after ∧
      fs.perform (writeArtifacts before) = (.ok report, fs₁) ∧
      fs₁.perform a.update = (.error fault, fs') := by
  induction artifacts generalizing fs with
  | nil => simp [writeArtifacts, perform_pure] at h
  | cons a artifacts ih =>
      rw [perform_writeArtifacts_cons] at h
      rcases hupdate : fs.perform a.update with ⟨fault' | stale, fs₁⟩
      all_goals rw [hupdate] at h
      · obtain ⟨hfault, rfl⟩ := Prod.mk.inj h
        obtain rfl := Except.error.inj hfault
        exact ⟨[], a, artifacts, {}, fs, rfl, rfl, hupdate⟩
      · rcases hrun : fs₁.perform (writeArtifacts artifacts)
          with ⟨fault' | rest, fs₂⟩
        all_goals simp only [hrun, Prod.mk.injEq, reduceCtorEq, false_and,
          Except.error.injEq] at h
        · obtain ⟨rfl, rfl⟩ := h
          obtain ⟨before, b, after, report, fs₂, rfl, hbefore, hfailed⟩ :=
            ih hrun
          refine ⟨a :: before, b, after, report.note a.path stale, fs₂, rfl, ?_,
            hfailed⟩
          rw [perform_writeArtifacts_cons, hupdate]
          simp only [hbefore]

/-! ## Comparing -/

theorem perform_filterAuxM {fs : FileSystem} {artifacts : List Artifact}
    (h : ∀ a ∈ artifacts, ∃ stale, a.staleness fs = .ok stale)
    (found : List Artifact) :
    fs.perform (List.filterAuxM Artifact.isStale artifacts found) =
      (.ok ((artifacts.filter fun a => ¬ a.UpToDate fs).reverse ++ found),
        fs) := by
  induction artifacts generalizing found with
  | nil => rfl
  | cons a artifacts ih =>
      simp only [List.mem_cons, forall_eq_or_imp] at h
      obtain ⟨⟨stale, hstale⟩, hrest⟩ := h
      rw [List.filterAuxM, perform_bind, Artifact.perform_isStale, hstale]
      simp only [ih hrest]
      by_cases hup : a.UpToDate fs
      · simp [Artifact.staleness_eq_ok hstale, hup]
      · simp [Artifact.staleness_eq_ok hstale, hup]

theorem perform_staleArtifacts {fs : FileSystem} {artifacts : List Artifact}
    (h : ∀ a ∈ artifacts, ∃ stale, a.staleness fs = .ok stale) :
    fs.perform (staleArtifacts artifacts) =
      (.ok ((artifacts.filter fun a => ¬ a.UpToDate fs).map Artifact.path),
        fs) := by
  rw [staleArtifacts, perform_bind, List.filterM, perform_bind,
    perform_filterAuxM h]
  simp only [perform_pure, List.append_nil, List.reverse_reverse]

/-! ## Files that are up to date -/

section

variable {fs : FileSystem} {artifacts : List Artifact}

theorem perform_staleArtifacts_upToDate
    (h : ∀ a ∈ artifacts, a.UpToDate fs) :
    fs.perform (staleArtifacts artifacts) = (.ok [], fs) := by
  rw [perform_staleArtifacts fun a ha =>
    ⟨false, Artifact.staleness_eq_false_iff.mpr (h a ha)⟩]
  have hnone : (artifacts.filter fun a => ¬ a.UpToDate fs) = [] := by
    simpa using h
  rw [hnone, List.map_nil]

theorem perform_writeArtifacts_upToDate
    (h : ∀ a ∈ artifacts, a.UpToDate fs) :
    fs.perform (writeArtifacts artifacts) =
      (.ok { written := [], unchanged := artifacts.map Artifact.path },
        fs) := by
  induction artifacts with
  | nil => rfl
  | cons a artifacts ih =>
      simp only [List.mem_cons, forall_eq_or_imp] at h
      have hupdate : fs.perform a.update = (.ok false, fs) := by
        rw [Artifact.update, perform_bind, Artifact.perform_isStale,
          Artifact.staleness_eq_false_iff.mpr h.1]
        rfl
      rw [perform_writeArtifacts_cons, hupdate]
      simp only [ih h.2]
      rfl

end

/-! ## Artifacts with files of their own -/

/-- The artifacts lead to different files, without detours. -/
structure Separate (fs : FileSystem) (artifacts : List Artifact) : Prop where
  no_parent : ∀ a ∈ artifacts, .parent ∉ a.path.steps
  nodup : (artifacts.map fun a => fs.place a.path).Nodup

theorem Separate.upToDate {fs fs' : FileSystem} {artifacts : List Artifact}
    {report : WriteReport} (hsep : Separate fs artifacts)
    (h : fs.perform (writeArtifacts artifacts) = (.ok report, fs')) :
    ∀ a ∈ artifacts, a.UpToDate fs' := by
  intro a ha
  obtain ⟨b, hb, hplace, hread⟩ := (writeArtifacts_ok h).2 a ha
  have heq : b = a := List.inj_on_of_nodup_map hsep.nodup hb ha hplace
  rwa [heq] at hread

theorem Separate.front {fs : FileSystem} {before after : List Artifact}
    (hsep : Separate fs (before ++ after)) : Separate fs before := by
  obtain ⟨hparent, hnodup⟩ := hsep
  rw [List.map_append] at hnodup
  exact ⟨fun a ha => hparent a (List.mem_append_left _ ha),
    hnodup.of_append_left⟩

theorem Separate.tail {fs fs' : FileSystem} {a : Artifact}
    {artifacts : List Artifact} (hsep : Separate fs (a :: artifacts))
    {written : List Location} (h : fs.Grows written fs') :
    Separate fs' artifacts := by
  refine ⟨fun b hb => hsep.no_parent b (List.mem_cons_of_mem _ hb), ?_⟩
  simp only [h.place_eq]
  exact (List.nodup_cons.mp hsep.nodup).2

/-- After the first step, the other artifacts find their files as they were. -/
theorem Separate.staleness_tail {fs fs₁ fs' : FileSystem} {a b : Artifact}
    {artifacts : List Artifact} {report : WriteReport}
    (hsep : Separate fs (a :: artifacts))
    (hgrows : fs.Grows [fs.place a.path] fs₁)
    (hrun : fs₁.perform (writeArtifacts artifacts) = (.ok report, fs'))
    (hb : b ∈ artifacts) {stale : Bool} (h : b.staleness fs₁ = .ok stale) :
    b.staleness fs = .ok stale := by
  have hsep' := hsep.tail hgrows
  have hplace : fs.place b.path ∉ [fs.place a.path] := by
    rw [List.mem_singleton]
    intro heq
    exact (List.nodup_cons.mp hsep.nodup).1 (List.mem_map.mpr ⟨b, hb, heq⟩)
  exact Artifact.staleness_at_first hgrows (writeArtifacts_ok hrun).1
    (hsep'.no_parent b hb) hplace (hsep'.upToDate hrun b hb) h

/-- A run writes what is not up to date at first. -/
theorem Separate.report_eq {fs fs' : FileSystem} {artifacts : List Artifact}
    {report : WriteReport} (hsep : Separate fs artifacts)
    (h : fs.perform (writeArtifacts artifacts) = (.ok report, fs')) :
    (∀ a ∈ artifacts, ∃ stale, a.staleness fs = .ok stale) ∧
      report.written =
        (artifacts.filter fun a => ¬ a.UpToDate fs).map Artifact.path ∧
      report.unchanged =
        (artifacts.filter fun a => a.UpToDate fs).map Artifact.path := by
  induction artifacts generalizing fs report with
  | nil =>
      obtain ⟨hreport, -⟩ := Prod.mk.inj h
      obtain rfl := Except.ok.inj hreport
      simp
  | cons a artifacts ih =>
      obtain ⟨stale, fs₁, rest, hstale, hgrows, -, hrun, rfl⟩ :=
        exists_run_of_cons h
      obtain ⟨hready, hwritten, hunchanged⟩ := ih (hsep.tail hgrows) hrun
      have hfirst : ∀ b ∈ artifacts, ∃ stale, b.staleness fs = .ok stale := by
        intro b hb
        obtain ⟨stale, hb'⟩ := hready b hb
        exact ⟨stale, hsep.staleness_tail hgrows hrun hb hb'⟩
      have hsame : ∀ b ∈ artifacts,
          decide (b.UpToDate fs₁) = decide (b.UpToDate fs) := by
        intro b hb
        obtain ⟨stale, hb'⟩ := hready b hb
        have hat := hsep.staleness_tail hgrows hrun hb hb'
        rw [decide_eq_decide, ← Artifact.staleness_eq_false_iff,
          ← Artifact.staleness_eq_false_iff, hb', hat]
      have hnot : artifacts.filter (fun b => ¬ b.UpToDate fs₁) =
          artifacts.filter fun b => ¬ b.UpToDate fs :=
        List.filter_congr fun b hb => by simp only [decide_not, hsame b hb]
      have hyes := List.filter_congr hsame
      rw [hnot] at hwritten
      rw [hyes] at hunchanged
      refine ⟨List.forall_mem_cons.mpr ⟨⟨stale, hstale⟩, hfirst⟩, ?_⟩
      by_cases hup : a.UpToDate fs
      · simp [Artifact.staleness_eq_ok hstale, WriteReport.note, hup, hwritten,
          hunchanged]
      · simp [Artifact.staleness_eq_ok hstale, WriteReport.note, hup, hwritten,
          hunchanged]

/-- The outcome of a run that succeeds. -/
structure Converged (artifacts : List Artifact) (report : WriteReport)
    (fs fs' : FileSystem) : Prop where
  stale_before :
    fs.perform (staleArtifacts artifacts) = (.ok report.written, fs)
  written_eq : report.written =
    (artifacts.filter fun a => ¬ a.UpToDate fs).map Artifact.path
  unchanged_eq : report.unchanged =
    (artifacts.filter fun a => a.UpToDate fs).map Artifact.path
  upToDate : ∀ a ∈ artifacts, a.UpToDate fs'
  frame : ∀ loc ∉ artifacts.map fun a => fs.place a.path, ∀ bytes,
    fs'.node? loc = some (.file bytes) ↔ fs.node? loc = some (.file bytes)
  stale_after : fs'.perform (staleArtifacts artifacts) = (.ok [], fs')
  again : fs'.perform (writeArtifacts artifacts) =
    (.ok { written := [], unchanged := artifacts.map Artifact.path }, fs')

/-- The outcome of a run that fails at an artifact. -/
structure FailedAt (before : List Artifact) (a : Artifact) (fault : Fault)
    (fs fs' : FileSystem) : Prop where
  failed : ∃ report fs₁,
    fs.perform (writeArtifacts before) = (.ok report, fs₁) ∧
    fs₁.perform a.update = (.error fault, fs')
  upToDate : ∀ b ∈ before, b.UpToDate fs'
  frame : ∀ loc ∉ before.map fun b => fs.place b.path, ∀ bytes,
    fs'.node? loc = some (.file bytes) ↔ fs.node? loc = some (.file bytes)

/-- If no path leads up and each artifact has a file of its own, a run brings
all files up to date, or those in front of the one where it fails, and touches
no other file. -/
theorem writeArtifacts_converges (fs : FileSystem) (artifacts : List Artifact)
    (hparent : ∀ a ∈ artifacts, .parent ∉ a.path.steps)
    (hnodup : (artifacts.map fun a => fs.place a.path).Nodup) :
    (∀ report fs', fs.perform (writeArtifacts artifacts) = (.ok report, fs') →
      Converged artifacts report fs fs') ∧
    (∀ fault fs', fs.perform (writeArtifacts artifacts) = (.error fault, fs') →
      ∃ before a after, artifacts = before ++ a :: after ∧
        FailedAt before a fault fs fs') := by
  have hsep : Separate fs artifacts := ⟨hparent, hnodup⟩
  constructor
  · intro report fs' hrun
    obtain ⟨hready, hwritten, hunchanged⟩ := hsep.report_eq hrun
    have hup := hsep.upToDate hrun
    have hstale := perform_staleArtifacts hready
    rw [← hwritten] at hstale
    exact ⟨hstale, hwritten, hunchanged, hup,
      fun loc hloc => (writeArtifacts_ok hrun).1.node_file_iff hloc,
      perform_staleArtifacts_upToDate hup, perform_writeArtifacts_upToDate hup⟩
  · intro fault fs' hrun
    obtain ⟨before, a, after, report, fs₁, rfl, hbefore, hfailed⟩ :=
      writeArtifacts_error hrun
    refine ⟨before, a, after, rfl, ?_⟩
    have hgrows := (writeArtifacts_ok hbefore).1
    have hdirs : fs₁.Grows [] fs' := by
      have hstep := a.perform_update fs₁
      rwa [hfailed] at hstep
    constructor
    · exact ⟨report, fs₁, hbefore, hfailed⟩
    · intro b hb
      exact hdirs.read (by simp) (hsep.front.upToDate hbefore b hb)
    · intro loc hloc bytes
      rw [hdirs.node_file_iff (by simp), hgrows.node_file_iff hloc]

/-- Two files, the second one in a directory below that of the first. -/
def nestedArtifacts : List Artifact :=
  [⟨"out/gen.h", "a".toList⟩, ⟨"out/./ts/ode.d.ts", []⟩]

theorem writeArtifacts_converges_nested :
    ∃ report fs', ({} : FileSystem).perform (writeArtifacts nestedArtifacts) =
        (.ok report, fs') ∧
      report.written = nestedArtifacts.map Artifact.path ∧
      Converged nestedArtifacts report {} fs' := by
  have hsteps : nestedArtifacts.map (fun a => a.path.steps) =
      [[.name "out", .name "gen.h"],
        [.name "out", .current, .name "ts", .name "ode.d.ts"]] := by cbv
  have hplaces : (nestedArtifacts.map fun a => ({} : FileSystem).place a.path) =
      [["out".toList, "gen.h".toList],
        ["out".toList, "ts".toList, "ode.d.ts".toList]] := by cbv
  have hok : (({} : FileSystem).perform (writeArtifacts nestedArtifacts)).1.map
      WriteReport.written = .ok (nestedArtifacts.map Artifact.path) := by
    decide +kernel
  have hparent : ∀ a ∈ nestedArtifacts, .parent ∉ a.path.steps := by
    have hall : ∀ steps ∈ nestedArtifacts.map fun a => a.path.steps,
        .parent ∉ steps := by
      rw [hsteps]
      simp
    exact fun a ha => hall _ (List.mem_map_of_mem ha)
  have hnodup : (nestedArtifacts.map fun a =>
      ({} : FileSystem).place a.path).Nodup := by
    rw [hplaces]
    simp
  have h := (writeArtifacts_converges {} nestedArtifacts hparent hnodup).1
  rcases hrun : ({} : FileSystem).perform (writeArtifacts nestedArtifacts)
    with ⟨fault | report, fs'⟩
  all_goals rw [hrun] at hok
  · simp [Except.map] at hok
  · exact ⟨report, fs', rfl, Except.ok.inj hok, h report fs' hrun⟩

end Bindery
