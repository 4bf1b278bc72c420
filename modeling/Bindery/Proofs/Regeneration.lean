import Bindery.Command.Run
import Bindery.Proofs.ArtifactPaths
import Bindery.Proofs.ArtifactWriting

/-!
# Generating again

A run of the generator reads its configuration and its headers, plans its
artifacts and writes them.  If what it reads is not among what it writes, a
second run plans the same artifacts, as nothing that it reads has changed.

So all depends on the files that the first run left.  Artifacts are compared by
their paths, and differently spelled paths may lead to one file.  The files are
as planned if and only if artifacts that share a file have the same contents.
-/

namespace Bindery

open FileSystem

/-! ## Reading the same -/

namespace FileSystem

variable {ε ε' α β : Type} {fs fs' : FileSystem}

/-- The action only reads, and reads the same on both file systems. -/
def Agree (fs fs' : FileSystem) (action : ExceptT ε (StateM FileSystem) α) :
    Prop :=
  ∃ result,
    fs.perform action = (result, fs) ∧ fs'.perform action = (result, fs')

theorem agree_pure (a : α) :
    fs.Agree fs' (pure a : ExceptT ε (StateM FileSystem) α) :=
  ⟨.ok a, rfl, rfl⟩

theorem agree_throw (e : ε) :
    fs.Agree fs' (throw e : ExceptT ε (StateM FileSystem) α) :=
  ⟨.error e, rfl, rfl⟩

theorem agree_mk (result : Except ε α) :
    fs.Agree fs' (ExceptT.mk (pure result) : ExceptT ε (StateM FileSystem) α) :=
  ⟨result, rfl, rfl⟩

theorem agree_read {p : Path} (h : fs'.read p = fs.read p) :
    fs.Agree fs' (MonadFiles.read p) :=
  ⟨fs.read p, rfl, h ▸ rfl⟩

theorem agree_kind? {p : Path} (h : fs'.kind? p = fs.kind? p) :
    fs.Agree fs' (liftM (MonadFiles.kind? p : StateM FileSystem _) :
      ExceptT ε (StateM FileSystem) (Option FileKind)) :=
  ⟨.ok (fs.kind? p), rfl, h ▸ rfl⟩

theorem agree_filesBelow (fs : FileSystem) (p : Path) :
    fs.Agree fs (liftM (MonadFiles.filesBelow p : StateM FileSystem _) :
      ExceptT ε (StateM FileSystem) (List Location)) := by
  have hstate : (fs.perform (liftM (MonadFiles.filesBelow p :
      StateM FileSystem _) : ExceptT ε (StateM FileSystem) (List Location))).2 =
      fs := by
    rw [perform_lift]
    simp only [MonadFiles.filesBelow]
    cases fs.lookup p with
    | ok found => rfl
    | error fault => rfl
  exact ⟨_, Prod.ext rfl hstate, Prod.ext rfl hstate⟩

theorem Agree.adapt {action : ExceptT ε (StateM FileSystem) α}
    (h : fs.Agree fs' action) (f : ε → ε') :
    fs.Agree fs' (ExceptT.adapt f action) := by
  obtain ⟨result, hfs, hfs'⟩ := h
  refine ⟨result.mapError f, ?_, ?_⟩
  · rw [perform_adapt, hfs]
  · rw [perform_adapt, hfs']

theorem Agree.bind {action : ExceptT ε (StateM FileSystem) α}
    {next : α → ExceptT ε (StateM FileSystem) β} (h : fs.Agree fs' action)
    (hnext : ∀ a, fs.perform action = (.ok a, fs) → fs.Agree fs' (next a)) :
    fs.Agree fs' (action >>= next) := by
  obtain ⟨result, hfs, hfs'⟩ := h
  cases result with
  | error e =>
      refine ⟨.error e, ?_, ?_⟩
      · rw [perform_bind, hfs]
      · rw [perform_bind, hfs']
  | ok a =>
      obtain ⟨result, hfs₁, hfs₁'⟩ := hnext a hfs
      refine ⟨result, ?_, ?_⟩
      · rw [perform_bind, hfs]
        exact hfs₁
      · rw [perform_bind, hfs']
        exact hfs₁'

theorem agree_mapM {f : α → ExceptT ε (StateM FileSystem) β} {xs : List α}
    (h : ∀ x ∈ xs, fs.Agree fs' (f x)) : fs.Agree fs' (xs.mapM f) := by
  induction xs with
  | nil => exact agree_pure []
  | cons x xs ih =>
      simp only [List.forall_mem_cons] at h
      rw [List.mapM_cons]
      apply h.1.bind
      intro y _
      apply (ih h.2).bind
      intro ys _
      exact agree_pure _

theorem exists_of_perform_bind {fs₂ : FileSystem}
    {action : ExceptT ε (StateM FileSystem) α}
    {next : α → ExceptT ε (StateM FileSystem) β} {b : β}
    (h : fs.perform (action >>= next) = (.ok b, fs₂)) :
    ∃ a fs₁, fs.perform action = (.ok a, fs₁) ∧
      fs₁.perform (next a) = (.ok b, fs₂) := by
  rw [perform_bind] at h
  rcases hfirst : fs.perform action with ⟨_ | a, fs₁⟩
  all_goals rw [hfirst] at h
  · simp at h
  · exact ⟨a, fs₁, rfl, h⟩

theorem perform_of_adapt {fs₁ : FileSystem}
    {action : ExceptT ε (StateM FileSystem) α} {f : ε → ε'} {a : α}
    (h : fs.perform (ExceptT.adapt f action) = (.ok a, fs₁)) :
    fs.perform action = (.ok a, fs₁) := by
  rw [perform_adapt] at h
  rcases hfirst : fs.perform action with ⟨_ | b, fs₂⟩
  all_goals rw [hfirst] at h
  · simp [Except.mapError] at h
  · simpa [Except.mapError] using h

theorem perform_mapM {f : α → ExceptT ε (StateM FileSystem) β} {g : α → β}
    {xs : List α} (h : ∀ x ∈ xs, fs.perform (f x) = (.ok (g x), fs)) :
    fs.perform (xs.mapM f) = (.ok (xs.map g), fs) := by
  induction xs with
  | nil => rfl
  | cons x xs ih =>
      simp only [List.forall_mem_cons] at h
      rw [List.mapM_cons, perform_bind, h.1]
      simp only [perform_bind, ih h.2]
      rfl

/-! ## Reading headers -/

theorem agree_readText {p : Path} (h : fs'.read p = fs.read p) :
    fs.Agree fs' (Files.readText p) := by
  apply (agree_read h).bind
  intro bytes _
  split
  · exact agree_pure _
  · exact agree_throw _

theorem agree_isFile {p : Path}
    (h : fs'.kind? p = some .file ↔ fs.kind? p = some .file) :
    fs.Agree fs' (liftM (Files.isFile p : StateM FileSystem Bool) :
      ExceptT ε (StateM FileSystem) Bool) := by
  refine ⟨.ok (decide (fs.kind? p = some .file)), rfl, ?_⟩
  have hdecide : decide (fs'.kind? p = some .file) =
      decide (fs.kind? p = some .file) := by simp [h]
  rw [← hdecide]
  rfl

theorem place_join (fs : FileSystem) (dir : Path) {name : Text}
    (h : Path.IsFileName name) :
    fs.place (dir.join ⟨name⟩) = fs.place dir ++ [name] := by
  rw [place, Path.steps_join dir h, List.foldl_append]
  rfl

theorem isFileName_utils : Path.IsFileName "utils.h" :=
  Path.isFileName_of_length (by simp) (by simp)

/-- The header with the utilities is no output. -/
theorem place_utils_notMem (fs : FileSystem) {artifacts : List Artifact}
    (h : ∀ a ∈ artifacts, a.path.IsOutput) (dir : Path) :
    fs.place (dir.join ⟨"utils.h".toList⟩) ∉
      artifacts.map fun a => fs.place a.path := by
  intro hmem
  obtain ⟨a, ha, heq⟩ := List.mem_map.mp hmem
  obtain ⟨dir', name, hname, hne, hpath⟩ := h a ha
  rw [hpath, place_join fs dir' hname,
    place_join fs dir isFileName_utils] at heq
  exact hne (List.singleton_inj.mp (List.append_inj' heq rfl).2)

theorem agree_readHeader {d : Dialect} {p : Path}
    (hread : fs'.read p = fs.read p)
    (hutils : fs'.kind? (p.withFileName "utils.h") = some .file ↔
      fs.kind? (p.withFileName "utils.h") = some .file) :
    fs.Agree fs' (HeaderFiles.read d p) := by
  apply ((agree_readText hread).adapt _).bind
  intro source _
  apply (agree_isFile hutils).bind
  intro utilsBeside _
  exact agree_pure _

/-- Writing artifacts does not change what lies beside a header. -/
theorem kind?_utils_iff {artifacts : List Artifact}
    (hgrows : fs.Grows (artifacts.map fun a => fs.place a.path) fs')
    (houtput : ∀ a ∈ artifacts, a.path.IsOutput) {p : Path}
    {bytes : ByteArray} (hread : fs.read p = .ok bytes) :
    fs'.kind? (p.withFileName "utils.h") = some .file ↔
      fs.kind? (p.withFileName "utils.h") = some .file := by
  obtain ⟨dir, hdir, hutils⟩ := p.exists_withFileName_eq "utils.h"
  have hplace := place_utils_notMem fs houtput dir
  rw [hutils, kind?_eq_file_iff, kind?_eq_file_iff]
  constructor
  · rintro ⟨bytes', hbeside⟩
    exact ⟨bytes', hgrows.read_beside hread hdir
      (Path.steps_join dir isFileName_utils) hplace hbeside⟩
  · rintro ⟨bytes', hbeside⟩
    exact ⟨bytes', hgrows.read hplace hbeside⟩

theorem agree_collect (fs : FileSystem) (inputs : List Path) :
    fs.Agree fs (HeaderFiles.collect inputs) := by
  have hexpand : ∀ p ∈ inputs, fs.Agree fs (HeaderFiles.expand p) := by
    intro p _
    apply (agree_kind? rfl).bind
    intro kind _
    split
    · exact (agree_filesBelow fs p).bind fun _ _ => agree_pure _
    · exact agree_pure _
    · exact agree_throw _
  exact (agree_mapM hexpand).bind fun _ _ => agree_pure _

theorem perform_collect {inputs : List Path}
    (h : ∀ p ∈ inputs, fs.kind? p = some .file) :
    fs.perform (HeaderFiles.collect inputs) = (.ok inputs, fs) := by
  have hexpand : ∀ p ∈ inputs,
      fs.perform (HeaderFiles.expand p) = (.ok [p], fs) := by
    intro p hp
    have hkind : (MonadFiles.kind? p : StateM FileSystem _) fs =
        (some .file, fs) := by rw [← h p hp]; rfl
    rw [HeaderFiles.expand, perform_bind, perform_lift, hkind]
    rfl
  rw [HeaderFiles.collect, perform_bind, perform_mapM hexpand]
  simp only [perform_pure, ← List.flatMap_def, List.flatMap_singleton']

end FileSystem

/-! ## Plans -/

namespace Command

/-- The headers are files, and the plan writes nothing that it was made from. -/
structure Plan.Apart (plan : Plan) (fs : FileSystem) (input : Input) :
    Prop where
  header_isFile : ∀ p ∈ plan.config.headers, fs.kind? p = some .file
  header_apart : ∀ p ∈ plan.config.headers,
    fs.place p ∉ plan.artifacts.map fun a => fs.place a.path
  -- What is written over a configuration cannot be read as one.
  config_apart : ∀ p ∈ input.config,
    fs.place p ∉ plan.artifacts.map fun a => fs.place a.path

variable {fs fs' : FileSystem} {input : Input} {dirs : OutputDirs} {plan : Plan}

theorem read_of_load {fs₁ : FileSystem} {p : Path} {config : Config}
    (h : fs.perform (Config.load p) = (.ok config, fs₁)) :
    ∃ bytes, fs.read p = .ok bytes := by
  rw [Config.load] at h
  obtain ⟨kind, fs₂, hkind, h⟩ := exists_of_perform_bind h
  obtain ⟨-, rfl⟩ := Prod.mk.inj hkind
  simp only at h
  split at h
  · obtain ⟨_, _, hthrow, -⟩ := exists_of_perform_bind h
    simp [perform_throw] at hthrow
  · obtain ⟨source, fs₂, htext, -⟩ := exists_of_perform_bind h
    obtain ⟨bytes, fs₃, hread, -⟩ :=
      exists_of_perform_bind (perform_of_adapt htext)
    exact ⟨bytes, (Prod.mk.inj hread).1⟩

theorem agree_load {p : Path} (hread : fs'.read p = fs.read p)
    (hkind : fs'.kind? p = fs.kind? p) : fs.Agree fs' (Config.load p) := by
  apply (agree_kind? hkind).bind
  intro kind _
  simp only
  split
  · apply (agree_throw _).bind
    intro _ hthrow
    simp [perform_throw] at hthrow
  · apply ((agree_readText hread).adapt _).bind
    intro source _
    apply (agree_mk _).bind
    intro config _
    exact agree_pure _

theorem agree_configFor (h : ∀ p ∈ input.config,
      fs'.read p = fs.read p ∧ fs'.kind? p = fs.kind? p) :
    fs.Agree fs' (configFor input) := by
  have hcheck : ∀ config : Config, fs.Agree fs'
      (if config.headers.isEmpty then throw Failure.noHeaders
        else pure config : ExceptT Failure (StateM FileSystem) Config) := by
    intro config
    split
    · exact agree_throw _
    · exact agree_pure _
  unfold configFor
  simp only
  split
  · next p hconfig =>
    obtain ⟨hread, hkind⟩ := h p (by rw [hconfig]; rfl)
    exact ((agree_load hread hkind).adapt _).bind fun _ _ => hcheck _
  · exact (agree_pure _).bind fun _ _ => hcheck _

theorem readable_of_configFor {fs₁ : FileSystem} {config : Config}
    (h : fs.perform (configFor input) = (.ok config, fs₁)) :
    ∀ p ∈ input.config, ∃ bytes, fs.read p = .ok bytes := by
  intro p hp
  unfold configFor at h
  simp only [Option.mem_def.mp hp] at h
  obtain ⟨_, _, hload, -⟩ := exists_of_perform_bind h
  exact read_of_load (perform_of_adapt hload)

theorem agree_readHeaders {config : Config}
    (hcollect : fs.Agree fs' (HeaderFiles.collect config.headers))
    (hread : ∀ paths,
      fs.perform (HeaderFiles.collect config.headers) = (.ok paths, fs) →
      ∀ p ∈ paths, fs.Agree fs' (HeaderFiles.read config.dialect p)) :
    fs.Agree fs' (readHeaders config) := by
  apply (hcollect.adapt _).bind
  intro paths hpaths
  apply Agree.adapt
  exact agree_mapM (hread paths (perform_of_adapt hpaths))

theorem agree_plan
    (hconfig : fs.Agree fs' (configFor input))
    (hheaders : ∀ config, fs.perform (configFor input) = (.ok config, fs) →
      fs.Agree fs' (readHeaders
        { config with output := overrideDirs dirs config.output })) :
    fs.Agree fs' (Command.plan input dirs) := by
  apply hconfig.bind
  intro config hconfig'
  apply (hheaders config hconfig').bind
  intro headers _
  apply ((agree_mk _).adapt _).bind
  intro artifacts _
  exact agree_pure _

/-- Planning changes nothing. -/
theorem perform_plan_eq (fs : FileSystem) (input : Input) (dirs : OutputDirs) :
    (fs.perform (Command.plan input dirs)).2 = fs := by
  have hagree : fs.Agree fs (Command.plan input dirs) := by
    apply agree_plan (agree_configFor fun _ _ => ⟨rfl, rfl⟩)
    intro config _
    apply agree_readHeaders (agree_collect fs _)
    intro paths _ p _
    exact agree_readHeader rfl Iff.rfl
  obtain ⟨result, hfs, -⟩ := hagree
  rw [hfs]

theorem exists_of_plan {fs₁ : FileSystem}
    (h : fs.perform (Command.plan input dirs) = (.ok plan, fs₁)) :
    ∃ config fs₂ headers, fs.perform (configFor input) = (.ok config, fs₂) ∧
      plan.config = { config with output := overrideDirs dirs config.output } ∧
      artifactsOf plan.config headers = .ok plan.artifacts := by
  unfold Command.plan at h
  obtain ⟨config, fs₂, hconfig, h⟩ := exists_of_perform_bind h
  obtain ⟨headers, fs₃, -, h⟩ := exists_of_perform_bind h
  obtain ⟨artifacts, fs₄, hartifacts, h⟩ := exists_of_perform_bind h
  obtain rfl := Except.ok.inj (Prod.mk.inj h).1
  exact ⟨config, fs₂, headers, hconfig, rfl,
    (Prod.mk.inj (perform_of_adapt hartifacts)).1⟩

theorem Plan.Apart.read_header (h : plan.Apart fs input)
    (hgrows : fs.Grows (plan.artifacts.map fun a => fs.place a.path) fs')
    {p : Path} (hp : p ∈ plan.config.headers) :
    ∃ bytes, fs.read p = .ok bytes ∧ fs'.read p = .ok bytes := by
  obtain ⟨bytes, hread⟩ := kind?_eq_file_iff.mp (h.header_isFile p hp)
  exact ⟨bytes, hread, hgrows.read (h.header_apart p hp) hread⟩

theorem Plan.Apart.read_config (h : plan.Apart fs input)
    (hgrows : fs.Grows (plan.artifacts.map fun a => fs.place a.path) fs')
    {fs₁ : FileSystem} {config : Config}
    (hconfig : fs.perform (configFor input) = (.ok config, fs₁)) :
    ∀ p ∈ input.config, fs'.read p = fs.read p ∧ fs'.kind? p = fs.kind? p := by
  intro p hp
  obtain ⟨bytes, hread⟩ := readable_of_configFor hconfig p hp
  have hread' := hgrows.read (h.config_apart p hp) hread
  rw [hread, hread', kind?_eq_file_iff.mpr ⟨bytes, hread⟩,
    kind?_eq_file_iff.mpr ⟨bytes, hread'⟩]
  exact ⟨rfl, rfl⟩

/-- Nothing that was read has changed, so the same is planned. -/
theorem perform_plan_again
    (hplan : fs.perform (Command.plan input dirs) = (.ok plan, fs))
    (hapart : plan.Apart fs input)
    (hgrows : fs.Grows (plan.artifacts.map fun a => fs.place a.path) fs') :
    fs'.perform (Command.plan input dirs) = (.ok plan, fs') := by
  obtain ⟨config, fs₁, headers, hconfig, hplanned, hartifacts⟩ :=
    exists_of_plan hplan
  have houtput := (renderAll_paths hartifacts).1
  have hfile : ∀ p ∈ config.headers, ∃ bytes, fs.read p = .ok bytes ∧
      fs'.read p = .ok bytes := by
    intro p hp
    apply hapart.read_header hgrows
    rwa [hplanned]
  have hcollect : fs.perform (HeaderFiles.collect config.headers) =
      (.ok config.headers, fs) :=
    perform_collect fun p hp =>
      kind?_eq_file_iff.mpr ((hfile p hp).imp fun _ h => h.1)
  have hcollect' : fs'.perform (HeaderFiles.collect config.headers) =
      (.ok config.headers, fs') :=
    perform_collect fun p hp =>
      kind?_eq_file_iff.mpr ((hfile p hp).imp fun _ h => h.2)
  have hagree : fs.Agree fs' (Command.plan input dirs) := by
    apply agree_plan (agree_configFor (hapart.read_config hgrows hconfig))
    intro config' hconfig'
    rw [hconfig] at hconfig'
    obtain rfl := Except.ok.inj (Prod.mk.inj hconfig').1
    apply agree_readHeaders ⟨_, hcollect, hcollect'⟩
    intro paths hpaths p hp
    rw [hcollect] at hpaths
    obtain rfl := Except.ok.inj (Prod.mk.inj hpaths).1
    obtain ⟨bytes, hread, hread'⟩ := hfile p hp
    exact agree_readHeader (hread'.trans hread.symm)
      (kind?_utils_iff hgrows houtput hread)
  obtain ⟨result, hfs, hfs'⟩ := hagree
  rw [hplan] at hfs
  rw [hfs', ← (Prod.mk.inj hfs).1]

/-! ## Runs of the generator -/

theorem run_generate (fs : FileSystem) {args : List Text} {check : Bool}
    (h : Invocation.parse? args = some (.generate input dirs check)) :
    (Command.run args : StateM FileSystem Outcome).run fs =
      (Outcome.ofResult (fs.perform (generate input dirs check)).1,
        (fs.perform (generate input dirs check)).2) := by
  unfold Command.run
  rw [h]
  rfl

theorem code_eq_zero_iff {result : Except Failure Text} :
    (Outcome.ofResult result).code = 0 ↔ ∃ text, result = .ok text := by
  cases result with
  | error failure => simp [Outcome.ofResult]
  | ok text => simp [Outcome.ofResult]

theorem perform_generate {fs₁ : FileSystem} {check : Bool}
    (h : fs.perform (Command.plan input dirs) = (.ok plan, fs₁)) :
    fs.perform (generate input dirs check) =
      fs₁.perform (if check then checkFiles plan.artifacts
        else writeFiles plan.artifacts) := by
  rw [generate, perform_bind, h]

/-- A run that succeeds has a plan, and carries it out. -/
theorem exists_of_generate {text : Text}
    (h : fs.perform (generate input dirs false) = (.ok text, fs')) :
    ∃ plan report, fs.perform (Command.plan input dirs) = (.ok plan, fs) ∧
      fs.perform (writeArtifacts plan.artifacts) = (.ok report, fs') := by
  obtain ⟨plan, fs₁, hplan, hwrite⟩ := exists_of_perform_bind h
  have hsame := perform_plan_eq fs input dirs
  rw [hplan] at hsame
  obtain rfl : fs₁ = fs := hsame
  obtain ⟨report, fs₂, hreport, htext⟩ := exists_of_perform_bind hwrite
  obtain ⟨-, rfl⟩ := Prod.mk.inj htext
  exact ⟨plan, report, hplan, perform_of_adapt (perform_of_adapt hreport)⟩

theorem perform_checkFiles {artifacts : List Artifact}
    (h : ∀ a ∈ artifacts, ∃ stale, a.staleness fs = .ok stale) :
    ∃ result, fs.perform (checkFiles artifacts) = (result, fs) ∧
      ((∃ text, result = .ok text) ↔ ∀ a ∈ artifacts, a.UpToDate fs) := by
  rw [checkFiles, perform_bind, perform_adapt, perform_staleArtifacts h]
  simp only [Except.mapError]
  by_cases hup : ∀ a ∈ artifacts, a.UpToDate fs
  · have hnone : (artifacts.filter fun a => ¬ a.UpToDate fs) = [] := by
      simpa using hup
    rw [hnone]
    exact ⟨_, rfl, iff_of_true ⟨_, rfl⟩ hup⟩
  · have hsome : ((artifacts.filter fun a => ¬ a.UpToDate fs).map
        Artifact.path).isEmpty = false := by
      simpa using hup
    simp only [hsome]
    exact ⟨_, rfl, iff_of_false (by simp) hup⟩

theorem perform_writeFiles_upToDate {artifacts : List Artifact}
    (h : ∀ a ∈ artifacts, a.UpToDate fs) :
    fs.perform (writeFiles artifacts) =
      (.ok (Text.concat ["📝 ", Text.ofNat 0, " files written, ",
        Text.ofNat artifacts.length, " unchanged\n"]), fs) := by
  rw [writeFiles, perform_bind, during, perform_adapt, perform_adapt,
    perform_writeArtifacts_upToDate h]
  simp only [Except.mapError, perform_pure, List.length_nil, List.length_map]

end Command

/-! ## Artifacts that share a file -/

/-- Artifacts that lead to one file have the same contents. -/
def Consistent (fs : FileSystem) (artifacts : List Artifact) : Prop :=
  ∀ a ∈ artifacts, ∀ b ∈ artifacts, fs.place a.path = fs.place b.path →
    a.contents = b.contents

theorem Text.toBytes_inj {s t : Text} :
    Text.toBytes s = Text.toBytes t ↔ s = t := by
  unfold Text.toBytes String.toUTF8
  rw [String.toByteArray_inj, String.ofList_inj]

theorem upToDate_iff_consistent {fs fs' : FileSystem}
    {artifacts : List Artifact} {report : WriteReport}
    (h : fs.perform (writeArtifacts artifacts) = (.ok report, fs')) :
    (∀ a ∈ artifacts, a.UpToDate fs') ↔ Consistent fs artifacts := by
  obtain ⟨hgrows, hread⟩ := writeArtifacts_ok h
  constructor
  · intro hup a ha b hb hplace
    obtain ⟨-, hnode, -⟩ := read_eq_ok_iff.mp (hup a ha)
    obtain ⟨-, hnode', -⟩ := read_eq_ok_iff.mp (hup b hb)
    rw [hgrows.place_eq] at hnode hnode'
    rw [hplace, hnode', Option.some_inj, Node.file.injEq] at hnode
    exact (Text.toBytes_inj.mp hnode).symm
  · intro hconsistent a ha
    obtain ⟨b, hb, hplace, hready⟩ := hread a ha
    rwa [hconsistent b hb a ha hplace] at hready

/-- Artifacts whose paths start alike and do not lead up have files of their
own. -/
theorem Command.places_pairwise_ne {fs fs₁ : FileSystem} {input : Input}
    {dirs : OutputDirs} {plan : Command.Plan}
    (h : fs.perform (Command.plan input dirs) = (.ok plan, fs₁)) :
    plan.artifacts.Pairwise fun a b =>
      .parent ∉ a.path.steps → .parent ∉ b.path.steps →
        a.path.lead = b.path.lead → fs.place a.path ≠ fs.place b.path := by
  obtain ⟨config, -, headers, -, -, hartifacts⟩ := Command.exists_of_plan h
  refine (renderAll_paths hartifacts).2.imp ?_
  intro a b hdiffer ha hb hlead hplace
  rw [Path.same_of_foldl_eq ha hb hlead hplace] at hdiffer
  contradiction

/-- After a run that succeeds, the files are as planned if and only if artifacts
that share a file have the same contents.  Only then a check finds nothing to
complain about, and then a second run writes nothing. -/
theorem Command.generate_again_iff {fs fs' : FileSystem} {input : Input}
    {dirs : OutputDirs} {args checkArgs : List Text} {outcome : Outcome}
    (hargs : Invocation.parse? args = some (.generate input dirs false))
    (hcheck : Invocation.parse? checkArgs = some (.generate input dirs true))
    (hrun : (Command.run args : StateM FileSystem Outcome).run fs =
      (outcome, fs'))
    (hcode : outcome.code = 0) :
    ∃ plan, fs.perform (Command.plan input dirs) = (.ok plan, fs) ∧
      (plan.artifacts.Pairwise fun a b =>
        .parent ∉ a.path.steps → .parent ∉ b.path.steps →
          a.path.lead = b.path.lead → fs.place a.path ≠ fs.place b.path) ∧
      ((∀ a ∈ plan.artifacts, a.UpToDate fs') ↔ Consistent fs plan.artifacts) ∧
      (plan.Apart fs input →
        (∃ checked,
          (Command.run checkArgs : StateM FileSystem Outcome).run fs' =
            (checked, fs') ∧
          (checked.code = 0 ↔ Consistent fs plan.artifacts)) ∧
        (Consistent fs plan.artifacts →
          (Command.run args : StateM FileSystem Outcome).run fs' =
            ({ code := 0
               stdout := Text.concat ["📝 ", Text.ofNat 0, " files written, ",
                 Text.ofNat plan.artifacts.length, " unchanged\n"] },
              fs'))) := by
  rw [Command.run_generate fs hargs] at hrun
  obtain ⟨houtcome, hstate⟩ := Prod.mk.inj hrun
  rw [← houtcome, Command.code_eq_zero_iff] at hcode
  obtain ⟨text, htext⟩ := hcode
  have hgenerate : fs.perform (Command.generate input dirs false) =
      (.ok text, fs') := Prod.ext htext hstate
  obtain ⟨plan, report, hplan, hwrite⟩ := Command.exists_of_generate hgenerate
  have hup := upToDate_iff_consistent hwrite
  refine ⟨plan, hplan, Command.places_pairwise_ne hplan, hup, ?_⟩
  intro hapart
  have hplan' :=
    Command.perform_plan_again hplan hapart (writeArtifacts_ok hwrite).1
  constructor
  · have hready :
        ∀ a ∈ plan.artifacts, ∃ stale, a.staleness fs' = .ok stale := by
      intro a ha
      obtain ⟨b, -, -, hread⟩ := (writeArtifacts_ok hwrite).2 a ha
      exact ⟨_, by rw [Artifact.staleness, hread]⟩
    obtain ⟨result, hresult, hok⟩ := Command.perform_checkFiles hready
    refine ⟨Outcome.ofResult result, ?_, ?_⟩
    · rw [Command.run_generate fs' hcheck, Command.perform_generate hplan',
        if_pos rfl, hresult]
    · rw [Command.code_eq_zero_iff, hok, hup]
  · intro hconsistent
    rw [Command.run_generate fs' hargs, Command.perform_generate hplan',
      if_neg Bool.false_ne_true,
      Command.perform_writeFiles_upToDate (hup.mpr hconsistent)]
    rfl

/-- Two empty headers in one directory. -/
def twoHeaders : FileSystem where
  nodes := [(["a".toList, "mesh.h".toList], .file .empty),
    (["a".toList, "scene.h".toList], .file .empty), (["a".toList], .directory)]
  rooted := by
    have hdir : Rooted [(["a".toList], .directory)] :=
      Rooted.nil.cons rfl fun _ => rfl
    have hscene : Rooted [(["a".toList, "scene.h".toList], .file .empty),
        (["a".toList], .directory)] :=
      hdir.cons rfl fun h => absurd h (by decide)
    exact hscene.cons rfl fun h => absurd h (by decide)

/-- Two empty headers in directories of their own. -/
def separateHeaders : FileSystem where
  nodes := [(["a".toList, "mesh.h".toList], .file .empty),
    (["b".toList, "list.h".toList], .file .empty), (["a".toList], .directory),
    (["b".toList], .directory)]
  rooted := by
    have hb : Rooted [(["b".toList], .directory)] :=
      Rooted.nil.cons rfl fun _ => rfl
    have ha : Rooted [(["a".toList], .directory), (["b".toList], .directory)] :=
      hb.cons rfl fun _ => rfl
    have hlist : Rooted [(["b".toList, "list.h".toList], .file .empty),
        (["a".toList], .directory), (["b".toList], .directory)] :=
      ha.cons rfl fun h => absurd h (by decide)
    exact hlist.cons rfl fun h => absurd h (by decide)

/-- The headers have files of their own, so nothing is lost. -/
theorem Command.generate_again_separate :
    let args : List Text := ["generate", "a/mesh.h", "b/list.h"]
    let checkArgs : List Text :=
      ["generate", "--check", "a/mesh.h", "b/list.h"]
    ∃ fs', (∃ outcome, (Command.run args : StateM FileSystem Outcome).run
          separateHeaders = (outcome, fs') ∧ outcome.code = 0) ∧
      (∃ checked, (Command.run checkArgs : StateM FileSystem Outcome).run
          fs' = (checked, fs') ∧ checked.code = 0) ∧
      (Command.run args : StateM FileSystem Outcome).run fs' =
        ({ code := 0, stdout := "📝 0 files written, 2 unchanged\n" },
          fs') := by
  intro args checkArgs
  let headers : List Path := ["a/mesh.h", "b/list.h"]
  let files : List Path :=
    ["a/emscripten-bindings.cpp", "b/emscripten-bindings.cpp"]
  have hargs : Invocation.parse? args =
      some (.generate { headers } {} false) := by decide +kernel
  have hcheck : Invocation.parse? checkArgs =
      some (.generate { headers } {} true) := by decide +kernel
  have hcode : ((Command.run args : StateM FileSystem Outcome).run
      separateHeaders).1.code = 0 := by decide +kernel
  rcases hrun : (Command.run args : StateM FileSystem Outcome).run
    separateHeaders with ⟨outcome, fs'⟩
  rw [hrun] at hcode
  obtain ⟨plan, hplan, -, -, hagain⟩ :=
    Command.generate_again_iff hargs hcheck hrun hcode
  have hshape : (separateHeaders.perform (Command.plan
      { headers } {})).1.toOption.map
        (fun plan => (plan.config.headers, plan.artifacts.map Artifact.path)) =
      some (headers, files) := by decide +kernel
  rw [hplan] at hshape
  simp only [Except.toOption, Option.map_some, Option.some.injEq,
    Prod.mk.injEq] at hshape
  obtain ⟨hheaders, hpaths⟩ := hshape
  have hplaces : plan.artifacts.map (fun a => separateHeaders.place a.path) =
      files.map separateHeaders.place := by
    rw [← hpaths, List.map_map]
    rfl
  have hapart : plan.Apart separateHeaders { headers } :=
    { header_isFile := by
        rw [hheaders]
        decide +kernel
      header_apart := by
        rw [hheaders, hplaces]
        decide +kernel
      config_apart := by simp }
  have hlength : plan.artifacts.length = 2 := by
    simpa [files] using congrArg List.length hpaths
  have hconsistent : Consistent separateHeaders plan.artifacts := by
    have hdifferent : (plan.artifacts.map
        fun a => separateHeaders.place a.path).Nodup := by
      rw [hplaces]
      decide +kernel
    intro a ha b hb hplace
    rw [List.inj_on_of_nodup_map hdifferent ha hb hplace]
  obtain ⟨⟨checked, hchecked, hiff⟩, hsecond⟩ := hagain hapart
  refine ⟨fs', ⟨outcome, rfl, hcode⟩,
    ⟨checked, hchecked, hiff.mpr hconsistent⟩, ?_⟩
  have hreport : Text.concat ["📝 ", Text.ofNat 0, " files written, ",
      Text.ofNat 2, " unchanged\n"] =
        "📝 0 files written, 2 unchanged\n".toList := by
    decide +kernel
  rw [hsecond hconsistent, hlength, hreport]

/-- Headers of one directory that are spelled differently share a file, and the
bindings of the first are lost. -/
theorem Command.bindings_lost :
    let fs' := ((Command.run ["generate", "a/mesh.h", "./a/scene.h"] :
      StateM FileSystem Outcome).run twoHeaders).2
    twoHeaders.kind? "a/mesh.h" = some .file ∧
      twoHeaders.kind? "./a/scene.h" = some .file ∧
      ((Command.run ["generate", "a/mesh.h", "./a/scene.h"] :
        StateM FileSystem Outcome).run twoHeaders).1.code = 0 ∧
      ((Command.run ["generate", "a/mesh.h", "./a/scene.h"] :
        StateM FileSystem Outcome).run fs').1 =
          { code := 0, stdout := "📝 2 files written, 0 unchanged\n" } := by
  decide +kernel

end Bindery
