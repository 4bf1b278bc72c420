import Bindery.Files.Monad
import Bindery.Proofs.Paths

/-!
# What the program does to a file system

The program makes directories and writes files; it never removes anything.
`FileSystem.Grows` says this of a file system before and after: nodes stay, a
directory may come into being where nothing was, and at the given locations a
file may take the place of whatever is no directory.

A path that leads somewhere then still leads there afterwards.  The converse
holds for files, as what lies above a file is in place as soon as the file is.
-/

namespace Bindery

/-! ## Running actions -/

namespace FileSystem

section

variable {ε ε' α β : Type} (fs : FileSystem)

/-- What an action answers, and the file system after it. -/
def perform (action : ExceptT ε (StateM FileSystem) α) :
    Except ε α × FileSystem :=
  action.run.run fs

theorem perform_pure (a : α) :
    fs.perform (pure a : ExceptT ε (StateM FileSystem) α) = (.ok a, fs) :=
  rfl

theorem perform_throw (e : ε) :
    fs.perform (throw e : ExceptT ε (StateM FileSystem) α) = (.error e, fs) :=
  rfl

theorem perform_bind (action : ExceptT ε (StateM FileSystem) α)
    (next : α → ExceptT ε (StateM FileSystem) β) :
    fs.perform (action >>= next) =
      match fs.perform action with
      | (.ok a, fs') => fs'.perform (next a)
      | (.error e, fs') => (.error e, fs') := by
  unfold perform ExceptT.run StateT.run
  simp only [bind, ExceptT.bind, ExceptT.mk, StateT.bind, ExceptT.bindCont]
  rcases action fs with ⟨_ | _, fs'⟩
  all_goals rfl

theorem perform_tryCatch (action : ExceptT ε (StateM FileSystem) α)
    (handle : ε → ExceptT ε (StateM FileSystem) α) :
    fs.perform (tryCatch action handle) =
      match fs.perform action with
      | (.ok a, fs') => (.ok a, fs')
      | (.error e, fs') => fs'.perform (handle e) := by
  unfold perform ExceptT.run StateT.run
  simp only [tryCatch, tryCatchThe, MonadExceptOf.tryCatch, ExceptT.tryCatch,
    ExceptT.mk, bind, StateT.bind]
  rcases action fs with ⟨_ | _, fs'⟩
  all_goals rfl

theorem perform_adapt (f : ε → ε') (action : ExceptT ε (StateM FileSystem) α) :
    fs.perform (ExceptT.adapt f action) =
      ((fs.perform action).1.mapError f, (fs.perform action).2) :=
  rfl

theorem perform_lift (action : StateM FileSystem α) :
    fs.perform (liftM action : ExceptT ε (StateM FileSystem) α) =
      (.ok (action fs).1, (action fs).2) :=
  rfl

end

/-! ## Where paths lead -/

/-- Where a path leads if it leads anywhere. -/
def place (fs : FileSystem) (p : Path) : Location :=
  p.steps.foldl stepFrom fs.workingDir

theorem foldl_of_follow {fs : FileSystem} {loc loc' : Location}
    {steps : List Component} (h : fs.follow loc steps = .ok loc') :
    loc' = steps.foldl stepFrom loc := by
  fun_induction follow fs loc steps with
  | case1 => exact (Except.ok.inj h).symm
  | case2 => contradiction
  | case3 => contradiction
  | case4 => contradiction
  | case5 loc step steps _ _ ih => exact ih h

/-- A step is taken from a directory only. -/
theorem directory_of_follow {fs : FileSystem} {loc loc' : Location}
    {step : Component} {steps : List Component}
    (h : fs.follow loc (step :: steps) = .ok loc') :
    fs.node? loc = some .directory := by
  rw [follow] at h
  split at h
  · contradiction
  · contradiction
  · assumption

theorem follow_append (fs : FileSystem) (loc : Location)
    (steps steps' : List Component) :
    fs.follow loc (steps ++ steps') =
      match fs.follow loc steps with
      | .ok loc' => fs.follow loc' steps'
      | .error fault => .error fault := by
  fun_induction follow fs loc steps with
  | case1 => rfl
  | case2 loc step steps hnode => simp [follow, hnode]
  | case3 loc step steps bytes hnode => simp [follow, hnode]
  | case4 loc step steps hdir hlong => simp [follow, hdir, hlong]
  | case5 loc step steps hdir hlong ih => simpa [follow, hdir, hlong] using ih

theorem resolve_eq_ok_iff {fs : FileSystem} {p : Path} {loc : Location} :
    fs.resolve p = .ok loc ↔
      p.fault? = none ∧ fs.follow fs.workingDir p.steps = .ok loc := by
  unfold resolve resolveSteps
  cases p.fault? with
  | none => simp
  | some fault => simp

theorem place_of_resolve {fs : FileSystem} {p : Path} {loc : Location}
    (h : fs.resolve p = .ok loc) : loc = fs.place p :=
  foldl_of_follow (resolve_eq_ok_iff.mp h).2

/-- A path leads nowhere if the working directory is gone. -/
theorem workingDir_of_resolve {fs : FileSystem} {p : Path} {loc : Location}
    (h : fs.resolve p = .ok loc) :
    fs.node? fs.workingDir = some .directory := by
  obtain ⟨hfault, hfollow⟩ := resolve_eq_ok_iff.mp h
  obtain ⟨step, steps, hsteps⟩ :=
    List.exists_cons_of_ne_nil (steps_ne_nil hfault)
  rw [hsteps] at hfollow
  exact directory_of_follow hfollow

theorem read_eq_ok_iff {fs : FileSystem} {p : Path} {bytes : ByteArray} :
    fs.read p = .ok bytes ↔
      fs.resolve p = .ok (fs.place p) ∧
        fs.node? (fs.place p) = some (.file bytes) ∧ p.endsInSlash = false := by
  unfold read lookup
  cases hresolve : fs.resolve p with
  | error fault => simp [bind, Except.bind]
  | ok loc =>
      obtain rfl := place_of_resolve hresolve
      simp only [bind, Except.bind, true_and]
      cases hnode : fs.node? (fs.place p) with
      | none => simp
      | some node =>
          cases node with
          | directory => simp
          | file contents => cases p.endsInSlash <;> simp

theorem kind?_eq_file_iff {fs : FileSystem} {p : Path} :
    fs.kind? p = some .file ↔ ∃ bytes, fs.read p = .ok bytes := by
  unfold kind? read
  cases fs.lookup p with
  | error fault => simp [bind, Except.bind]
  | ok found =>
      obtain ⟨loc, node⟩ := found
      cases node with
      | directory => simp [bind, Except.bind]
      | file bytes => simp [bind, Except.bind]

theorem read_of_notFound {fs : FileSystem} {p : Path}
    (h : fs.resolve p = .error .notFound) : fs.read p = .error .notFound := by
  simp [read, lookup, h, bind, Except.bind]

theorem read_of_none {fs : FileSystem} {p : Path} {loc : Location}
    (h : fs.resolve p = .ok loc) (hnode : fs.node? loc = none) :
    fs.read p = .error .notFound := by
  simp [read, lookup, h, hnode, bind, Except.bind]

/-! What lies above a node are directories. -/

theorem node?_of_isPrefix {fs : FileSystem} {loc loc' : Location}
    (hle : loc <+: loc') (hne : loc ≠ loc') (h : fs.node? loc' ≠ none) :
    fs.node? loc = some .directory := by
  obtain ⟨names, rfl⟩ := hle
  induction names using List.reverseRecOn with
  | nil => simp at hne
  | append_singleton names name ih =>
      have habove : fs.node? (loc ++ names) = some .directory := by
        have hparent := fs.node?_dropLast h
        rwa [← List.append_assoc, List.dropLast_concat] at hparent
      by_cases hnames : names = []
      · rwa [hnames, List.append_nil] at habove
      · exact ih (by simpa using hnames) (by simp [habove])

/-- A step that does not lead up. -/
def Descends (step : Component) : Prop := step ≠ .root ∧ step ≠ .parent

theorem descends_of_mem_pieces {p : Path} (h : .parent ∉ p.steps)
    {step : Component} (hstep : step ∈ p.pieces.map Component.ofPiece) :
    Descends step := by
  rw [Path.steps, List.mem_append, not_or] at h
  refine ⟨?_, fun heq => h.2 (heq ▸ hstep)⟩
  obtain ⟨piece, _, rfl⟩ := List.mem_map.mp hstep
  exact Path.ofPiece_ne_root piece

theorem prefix_foldl_stepFrom {steps : List Component}
    (h : ∀ step ∈ steps, Descends step) (loc : Location) :
    loc <+: steps.foldl stepFrom loc := by
  induction steps generalizing loc with
  | nil => exact List.prefix_rfl
  | cons step steps ih =>
      simp only [List.mem_cons, forall_eq_or_imp] at h
      have hstep : loc <+: stepFrom loc step := by
        cases step with
        | root => exact absurd rfl h.1.1
        | current => exact List.prefix_rfl
        | parent => exact absurd rfl h.1.2
        | name name => exact List.prefix_append _ _
      exact hstep.trans (ih h.2 _)

/-! ## Growth -/

/-- How a node may change over time. -/
inductive NodeGrows (mayWrite : Prop) : Option Node → Option Node → Prop
  | same (node : Option Node) : NodeGrows mayWrite node node
  | made : NodeGrows mayWrite none (some .directory)
  | written {node : Option Node} (h : mayWrite)
      (hnode : node ≠ some .directory) (bytes : ByteArray) :
      NodeGrows mayWrite node (some (.file bytes))

/-- Directories are made, and files are written at the given locations. -/
structure Grows (written : List Location) (fs fs' : FileSystem) : Prop where
  workingDir_eq : fs'.workingDir = fs.workingDir
  node : ∀ loc, NodeGrows (loc ∈ written) (fs.node? loc) (fs'.node? loc)
  /-- The working directory is not made. -/
  anchored : fs'.node? fs.workingDir = some .directory →
    fs.node? fs.workingDir = some .directory

namespace NodeGrows

variable {p q : Prop} {node node' node'' : Option Node}

theorem trans (h : NodeGrows p node node') (h' : NodeGrows p node' node'') :
    NodeGrows p node node'' := by
  cases h with
  | same => exact h'
  | made =>
      cases h' with
      | same => exact .made
      | written _ hnode => contradiction
  | written hp hnode bytes =>
      cases h' with
      | same => exact .written hp hnode bytes
      | written _ _ bytes' => exact .written hp hnode bytes'

theorem mono (h : NodeGrows p node node') (hpq : p → q) :
    NodeGrows q node node' := by
  cases h with
  | same => exact .same _
  | made => exact .made
  | written hp hnode bytes => exact .written (hpq hp) hnode bytes

theorem directory (h : NodeGrows p (some .directory) node) :
    node = some .directory := by
  cases h with
  | same => rfl
  | written _ hnode => contradiction

theorem of_directory (h : NodeGrows p node (some .directory)) :
    node = some .directory ∨ node = none := by
  cases h with
  | same => exact .inl rfl
  | made => exact .inr rfl

theorem file_iff (h : NodeGrows p node node') (hp : ¬ p) (bytes : ByteArray) :
    node' = some (.file bytes) ↔ node = some (.file bytes) := by
  cases h with
  | same => exact Iff.rfl
  | made => simp
  | written => contradiction

end NodeGrows

namespace Grows

variable {written written' : List Location} {fs fs' fs'' : FileSystem}

theorem refl (written : List Location) (fs : FileSystem) :
    fs.Grows written fs :=
  ⟨rfl, fun _ => .same _, id⟩

theorem trans (h : fs.Grows written fs') (h' : fs'.Grows written fs'') :
    fs.Grows written fs'' := by
  refine ⟨h'.workingDir_eq.trans h.workingDir_eq, ?_, ?_⟩
  · exact fun loc => (h.node loc).trans (h'.node loc)
  · intro hdir
    apply h.anchored
    rw [← h.workingDir_eq] at hdir ⊢
    exact h'.anchored hdir

theorem mono (h : fs.Grows written fs')
    (hsub : ∀ loc ∈ written, loc ∈ written') :
    fs.Grows written' fs' :=
  ⟨h.workingDir_eq, fun loc => (h.node loc).mono (hsub loc), h.anchored⟩

theorem place_eq (h : fs.Grows written fs') (p : Path) :
    fs'.place p = fs.place p := by
  rw [place, place, h.workingDir_eq]

theorem node_directory (h : fs.Grows written fs') {loc : Location}
    (hdir : fs.node? loc = some .directory) :
    fs'.node? loc = some .directory :=
  (hdir ▸ h.node loc).directory

/-- Files outside the written locations are the same. -/
theorem node_file_iff (h : fs.Grows written fs') {loc : Location}
    (hloc : loc ∉ written) (bytes : ByteArray) :
    fs'.node? loc = some (.file bytes) ↔ fs.node? loc = some (.file bytes) :=
  (h.node loc).file_iff hloc bytes

/-! A path that leads somewhere still does so later. -/

theorem follow (h : fs.Grows written fs') {loc loc' : Location}
    {steps : List Component} (hfollow : fs.follow loc steps = .ok loc') :
    fs'.follow loc steps = .ok loc' := by
  fun_induction FileSystem.follow fs loc steps with
  | case1 => exact hfollow
  | case2 => contradiction
  | case3 => contradiction
  | case4 => contradiction
  | case5 loc step steps hdir hlong ih =>
      rw [FileSystem.follow, h.node_directory hdir]
      simp only [hlong]
      exact ih hfollow

theorem resolve (h : fs.Grows written fs') {p : Path} {loc : Location}
    (hresolve : fs.resolve p = .ok loc) : fs'.resolve p = .ok loc := by
  obtain ⟨hfault, hfollow⟩ := resolve_eq_ok_iff.mp hresolve
  apply resolve_eq_ok_iff.mpr
  rw [h.workingDir_eq]
  exact ⟨hfault, h.follow hfollow⟩

theorem read (h : fs.Grows written fs') {p : Path} {bytes : ByteArray}
    (hplace : fs.place p ∉ written) (hread : fs.read p = .ok bytes) :
    fs'.read p = .ok bytes := by
  obtain ⟨hresolve, hnode, hslash⟩ := read_eq_ok_iff.mp hread
  apply read_eq_ok_iff.mpr
  rw [h.place_eq]
  exact ⟨h.resolve hresolve, (h.node_file_iff hplace bytes).mpr hnode, hslash⟩

/-- Paths that lead to one file read the same. -/
theorem read_shared (h : fs.Grows written fs') {p q : Path}
    {bytes bytes' : ByteArray} (hread : fs.read p = .ok bytes)
    (hread' : fs'.read q = .ok bytes') (hplace : fs.place q = fs.place p) :
    fs'.read p = .ok bytes' := by
  obtain ⟨hresolve, _, hslash⟩ := read_eq_ok_iff.mp hread
  obtain ⟨_, hnode, _⟩ := read_eq_ok_iff.mp hread'
  apply read_eq_ok_iff.mpr
  rw [h.place_eq, hplace] at hnode
  rw [h.place_eq]
  exact ⟨h.resolve hresolve, hnode, hslash⟩

/-! What leads somewhere later did so before, or something was missing. -/

theorem follow_before (h : fs.Grows written fs') {loc loc' : Location}
    {steps : List Component} (hfollow : fs'.follow loc steps = .ok loc') :
    fs.follow loc steps = .ok loc' ∨
      fs.follow loc steps = .error .notFound := by
  fun_induction FileSystem.follow fs' loc steps with
  | case1 => exact .inl hfollow
  | case2 => contradiction
  | case3 => contradiction
  | case4 => contradiction
  | case5 loc step steps hdir hlong ih =>
      have hnode := h.node loc
      rw [hdir] at hnode
      rw [FileSystem.follow]
      rcases hnode.of_directory with hbefore | hbefore
      · simp only [hbefore, hlong]
        exact ih hfollow
      · exact .inr (by simp [hbefore])

theorem resolve_before (h : fs.Grows written fs') {p : Path} {loc : Location}
    (hresolve : fs'.resolve p = .ok loc) :
    fs.resolve p = .ok loc ∨ fs.resolve p = .error .notFound := by
  obtain ⟨hfault, hfollow⟩ := resolve_eq_ok_iff.mp hresolve
  rw [h.workingDir_eq] at hfollow
  unfold FileSystem.resolve resolveSteps
  rw [hfault]
  exact h.follow_before hfollow

/-- What can be read later could be read before, or was missing. -/
theorem read_or_notFound (h : fs.Grows written fs') {p : Path}
    {bytes : ByteArray} (hread : fs'.read p = .ok bytes) :
    (∃ bytes', fs.read p = .ok bytes') ∨ fs.read p = .error .notFound := by
  obtain ⟨hresolve, hnode, hslash⟩ := read_eq_ok_iff.mp hread
  rw [h.place_eq] at hresolve hnode
  rcases h.resolve_before hresolve with hbefore | hbefore
  · cases hnode' : fs.node? (fs.place p) with
    | none => exact .inr (read_of_none hbefore hnode')
    | some node =>
        cases node with
        | directory =>
            rw [h.node_directory hnode'] at hnode
            simp at hnode
        | file bytes' =>
            exact .inl ⟨bytes', read_eq_ok_iff.mpr ⟨hbefore, hnode', hslash⟩⟩
  · exact .inr (read_of_notFound hbefore)

/-- What lies beside a file that can be read did not become readable. -/
theorem read_beside (h : fs.Grows written fs') {p q u : Path} {name : Text}
    {bytes bytes' : ByteArray} (hread : fs.read p = .ok bytes)
    (hq : q.steps <+: p.steps) (hu : u.steps = q.steps ++ [.name name])
    (hplace : fs.place u ∉ written) (hread' : fs'.read u = .ok bytes') :
    fs.read u = .ok bytes' := by
  obtain ⟨more, hmore⟩ := hq
  obtain ⟨hresolve, hnode, -⟩ := read_eq_ok_iff.mp hread
  obtain ⟨hresolve', hnode', hslash'⟩ := read_eq_ok_iff.mp hread'
  obtain ⟨-, hfollow⟩ := resolve_eq_ok_iff.mp hresolve
  obtain ⟨hfault', hfollow'⟩ := resolve_eq_ok_iff.mp hresolve'
  rw [h.place_eq, h.node_file_iff hplace] at hnode'
  rw [h.place_eq, h.workingDir_eq, hu, follow_append] at hfollow'
  rw [← hmore, follow_append] at hfollow
  refine read_eq_ok_iff.mpr
    ⟨resolve_eq_ok_iff.mpr ⟨hfault', ?_⟩, hnode', hslash'⟩
  rw [hu, follow_append]
  cases hdir : fs.follow fs.workingDir q.steps with
  | error fault =>
      rw [hdir] at hfollow
      contradiction
  | ok loc =>
      rw [hdir] at hfollow
      rw [h.follow hdir] at hfollow'
      simp only at hfollow hfollow' ⊢
      have hbefore : fs.node? loc = some .directory := by
        cases more with
        | nil =>
            obtain rfl := Except.ok.inj hfollow
            have hfile := h.node (fs.place p)
            rw [hnode, directory_of_follow hfollow'] at hfile
            contradiction
        | cons step more => exact directory_of_follow hfollow
      rw [FileSystem.follow, directory_of_follow hfollow'] at hfollow'
      rw [FileSystem.follow, hbefore]
      exact hfollow'

theorem follow_file (h : fs.Grows written fs') {loc loc' : Location}
    {steps : List Component} (hsteps : ∀ step ∈ steps, Descends step)
    {bytes : ByteArray} (hnode : fs.node? loc' = some (.file bytes))
    (hfollow : fs'.follow loc steps = .ok loc') :
    fs.follow loc steps = .ok loc' := by
  fun_induction FileSystem.follow fs' loc steps with
  | case1 => exact hfollow
  | case2 => contradiction
  | case3 => contradiction
  | case4 => contradiction
  | case5 loc step steps hdir hlong ih =>
      have hle : loc <+: loc' := by
        rw [foldl_of_follow hfollow]
        exact prefix_foldl_stepFrom hsteps loc
      have hne : loc ≠ loc' := by
        rintro rfl
        have hfile := h.node loc
        rw [hnode, hdir] at hfile
        contradiction
      have hbefore : fs.node? loc = some .directory :=
        node?_of_isPrefix hle hne (by simp [hnode])
      simp only [List.mem_cons, forall_eq_or_imp] at hsteps
      rw [FileSystem.follow, hbefore]
      simp only [hlong]
      exact ih hsteps.2 hfollow

/-- A file that can be read later was there before, and could be read. -/
theorem read_before (h : fs.Grows written fs') {p : Path} {bytes : ByteArray}
    (hparent : .parent ∉ p.steps) (hplace : fs.place p ∉ written)
    (hread : fs'.read p = .ok bytes) : fs.read p = .ok bytes := by
  obtain ⟨hresolve, hnode, hslash⟩ := read_eq_ok_iff.mp hread
  obtain ⟨hfault, hfollow⟩ := resolve_eq_ok_iff.mp hresolve
  rw [h.place_eq, h.node_file_iff hplace] at hnode
  rw [h.place_eq, h.workingDir_eq] at hfollow
  have hfollow' : fs.follow fs.workingDir p.steps = .ok (fs.place p) := by
    have hdescends : ∀ step ∈ p.pieces.map Component.ofPiece, Descends step :=
      fun _ hstep => descends_of_mem_pieces hparent hstep
    have hdir := workingDir_of_resolve hresolve
    rw [h.workingDir_eq] at hdir
    rw [Path.steps] at hfollow ⊢
    cases habsolute : p.isAbsolute with
    | false =>
        rw [habsolute] at hfollow
        exact h.follow_file hdescends hnode hfollow
    | true =>
        -- An absolute path leaves the working directory, which must be there.
        rw [habsolute] at hfollow
        change fs'.follow fs.workingDir (.root :: _) = _ at hfollow
        change fs.follow fs.workingDir (.root :: _) = _
        rw [FileSystem.follow, hdir] at hfollow
        rw [FileSystem.follow, h.anchored hdir]
        exact h.follow_file hdescends hnode hfollow
  exact read_eq_ok_iff.mpr
    ⟨resolve_eq_ok_iff.mpr ⟨hfault, hfollow'⟩, hnode, hslash⟩

end Grows

/-! ## Single changes -/

theorem grows_setNode {fs : FileSystem} {loc : Location} {node : Node}
    {written : List Location} (hslot : fs.IsSlot loc)
    (hdir : fs.node? fs.workingDir = some .directory)
    (hnode : NodeGrows (loc ∈ written) (fs.node? loc) (some node)) :
    fs.Grows written (fs.setNode loc node hslot) := by
  refine ⟨rfl, ?_, fun _ => hdir⟩
  intro other
  rw [node?_setNode]
  by_cases heq : other = loc
  · rw [if_pos heq, heq]
    exact hnode
  · rw [if_neg heq]
    exact .same _

theorem grows_of_makeDir {fs fs' : FileSystem} {p : Path}
    (h : fs.makeDir p = .ok fs') : fs.Grows [] fs' := by
  unfold makeDir at h
  split at h
  · contradiction
  · next loc hresolve =>
    split at h
    · next hnone =>
      obtain rfl := Except.ok.inj h
      apply grows_setNode _ (workingDir_of_resolve hresolve)
      rw [hnone]
      exact .made
    · contradiction

/-- A file that was written can be read. -/
theorem grows_of_write {fs fs' : FileSystem} {p : Path} {bytes : ByteArray}
    (h : fs.write p bytes = .ok fs') :
    fs.Grows [fs.place p] fs' ∧ fs'.read p = .ok bytes := by
  unfold write at h
  split at h
  · cases hresolve : fs.resolveSteps p (p.steps.dropLast ++ [.current]) with
    | error => simp [hresolve, bind, Except.bind] at h
    | ok => simp [hresolve, bind, Except.bind] at h
  · next hslash =>
    split at h
    · contradiction
    · next loc hresolve =>
      split at h
      · contradiction
      · next hnode =>
        obtain rfl := Except.ok.inj h
        have hslot := fs.isSlot_of_resolve hresolve hnode
        have hplace := place_of_resolve hresolve
        have hgrows : fs.Grows [fs.place p]
            (fs.setNode loc (.file bytes) hslot) := by
          apply grows_setNode _ (workingDir_of_resolve hresolve)
          exact .written (by simp [hplace]) hnode bytes
        refine ⟨hgrows, read_eq_ok_iff.mpr ⟨?_, ?_, by simpa using hslash⟩⟩
        · rw [hgrows.place_eq, ← hplace]
          exact hgrows.resolve hresolve
        · rw [hgrows.place_eq, ← hplace, node?_setNode, if_pos rfl]

theorem perform_read (fs : FileSystem) (p : Path) :
    fs.perform (MonadFiles.read p) = (fs.read p, fs) :=
  rfl

theorem perform_unlessDirectory (fs : FileSystem) (p : Path) (fault : Fault) :
    fs.perform (Files.unlessDirectory p fault) =
      (if fs.kind? p = some .directory then .ok () else .error fault, fs) := by
  rw [Files.unlessDirectory, perform_bind, perform_lift]
  change fs.perform (if decide (fs.kind? p = some .directory) = true then _
    else _) = _
  by_cases h : fs.kind? p = some .directory
  · simp only [h]
    rfl
  · simp only [h]
    rfl

end FileSystem

/-! ## Making directories -/

open FileSystem

/-- Whether it succeeds or not, the action makes directories and does nothing
else. -/
def MakesDirs {ε α : Type} (action : ExceptT ε (StateM FileSystem) α) : Prop :=
  ∀ fs : FileSystem, fs.Grows [] (fs.perform action).2

namespace MakesDirs

variable {ε α β : Type} {action : ExceptT ε (StateM FileSystem) α}

theorem pure (a : α) :
    MakesDirs (Pure.pure a : ExceptT ε (StateM FileSystem) α) :=
  fun fs => .refl [] fs

theorem bind (h : MakesDirs action)
    {next : α → ExceptT ε (StateM FileSystem) β}
    (hnext : ∀ a, MakesDirs (next a)) : MakesDirs (action >>= next) := by
  intro fs
  have hfirst := h fs
  rw [perform_bind]
  rcases hresult : fs.perform action with ⟨_ | a, fs'⟩
  all_goals rw [hresult] at hfirst
  · exact hfirst
  · exact hfirst.trans (hnext a fs')

theorem tryCatch (h : MakesDirs action)
    {handle : ε → ExceptT ε (StateM FileSystem) α}
    (hhandle : ∀ e, MakesDirs (handle e)) :
    MakesDirs (MonadExcept.tryCatch action handle) := by
  intro fs
  have hfirst := h fs
  rw [perform_tryCatch]
  rcases hresult : fs.perform action with ⟨e | _, fs'⟩
  all_goals rw [hresult] at hfirst
  · exact hfirst.trans (hhandle e fs')
  · exact hfirst

theorem makeDir (p : Path) :
    MakesDirs
      (MonadFiles.makeDir p : ExceptT Fault (StateM FileSystem) Unit) := by
  intro fs
  change fs.Grows [] (attempt (·.makeDir p) fs).2
  unfold attempt
  split
  · next hok => exact grows_of_makeDir hok
  · exact .refl [] fs

theorem unlessDirectory (p : Path) (fault : Fault) :
    MakesDirs (Files.unlessDirectory p fault :
      ExceptT Fault (StateM FileSystem) Unit) := by
  intro fs
  rw [perform_unlessDirectory]
  exact .refl [] fs

theorem ensureDir (p : Path) :
    MakesDirs (Files.ensureDir p : ExceptT Fault (StateM FileSystem) Unit) :=
  (makeDir p).tryCatch (unlessDirectory p)

theorem ensureDirsWithin (depth : Nat) (p : Path) :
    MakesDirs (Files.ensureDirsWithin depth p :
      ExceptT Fault (StateM FileSystem) Unit) := by
  induction depth generalizing p with
  | zero => exact ensureDir p
  | succ depth ih =>
      unfold Files.ensureDirsWithin
      split
      · exact pure ()
      · apply (makeDir p).tryCatch
        intro fault
        split
        · next parent _ => exact (ih parent).bind fun _ => ensureDir p
        · exact unlessDirectory p _

theorem ensureParent (p : Path) :
    MakesDirs
      (Files.ensureParent p : ExceptT Fault (StateM FileSystem) Unit) := by
  unfold Files.ensureParent
  split
  · split
    · exact pure ()
    · exact ensureDirsWithin _ _
  · exact pure ()

end MakesDirs

/-- A file is written as a whole or not at all. -/
theorem FileSystem.perform_writeWithDirs (fs : FileSystem) (p : Path)
    (bytes : ByteArray) :
    match fs.perform (Files.writeWithDirs p bytes) with
    | (.ok _, fs') => fs.Grows [fs.place p] fs' ∧ fs'.read p = .ok bytes
    | (.error _, fs') => fs.Grows [] fs' := by
  have hparent := MakesDirs.ensureParent p fs
  rw [Files.writeWithDirs, perform_bind]
  rcases hresult : fs.perform (Files.ensureParent p) with ⟨_ | _, fs'⟩
  all_goals rw [hresult] at hparent
  · exact hparent
  · change match attempt (·.write p bytes) fs' with
      | (.ok _, fs') => _
      | (.error _, fs') => _
    unfold attempt
    cases hwrite : fs'.write p bytes with
    | error => simpa only [hwrite] using hparent
    | ok fs'' =>
        simp only [hwrite]
        obtain ⟨hgrows, hread⟩ := grows_of_write hwrite
        have hplace : fs'.place p = fs.place p := hparent.place_eq p
        rw [hplace] at hgrows
        exact ⟨(hparent.mono (by simp)).trans hgrows, hread⟩

end Bindery
