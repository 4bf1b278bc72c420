import Bindery.Files.Fault
import Bindery.Files.Path

/-!
# File systems

A file system assigns nodes to locations.  A path is followed step by step from
the working directory or from the root, and each step starts from a directory.
So a path names a location even if nothing is there yet, as long as all that
comes before its last step is in place.  The lengths of paths and names are
limited; they are counted in bytes.

Whatever there is lies in a directory.  A file system carries this with it, and
each change shows that it keeps it.
-/

namespace Bindery

/-- The names that lead from the root to a node. -/
abbrev Location := List Text

inductive Node where
  | directory
  | file (bytes : ByteArray)

instance (node : Option Node) : Decidable (node = some .directory) :=
  match node with
  | some .directory => .isTrue rfl
  | some (.file _) => .isFalse nofun
  | none => .isFalse nofun

/-- The node at a location.  The first entry for it counts; the root is not
listed. -/
def nodeIn? (nodes : List (Location × Node)) (loc : Location) : Option Node :=
  if loc = [] then some .directory else nodes.lookup loc

/-- Whatever there is lies in a directory. -/
def Rooted (nodes : List (Location × Node)) : Prop :=
  ∀ loc, nodeIn? nodes loc ≠ none → nodeIn? nodes loc.dropLast = some .directory

theorem nodeIn?_cons (loc other : Location) (node : Node)
    (nodes : List (Location × Node)) :
    nodeIn? ((loc, node) :: nodes) other =
      if other ≠ [] ∧ other = loc then some node else nodeIn? nodes other := by
  by_cases h : other = []
  · simp [nodeIn?, h]
  · by_cases h' : other = loc
    · subst h'
      simp [nodeIn?, h]
    · simp [nodeIn?, h, h', List.lookup_cons, beq_false_of_ne h']

theorem lookup_filter_keys (keep : Location → Bool)
    (nodes : List (Location × Node)) (loc : Location) :
    (nodes.filter fun x => keep x.1).lookup loc =
      if keep loc then nodes.lookup loc else none := by
  induction nodes with
  | nil => simp
  | cons x nodes ih =>
    obtain ⟨other, node⟩ := x
    by_cases h : loc = other
    · subst h
      cases hkeep : keep loc
      · simpa [hkeep] using ih
      · simp [hkeep]
    · have hbeq : (loc == other) = false := beq_false_of_ne h
      cases hkeep : keep other
      · simpa [hkeep, List.lookup_cons, hbeq] using ih
      · simpa [hkeep, List.lookup_cons, hbeq] using ih

theorem Rooted.nil : Rooted [] := by
  intro loc h
  have hloc : loc = [] := by simpa [nodeIn?] using h
  subst hloc
  rfl

theorem Rooted.cons {nodes : List (Location × Node)} (h : Rooted nodes)
    {loc : Location} {node : Node}
    (hparent : nodeIn? nodes loc.dropLast = some .directory)
    (hnode : nodeIn? nodes loc = some .directory → node = .directory) :
    Rooted ((loc, node) :: nodes) := by
  have hdirectory : ∀ other, nodeIn? nodes other = some .directory →
      nodeIn? ((loc, node) :: nodes) other = some .directory := by
    intro other hother
    rw [nodeIn?_cons]
    split
    · next heq => rw [hnode (heq.2 ▸ hother)]
    · exact hother
  intro other hother
  rw [nodeIn?_cons] at hother
  split at hother
  · next heq => exact hdirectory _ (heq.2 ▸ hparent)
  · exact hdirectory _ (h other hother)

theorem Rooted.filter {nodes : List (Location × Node)} (h : Rooted nodes)
    (loc : Location) :
    Rooted (nodes.filter fun x => !loc.isPrefixOf x.1) := by
  have hkept : ∀ other,
      nodeIn? (nodes.filter fun x => !loc.isPrefixOf x.1) other =
      if other = [] ∨ ¬ loc <+: other then nodeIn? nodes other else none := by
    intro other
    by_cases hother : other = []
    · simp [nodeIn?, hother]
    · by_cases hle : loc <+: other
      · simp [nodeIn?, hother, lookup_filter_keys (!loc.isPrefixOf ·), hle,
          List.isPrefixOf_iff_prefix.mpr hle]
      · have hbool : loc.isPrefixOf other = false := by
          simpa [← List.isPrefixOf_iff_prefix] using hle
        simp [nodeIn?, hother, lookup_filter_keys (!loc.isPrefixOf ·), hle,
          hbool]
  intro other hother
  rw [hkept] at hother ⊢
  split at hother
  · next habove =>
    have hparent : other.dropLast = [] ∨ ¬ loc <+: other.dropLast := by
      rcases habove with rfl | habove
      · exact .inl rfl
      · exact .inr fun hle => habove (hle.trans (List.dropLast_prefix other))
    rw [if_pos hparent]
    exact h other hother
  · contradiction

structure FileSystem where
  nodes : List (Location × Node) := []
  workingDir : Location := []
  rooted : Rooted nodes := by exact Rooted.nil

def Path.pieces (p : Path) : List Text :=
  (p.raw.splitOn '/').filter (!·.isEmpty)

def Component.ofPiece (piece : Text) : Component :=
  if piece == "." then .current
  else if piece == ".." then .parent else .name piece

/-- The steps that a path asks for.  Other than for comparing paths, each `.`
counts: it only leads on from a directory. -/
def Path.steps (p : Path) : List Component :=
  (if p.isAbsolute then [.root] else []) ++ p.pieces.map Component.ofPiece

/-- A slash at the end asks for a directory. -/
def Path.endsInSlash (p : Path) : Bool := Text.endsWith "/" p.raw

def Path.fault? (p : Path) : Option Fault :=
  if p.raw.contains '\x00' then some .nulInName
  else if p.raw.isEmpty then some .notFound
  else if 4096 ≤ Text.utf8Size p.raw then some .nameTooLong
  else none

def Component.isTooLong : Component → Bool
  | .name text => 255 < Text.utf8Size text
  | _ => false

namespace FileSystem

def node? (fs : FileSystem) (loc : Location) : Option Node :=
  nodeIn? fs.nodes loc

theorem node?_dropLast (fs : FileSystem) {loc : Location}
    (h : fs.node? loc ≠ none) :
    fs.node? loc.dropLast = some .directory :=
  fs.rooted loc h

/-- A node may be put at a location that lies in a directory and is none
itself. -/
def IsSlot (fs : FileSystem) (loc : Location) : Prop :=
  fs.node? loc.dropLast = some .directory ∧ fs.node? loc ≠ some .directory

def setNode (fs : FileSystem) (loc : Location) (node : Node)
    (h : fs.IsSlot loc) : FileSystem :=
  { fs with
    nodes := (loc, node) :: fs.nodes
    rooted := fs.rooted.cons h.1 fun hnode => absurd hnode h.2 }

theorem IsSlot.ne_nil {fs : FileSystem} {loc : Location}
    (h : fs.IsSlot loc) : loc ≠ [] := by
  rintro rfl
  exact h.2 rfl

theorem node?_setNode (fs : FileSystem) {loc : Location} (node : Node)
    (h : fs.IsSlot loc) (other : Location) :
    (fs.setNode loc node h).node? other =
      if other = loc then some node else fs.node? other := by
  have hcons : (fs.setNode loc node h).node? other =
      if other ≠ [] ∧ other = loc then some node else fs.node? other :=
    nodeIn?_cons loc other node fs.nodes
  by_cases heq : other = loc
  · rw [hcons, if_pos ⟨heq ▸ h.ne_nil, heq⟩, if_pos heq]
  · rw [hcons, if_neg (fun hboth => heq hboth.2), if_neg heq]

def stepFrom (loc : Location) : Component → Location
  | .root => []
  | .current => loc
  | .parent => loc.dropLast
  | .name name => loc ++ [name]

def follow (fs : FileSystem) (loc : Location) :
    List Component → Except Fault Location
  | [] => .ok loc
  | step :: steps =>
    match fs.node? loc with
    | none => .error .notFound
    | some (.file _) => .error .notADirectory
    | some .directory =>
      if step.isTooLong then .error .nameTooLong
      else fs.follow (stepFrom loc step) steps

def resolveSteps (fs : FileSystem) (p : Path) (steps : List Component) :
    Except Fault Location :=
  match p.fault? with
  | some fault => .error fault
  | none => fs.follow fs.workingDir steps

def resolve (fs : FileSystem) (p : Path) : Except Fault Location :=
  fs.resolveSteps p p.steps

theorem steps_ne_nil {p : Path} (h : p.fault? = none) : p.steps ≠ [] := by
  obtain ⟨raw⟩ := p
  cases raw with
  | nil => simp [Path.fault?] at h
  | cons c rest =>
    by_cases hc : c = '/'
    · simp [Path.steps, Path.isAbsolute, Text.startsWith, Text.after?, hc]
    · obtain ⟨piece, pieces, hpieces⟩ :=
        List.exists_cons_of_ne_nil (List.splitOnP_ne_nil (· == '/') rest)
      have hsplit : (c :: rest).splitOn '/' = (c :: piece) :: pieces := by
        rw [List.splitOn, List.splitOnP_cons_eq_if_modifyHead, hpieces]
        simp [hc]
      simp [Path.steps, Path.pieces, hsplit]

/-- What steps lead to and is no directory lies in one. -/
theorem isSlot_of_follow (fs : FileSystem) {loc loc' : Location}
    {steps : List Component}
    (h : fs.follow loc steps = .ok loc') (hsteps : steps ≠ [])
    (hnode : fs.node? loc' ≠ some .directory) : fs.IsSlot loc' := by
  fun_induction follow fs loc steps with
  | case1 => contradiction
  | case2 => contradiction
  | case3 => contradiction
  | case4 => contradiction
  | case5 loc step steps hdir _ ih =>
    by_cases hlast : steps = []
    · subst hlast
      obtain rfl : stepFrom loc step = loc' := Except.ok.inj h
      refine ⟨?_, hnode⟩
      cases step with
      | root => exact absurd rfl hnode
      | current => exact absurd hdir hnode
      | parent => exact absurd (fs.node?_dropLast (by simp [hdir])) hnode
      | name name => simpa [stepFrom] using hdir
    · exact ih h hlast

theorem isSlot_of_resolve (fs : FileSystem) {p : Path} {loc : Location}
    (h : fs.resolve p = .ok loc) (hnode : fs.node? loc ≠ some .directory) :
    fs.IsSlot loc := by
  unfold resolve resolveSteps at h
  split at h
  · contradiction
  · next hfault => exact fs.isSlot_of_follow h (steps_ne_nil hfault) hnode

def lookup (fs : FileSystem) (p : Path) : Except Fault (Location × Node) := do
  let loc ← fs.resolve p
  match fs.node? loc with
  | none => .error .notFound
  | some (.file bytes) =>
    if p.endsInSlash then .error .notADirectory else .ok (loc, .file bytes)
  | some .directory => .ok (loc, .directory)

def read (fs : FileSystem) (p : Path) : Except Fault ByteArray := do
  match (← fs.lookup p).2 with
  | .file bytes => .ok bytes
  | .directory => .error .isADirectory

/-- A path with a slash at the end is no file, whatever its last step leads
to. -/
def write (fs : FileSystem) (p : Path) (bytes : ByteArray) :
    Except Fault FileSystem :=
  if p.endsInSlash then do
    let _ ← fs.resolveSteps p (p.steps.dropLast ++ [.current])
    .error .isADirectory
  else
    match h : fs.resolve p with
    | .error fault => .error fault
    | .ok loc =>
      if hnode : fs.node? loc = some .directory then .error .isADirectory
      else .ok (fs.setNode loc (.file bytes) (fs.isSlot_of_resolve h hnode))

def makeDir (fs : FileSystem) (p : Path) : Except Fault FileSystem :=
  match h : fs.resolve p with
  | .error fault => .error fault
  | .ok loc =>
    if hnode : fs.node? loc = none then
      .ok (fs.setNode loc .directory (fs.isSlot_of_resolve h (by simp [hnode])))
    else .error .alreadyExists

def remove (fs : FileSystem) (p : Path) : Except Fault FileSystem := do
  let (loc, _) ← fs.lookup p
  return { fs with
    nodes := fs.nodes.filter fun x => !loc.isPrefixOf x.1
    rooted := fs.rooted.filter loc }

def filesBelow (fs : FileSystem) (loc : Location) : List Location :=
  (fs.nodes.map Prod.fst).eraseDups.filterMap fun other =>
    match fs.node? other with
    | some (.file _) =>
      if loc.isPrefixOf other then some (other.drop loc.length) else none
    | _ => none

end FileSystem

end Bindery
