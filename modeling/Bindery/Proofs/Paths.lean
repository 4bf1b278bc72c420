import Bindery.Files.System
import Bindery.Proofs.Reading
import Mathlib

/-!
# Steps and components of paths

A path is read in two ways: its components tell which paths are the same, its
steps tell where it leads.  Both come from the pieces between its slashes.

Joining a file name to a path adds one step and one component, whatever the path
is.  The parent of a path asks for some of the first steps of the path, and a
path with a file name has the components of its parent and the name.  For a path
that does not lead up, the pieces other than `.` are both its components and the
names that lead to its place, up to where it starts.
-/

namespace Bindery.Path

/-! ## Pieces -/

theorem pieces_append_slash (s t : Text) :
    pieces ⟨s ++ '/' :: t⟩ = pieces ⟨s⟩ ++ pieces ⟨t⟩ := by
  have hsplit : (s ++ '/' :: t).splitOn '/' =
      s.splitOn '/' ++ t.splitOn '/' :=
    List.splitOnP_append_cons s t rfl
  rw [pieces, hsplit, List.filter_append]
  rfl

theorem pieces_nil : pieces ⟨[]⟩ = [] := rfl

/-- A name that a file can have. -/
structure IsFileName (name : Text) : Prop where
  ne_nil : name ≠ []
  no_slash : '/' ∉ name
  ne_current : name ≠ "."
  ne_parent : name ≠ ".."

theorem IsFileName.pieces_eq {name : Text} (h : IsFileName name) :
    pieces ⟨name⟩ = [name] := by
  have hsplit : name.splitOn '/' = [name] := by
    apply List.splitOnP_eq_singleton
    intro c hc
    simp only [beq_eq_false_iff_ne]
    rintro rfl
    exact h.no_slash hc
  rw [pieces, hsplit]
  simp [h.ne_nil]

theorem IsFileName.ofPiece_eq {name : Text} (h : IsFileName name) :
    Component.ofPiece name = .name name := by
  unfold Component.ofPiece
  rw [if_neg (by simpa using h.ne_current), if_neg (by simpa using h.ne_parent)]

theorem isAbsolute_iff {p : Path} :
    p.isAbsolute = true ↔ ∃ rest, p.raw = '/' :: rest := by
  rw [isAbsolute, Text.startsWith, Option.isSome_iff_exists]
  exact exists_congr fun rest => Text.after?_eq_some_iff

theorem IsFileName.isAbsolute_eq {name : Text} (h : IsFileName name) :
    isAbsolute ⟨name⟩ = false := by
  rw [Bool.eq_false_iff, ne_eq, isAbsolute_iff]
  rintro ⟨rest, rfl⟩
  exact h.no_slash List.mem_cons_self

theorem isAbsolute_append {s : Text} (h : s ≠ []) (t : Text) :
    isAbsolute ⟨s ++ t⟩ = isAbsolute ⟨s⟩ := by
  obtain ⟨c, s, rfl⟩ := List.exists_cons_of_ne_nil h
  rw [Bool.eq_iff_iff, isAbsolute_iff, isAbsolute_iff]
  simp

/-! ## Steps -/

theorem steps_append_slash {s : Text} (h : s ≠ []) (t : Text) :
    steps ⟨s ++ '/' :: t⟩ =
      steps ⟨s⟩ ++ (pieces ⟨t⟩).map Component.ofPiece := by
  rw [steps, steps, isAbsolute_append h, pieces_append_slash, List.map_append,
    List.append_assoc]

theorem pieces_join (p : Path) {name : Text} (h : IsFileName name) :
    (p.join ⟨name⟩).pieces = p.pieces ++ [name] := by
  obtain ⟨raw⟩ := p
  rw [join, h.isAbsolute_eq, if_neg Bool.false_ne_true]
  by_cases hempty : raw = []
  · subst hempty
    exact h.pieces_eq
  · have hempty' : raw.isEmpty = false := by simpa using hempty
    rw [hempty', Bool.false_or]
    cases hslash : Text.endsWith "/" raw with
    | false =>
        rw [if_neg Bool.false_ne_true, pieces_append_slash, h.pieces_eq]
    | true =>
        obtain ⟨s, hs⟩ := Option.isSome_iff_exists.mp hslash
        have hraw : raw = s ++ ['/'] := Text.before?_eq_some_iff.mp hs
        have hpieces : pieces ⟨raw ++ name⟩ = pieces ⟨s⟩ ++ pieces ⟨name⟩ := by
          rw [hraw, List.append_assoc]
          exact pieces_append_slash s name
        rw [if_pos rfl, hpieces, h.pieces_eq, hraw, pieces_append_slash s [],
          pieces_nil, List.append_nil]

theorem isAbsolute_join (p : Path) {name : Text} (h : IsFileName name) :
    (p.join ⟨name⟩).isAbsolute = p.isAbsolute := by
  obtain ⟨raw⟩ := p
  rw [join, h.isAbsolute_eq, if_neg Bool.false_ne_true]
  by_cases hempty : raw = []
  · subst hempty
    exact h.isAbsolute_eq
  · split
    · exact isAbsolute_append hempty name
    · exact isAbsolute_append hempty ('/' :: name)

theorem steps_join (p : Path) {name : Text} (h : IsFileName name) :
    (p.join ⟨name⟩).steps = p.steps ++ [.name name] := by
  rw [steps, steps, isAbsolute_join p h, pieces_join p h, List.map_append,
    List.map_singleton, h.ofPiece_eq, List.append_assoc]

/-! ## Parents -/

theorem join_append {xs ys : List Text} (hxs : xs ≠ []) (hys : ys ≠ []) :
    Text.join "/" (xs ++ ys) = Text.join "/" xs ++ '/' :: Text.join "/" ys := by
  induction xs with
  | nil => contradiction
  | cons x xs ih =>
      by_cases hlast : xs = []
      · subst hlast
        obtain ⟨y, ys, rfl⟩ := List.exists_cons_of_ne_nil hys
        simp [Text.join, List.intercalate_cons_cons]
      · obtain ⟨z, zs, rfl⟩ := List.exists_cons_of_ne_nil hlast
        have hstep := ih hlast
        simp only [Text.join, List.cons_append, List.intercalate_cons_cons]
          at hstep ⊢
        rw [hstep]
        simp

/-- What the parts of a path say about the path. -/
theorem parts_cases (p : Path) :
    p.raw = p.parts.1 ++ Text.join "/" p.parts.2 ∧
      (p.parts.1 = [] ∨
        p.parts.1 = ['/'] ∧ (∃ rest, p.raw = '/' :: rest) ∨
        p.parts.1 = ['.'] ∧
          (p.parts.2 ≠ [] → ∃ rest, p.raw = '.' :: '/' :: rest)) := by
  have hjoin : ∀ t : Text, Text.join ['/'] (t.splitOn '/') = t :=
    fun t => List.intercalate_splitOn '/'
  unfold parts
  split
  · next rest hraw => simp [hraw, hjoin]
  · next hraw => simp [hraw, Text.join]
  · next rest hraw => simp [hraw, hjoin]
  · simp [hjoin]

theorem dropVoidEnd_isPrefix (xs : List Text) : dropVoidEnd xs <+: xs := by
  rw [dropVoidEnd, ← List.reverse_suffix, List.reverse_reverse]
  exact List.dropWhile_suffix _

/-- Without its last part a path asks for some of its first steps. -/
theorem steps_ofParts_isPrefix (p : Path) {pieces more : List Text}
    (h : p.parts.2 = pieces ++ more) (hmore : more ≠ []) :
    (ofParts p.parts.1 pieces).steps <+: p.steps := by
  obtain ⟨hraw, hlead⟩ := p.parts_cases
  rw [h] at hraw hlead
  by_cases hpieces : pieces = []
  · subst hpieces
    rcases hlead with hlead | ⟨hlead, rest, hrest⟩ | ⟨hlead, hdot⟩
    · rw [hlead]
      exact List.nil_prefix
    · have hsteps : p.steps = [.root] ++ p.pieces.map Component.ofPiece := by
        rw [steps, isAbsolute_iff.mpr ⟨rest, hrest⟩]
        rfl
      rw [hlead, hsteps]
      exact List.prefix_append _ _
    · obtain ⟨rest, hrest⟩ := hdot (by simpa using hmore)
      have hp : p = ⟨['.'] ++ '/' :: rest⟩ := by
        rw [← List.singleton_append] at hrest
        rw [← hrest]
      rw [hlead, hp, steps_append_slash (by simp)]
      exact List.prefix_append _ _
  · rw [join_append hpieces hmore, ← List.append_assoc] at hraw
    by_cases hempty : p.parts.1 ++ Text.join "/" pieces = []
    · rw [ofParts, hempty]
      exact List.nil_prefix
    · have hp : p = ⟨p.parts.1 ++ Text.join "/" pieces ++
          '/' :: Text.join "/" more⟩ := by
        rw [← hraw]
      rw [hp, steps_append_slash hempty, ← hp]
      exact List.prefix_append _ _

theorem steps_parent?_isPrefix {p q : Path} (h : p.parent? = some q) :
    q.steps <+: p.steps := by
  unfold parent? at h
  simp only at h
  split at h
  · split at h
    · obtain rfl := Option.some.inj h
      exact List.nil_prefix
    · contradiction
  · next hnonvoid =>
    obtain rfl := Option.some.inj h
    have hvoid := dropVoidEnd_isPrefix (dropVoidEnd p.parts.2).dropLast
    have hlast := List.dropLast_prefix (dropVoidEnd p.parts.2)
    obtain ⟨more, hmore⟩ :=
      (hvoid.trans hlast).trans (dropVoidEnd_isPrefix p.parts.2)
    apply steps_ofParts_isPrefix p hmore.symm
    rintro rfl
    rw [List.append_nil] at hmore
    have hle := hvoid.length_le
    have hle' := (dropVoidEnd_isPrefix p.parts.2).length_le
    have hpos := List.length_pos_of_ne_nil hnonvoid
    rw [hmore, List.length_dropLast] at hle
    omega

theorem exists_withFileName_eq (p : Path) (name : Text) :
    ∃ q : Path, q.steps <+: p.steps ∧ p.withFileName name = q.join ⟨name⟩ := by
  unfold withFileName
  split
  · cases h : p.parent? with
    | none => exact ⟨⟨[]⟩, List.nil_prefix, rfl⟩
    | some q => exact ⟨q, steps_parent?_isPrefix h, rfl⟩
  · exact ⟨p, List.prefix_rfl, rfl⟩

/-! ## Components -/

/-- Where a path starts. -/
def lead (p : Path) : List Component :=
  if p.isAbsolute then [.root]
  else if p.pieces.head? = some "." then [.current] else []

/-- The pieces of a path that name something. -/
def names (p : Path) : List Text := p.pieces.filter (· != ".")

theorem names_eq (p : Path) :
    p.names = (p.raw.splitOn '/').filter (!isVoid ·) := by
  rw [names, pieces, List.filter_filter]
  congr 1
  funext piece
  rw [isVoid, Bool.not_or, Bool.and_comm]
  rfl

theorem names_append_slash (s t : Text) :
    names ⟨s ++ '/' :: t⟩ = names ⟨s⟩ ++ names ⟨t⟩ := by
  rw [names, pieces_append_slash, List.filter_append]
  rfl

/-- The first piece of a path is a dot only if the path starts with one. -/
theorem head?_pieces_ne {p : Path} (hslash : ∀ rest, p.raw ≠ '/' :: rest)
    (hdot : p.raw ≠ ['.']) (hdots : ∀ rest, p.raw ≠ '.' :: '/' :: rest) :
    p.pieces.head? ≠ some "." := by
  obtain ⟨piece, more, hsplit⟩ :=
    List.exists_cons_of_ne_nil (List.splitOnP_ne_nil (· == '/') p.raw)
  have hsplit' : p.raw.splitOn '/' = piece :: more := hsplit
  have hraw : p.raw = Text.join ['/'] (piece :: more) := by
    rw [← hsplit']
    exact (List.intercalate_splitOn '/').symm
  intro hhead
  cases piece with
  | nil =>
      cases more with
      | nil =>
          rw [pieces, hsplit'] at hhead
          contradiction
      | cons => exact hslash _ hraw
  | cons c piece =>
      have hpiece : c :: piece = ['.'] := by
        rw [pieces, hsplit'] at hhead
        exact Option.some.inj hhead
      rw [hpiece] at hraw
      cases more with
      | nil => exact hdot hraw
      | cons => exact hdots _ hraw

theorem lead_of_slash (rest : Text) : lead ⟨'/' :: rest⟩ = [.root] := by
  rw [lead, isAbsolute_iff.mpr ⟨rest, rfl⟩]
  rfl

theorem lead_of_dot (rest : Text) : lead ⟨'.' :: '/' :: rest⟩ = [.current] := by
  have hpieces : pieces ⟨'.' :: '/' :: rest⟩ = ("." : Text) :: pieces ⟨rest⟩ :=
    pieces_append_slash ['.'] rest
  rw [lead, hpieces]
  rfl

theorem lead_of_name {p : Path} (hslash : ∀ rest, p.raw ≠ '/' :: rest)
    (hdot : p.raw ≠ ['.']) (hdots : ∀ rest, p.raw ≠ '.' :: '/' :: rest) :
    p.lead = [] := by
  have habsolute : ¬ p.isAbsolute = true := by
    rw [isAbsolute_iff]
    rintro ⟨rest, hrest⟩
    exact hslash rest hrest
  rw [lead, if_neg habsolute, if_neg (head?_pieces_ne hslash hdot hdots)]

theorem components_eq (p : Path) :
    p.components = p.lead ++ p.names.map pieceComponent := by
  obtain ⟨raw⟩ := p
  unfold components parts
  simp only
  split
  · next rest =>
    change [Component.root] ++ ((rest.splitOn '/').filter _).map _ = _
    rw [← names_eq ⟨rest⟩, lead_of_slash]
    exact congrArg _ (congrArg _ (names_append_slash [] rest).symm)
  · rfl
  · next rest =>
    change
      [Component.current] ++ ((('/' :: rest).splitOn '/').filter _).map _ = _
    rw [← names_eq ⟨'/' :: rest⟩, lead_of_dot]
    exact congrArg _ (congrArg _ (names_append_slash ['.'] rest).symm)
  · next hslash hdot hdots =>
    change [] ++ ((raw.splitOn '/').filter _).map _ = _
    rw [← names_eq ⟨raw⟩, lead_of_name hslash hdot hdots]

/-! ## Components of joined paths and of parents -/

theorem pieceComponent_eq {name : Text} (h : IsFileName name) :
    pieceComponent name = .name name := by
  rw [pieceComponent, if_neg (by simpa using h.ne_parent)]

theorem names_join (p : Path) {name : Text} (h : IsFileName name) :
    (p.join ⟨name⟩).names = p.names ++ [name] := by
  have hkept : (name != ".".toList) = true := bne_iff_ne.mpr h.ne_current
  rw [names, pieces_join p h, List.filter_append, List.filter_singleton, hkept]
  rfl

theorem lead_join (p : Path) {name : Text} (h : IsFileName name) :
    (p.join ⟨name⟩).lead = p.lead := by
  rw [lead, lead, isAbsolute_join p h, pieces_join p h]
  cases p.pieces with
  | nil =>
      have hname : (([] : List Text) ++ [name]).head? ≠ some "." :=
        fun heq => h.ne_current (Option.some.inj heq)
      rw [if_neg hname]
      rfl
  | cons piece pieces => rfl

theorem components_join (p : Path) {name : Text} (h : IsFileName name) :
    (p.join ⟨name⟩).components = p.components ++ [.name name] := by
  rw [components_eq, components_eq, lead_join p h, names_join p h,
    List.map_append, List.map_singleton, pieceComponent_eq h,
    List.append_assoc]

theorem same_join_iff {p q : Path} {name name' : Text} (h : IsFileName name)
    (h' : IsFileName name') :
    (p.join ⟨name⟩).same (q.join ⟨name'⟩) = true ↔
      p.components = q.components ∧ name = name' := by
  rw [same, decide_eq_true_eq, components_join p h, components_join q h']
  constructor
  · intro heq
    obtain ⟨hcomponents, hname⟩ := List.append_inj' heq rfl
    simp only [List.cons.injEq, Component.name.injEq, and_true] at hname
    exact ⟨hcomponents, hname⟩
  · rintro ⟨hcomponents, rfl⟩
    rw [hcomponents]

theorem pieces_ne_nil {s : Text} (hne : s ≠ [])
    (habsolute : isAbsolute ⟨s⟩ = false) : pieces ⟨s⟩ ≠ [] := by
  obtain ⟨c, s, rfl⟩ := List.exists_cons_of_ne_nil hne
  have hc : c ≠ '/' := by
    rintro rfl
    rw [isAbsolute_iff.mpr ⟨s, rfl⟩] at habsolute
    contradiction
  obtain ⟨piece, more, hsplit⟩ :=
    List.exists_cons_of_ne_nil (List.splitOnP_ne_nil (· == '/') s)
  have hpieces : (c :: s).splitOn '/' = (c :: piece) :: more := by
    rw [List.splitOn, List.splitOnP_cons_eq_if_modifyHead,
      if_neg (by simpa using hc), hsplit]
    rfl
  rw [pieces, hpieces]
  simp

theorem components_append_slash {s : Text} (h : s ≠ []) (t : Text) :
    components ⟨s ++ '/' :: t⟩ =
      components ⟨s⟩ ++ (names ⟨t⟩).map pieceComponent := by
  have hlead : lead ⟨s ++ '/' :: t⟩ = lead ⟨s⟩ := by
    rw [lead, lead, isAbsolute_append h, pieces_append_slash]
    cases habsolute : isAbsolute ⟨s⟩ with
    | true => rfl
    | false => rw [List.head?_append_of_ne_nil _ (pieces_ne_nil h habsolute)]
  rw [components_eq, components_eq, hlead, names_append_slash,
    List.map_append, List.append_assoc]

theorem slash_notMem_of_mem_parts {p : Path} {piece : Text}
    (h : piece ∈ p.parts.2) : '/' ∉ piece := by
  have hsplit : ∀ t : Text, piece ∈ t.splitOn '/' → '/' ∉ piece := by
    intro t ht hslash
    simpa using Text.not_of_mem_splitOnP ht '/' hslash
  unfold parts at h
  split at h
  · exact hsplit _ h
  · contradiction
  · exact hsplit _ h
  · exact hsplit _ h

theorem names_ofPieces {pieces : List Text} (hne : pieces ≠ [])
    (h : ∀ piece ∈ pieces, '/' ∉ piece) :
    names ⟨Text.join "/" pieces⟩ = pieces.filter (!isVoid ·) := by
  rw [names_eq]
  exact congrArg _ (List.splitOn_intercalate '/' h hne)

theorem filter_of_join_eq_nil {pieces : List Text}
    (h : Text.join "/" pieces = []) : pieces.filter (!isVoid ·) = [] := by
  cases pieces with
  | nil => rfl
  | cons piece pieces =>
      cases pieces with
      | nil =>
          obtain rfl : piece = [] := by simpa [Text.join] using h
          rfl
      | cons other pieces =>
          simp [Text.join, List.intercalate_cons_cons] at h

/-- Where the parts of a path are cut in two, the first of them have the first
components. -/
theorem components_ofParts (p : Path) {pieces more : List Text}
    (h : p.parts.2 = pieces ++ more) (hmore : more ≠ []) :
    p.components = (ofParts p.parts.1 pieces).components ++
      (more.filter (!isVoid ·)).map pieceComponent := by
  have hslash : ∀ piece ∈ more, '/' ∉ piece := fun piece hpiece =>
    slash_notMem_of_mem_parts (h ▸ List.mem_append_right pieces hpiece)
  obtain ⟨hraw, hlead⟩ := p.parts_cases
  rw [h] at hraw hlead
  by_cases hempty : p.parts.1 ++ Text.join "/" pieces = []
  · obtain ⟨hstart, hpieces⟩ := List.append_eq_nil_iff.mp hempty
    rw [ofParts, hempty, components]
    simp only [hstart, h, List.filter_append, filter_of_join_eq_nil hpieces]
    rfl
  · rw [← names_ofPieces hmore hslash]
    by_cases hpieces : pieces = []
    · subst hpieces
      rcases hlead with hlead | ⟨hlead, rest, hrest⟩ | ⟨hlead, hdot⟩
      · rw [hlead] at hempty
        contradiction
      · rw [hlead] at hraw
        obtain ⟨raw⟩ := p
        rw [hlead, components_eq]
        simp only [List.nil_append, List.singleton_append] at hraw
        subst hraw
        rw [lead_of_slash]
        exact congrArg _ (congrArg _ (names_append_slash [] _))
      · obtain ⟨rest, hrest⟩ := hdot (by simpa using hmore)
        have hjoin : Text.join "/" more = '/' :: rest := by
          rw [hrest, hlead] at hraw
          exact (List.cons.inj hraw).2.symm
        have hp : p = ⟨['.'] ++ '/' :: rest⟩ := by
          rw [List.singleton_append, ← hrest]
        rw [hlead, hp, components_append_slash (by simp), hjoin]
        exact congrArg _ (congrArg _ (names_append_slash [] rest).symm)
    · rw [join_append hpieces hmore, ← List.append_assoc] at hraw
      have hp : p = ⟨p.parts.1 ++ Text.join "/" pieces ++
          '/' :: Text.join "/" more⟩ := by
        rw [← hraw]
      rw [hp, components_append_slash hempty, ← hp]
      rfl

theorem exists_dropVoidEnd (pieces : List Text) :
    ∃ voids, pieces = dropVoidEnd pieces ++ voids ∧
      voids.filter (!isVoid ·) = [] := by
  refine ⟨(pieces.reverse.takeWhile isVoid).reverse, ?_, ?_⟩
  · rw [dropVoidEnd, ← List.reverse_append, List.takeWhile_append_dropWhile,
      List.reverse_reverse]
  · rw [List.filter_eq_nil_iff]
    intro piece hpiece
    simpa using List.mem_takeWhile_imp (List.mem_reverse.mp hpiece)

theorem isVoid_of_getLast?_dropVoidEnd {pieces : List Text} {piece : Text}
    (h : (dropVoidEnd pieces).getLast? = some piece) :
    isVoid piece = false := by
  rw [dropVoidEnd, List.getLast?_reverse] at h
  have hhead := List.head?_dropWhile_not isVoid pieces.reverse
  rw [h] at hhead
  simpa using hhead

/-- A path that ends in a file name lies in its parent. -/
theorem exists_parent_of_fileName {p : Path} {name : Text}
    (h : p.fileName? = some name) :
    ∃ q, p.parent? = some q ∧ p.components = q.components ++ [.name name] := by
  have hlast : p.components.getLast? = some (.name name) := by
    unfold fileName? at h
    split at h
    · next hlast => rw [hlast, Option.some.inj h]
    · contradiction
  obtain ⟨voids, hvoids, hnone⟩ := exists_dropVoidEnd p.parts.2
  cases hkept : dropVoidEnd p.parts.2 using List.reverseRecOn with
  | nil =>
      -- Nothing but a slash or a dot is left, and that is no name.
      rw [hkept, List.nil_append] at hvoids
      rw [components] at hlast
      simp only [hvoids, hnone, List.map_nil, List.append_nil] at hlast
      split at hlast
      · simp at hlast
      · split at hlast <;> simp at hlast
  | append_singleton init last =>
      obtain ⟨voids', hvoids', hnone'⟩ := exists_dropVoidEnd init
      have hparts :
          p.parts.2 = dropVoidEnd init ++ (voids' ++ last :: voids) := by
        rw [hvoids, hkept, ← List.append_assoc, ← hvoids']
        simp
      have hcomponents := components_ofParts p hparts (by simp)
      have hlast' : isVoid last = false := by
        apply isVoid_of_getLast?_dropVoidEnd
        rw [hkept, List.getLast?_concat]
      simp only [List.filter_append, List.filter_cons, hnone, hnone', hlast',
        Bool.not_false, if_true, List.nil_append, List.map_singleton]
        at hcomponents
      rw [hcomponents, List.getLast?_concat, Option.some.injEq] at hlast
      refine ⟨ofParts p.parts.1 (dropVoidEnd init), ?_, ?_⟩
      · unfold parent?
        simp only [hkept]
        split
        · next hnil => simp at hnil
        · rw [List.dropLast_concat]
      · rw [hcomponents, hlast]

/-! ## Paths that do not lead up -/

/-- Only the first step of a path starts from the root. -/
theorem ofPiece_ne_root (piece : Text) : Component.ofPiece piece ≠ .root := by
  unfold Component.ofPiece
  split
  · simp
  · split <;> simp

theorem stepFrom_ofPiece {piece : Text} (h : Component.ofPiece piece ≠ .parent)
    (loc : Location) :
    FileSystem.stepFrom loc (Component.ofPiece piece) =
      loc ++ if piece = "." then [] else [piece] := by
  unfold Component.ofPiece at h ⊢
  by_cases hdot : piece = "."
  · rw [if_pos (by simpa using hdot), if_pos hdot, List.append_nil]
    rfl
  · rw [if_neg (by simpa using hdot)] at h ⊢
    rw [if_neg hdot]
    split
    · simp_all
    · rfl

theorem foldl_stepFrom_pieces {pieces : List Text}
    (h : .parent ∉ pieces.map Component.ofPiece) (loc : Location) :
    (pieces.map Component.ofPiece).foldl FileSystem.stepFrom loc =
      loc ++ pieces.filter fun piece : Text => piece != "." := by
  induction pieces generalizing loc with
  | nil => simp
  | cons piece pieces ih =>
      simp only [List.map_cons, List.mem_cons, not_or] at h
      rw [List.map_cons, List.foldl_cons, stepFrom_ofPiece (Ne.symm h.1),
        ih h.2, List.append_assoc, List.filter_cons]
      by_cases hdot : piece = "."
      · simp [hdot]
      · have hkept : (piece != ".".toList) = true := bne_iff_ne.mpr hdot
        rw [if_neg hdot, if_pos hkept]
        rfl

theorem foldl_stepFrom_steps {p : Path} (h : .parent ∉ p.steps)
    (loc : Location) :
    p.steps.foldl FileSystem.stepFrom loc =
      (if p.isAbsolute then [] else loc) ++ p.names := by
  rw [steps, List.mem_append, not_or] at h
  rw [steps, List.foldl_append, foldl_stepFrom_pieces h.2]
  cases p.isAbsolute with
  | false => rfl
  | true => rfl

theorem isAbsolute_iff_lead (p : Path) :
    p.isAbsolute = true ↔ p.lead = [.root] := by
  unfold lead
  cases p.isAbsolute with
  | true => simp
  | false =>
      simp only [Bool.false_eq_true, if_false, false_iff]
      split <;> simp

/-- Paths that start alike, do not lead up and lead to one place are the
same. -/
theorem same_of_foldl_eq {p q : Path} (hp : .parent ∉ p.steps)
    (hq : .parent ∉ q.steps) (hlead : p.lead = q.lead) {loc : Location}
    (h : p.steps.foldl FileSystem.stepFrom loc =
      q.steps.foldl FileSystem.stepFrom loc) : p.same q = true := by
  have habsolute : p.isAbsolute = q.isAbsolute := by
    rw [Bool.eq_iff_iff, isAbsolute_iff_lead, isAbsolute_iff_lead, hlead]
  rw [foldl_stepFrom_steps hp, foldl_stepFrom_steps hq, habsolute] at h
  have hnames : p.names = q.names := List.append_cancel_left h
  rw [same, components_eq, components_eq, hlead, hnames, decide_eq_true_eq]

end Bindery.Path
