import Bindery.Proofs.EntityInvariant
import Bindery.Proofs.StructRoundTrip

/-!
# Array types of members

A member that is declared as an array gets the name of an array type, and the
array type is recorded as an entity unless one of that name is known.  Names
are put together from the words of the element type and the dimensions, and
different array types may end up with the same name.  Then the first one is
recorded, and the others get a type that is not theirs.

`Header.arrayMembers` lists the array members of a source in the order in
which they are gathered.  After each of them the entities hold, for every name
that came up, the array type of the first member with that name.
-/

namespace Bindery

open Source

/-! ## Array members -/

/-- A member that is declared as an array. -/
structure ArrayMember where
  /-- The struct that declares the member. -/
  owner : Compound
  /-- The type that the line of the member starts with. -/
  base : Text
  declarator : Declarator

namespace ArrayMember

def elementType (m : ArrayMember) : Text := m.declarator.memberType m.base

def instanceName (m : ArrayMember) : Text :=
  arrayInstanceName m.elementType m.declarator.dims

/-- The array type as it is written. -/
def type (m : ArrayMember) : Text := arrayType m.elementType m.declarator.dims

def entity (m : ArrayMember) : Entity :=
  { category := .arrayInstance, type := some m.type, name := m.instanceName }

/-- One declarator of a line, if it has dimensions. -/
def ofDeclarator? (owner : Compound) (base raw : Text) : Option ArrayMember :=
  ((Declarator.parse? raw).filter fun declarator =>
    !declarator.dims.isEmpty).map fun declarator => ⟨owner, base, declarator⟩

end ArrayMember

def Source.Entry.arrayMembers (owner : Compound) : Entry → List ArrayMember
  | .variables base declarators =>
    (declarators.splitOn ',').filterMap (ArrayMember.ofDeclarator? owner base)
  | _ => []

namespace Source.Tree

mutual

def arrayMembers (owner : Compound) : Tree → List ArrayMember
  | .entry _ e => e.arrayMembers owner
  | .nested _ compound children => bodyArrayMembers compound children

/-- The array members of a body and of the bodies in it. -/
def bodyArrayMembers (owner : Compound) : List Tree → List ArrayMember
  | [] => []
  | tree :: trees => arrayMembers owner tree ++ bodyArrayMembers owner trees

end

end Source.Tree

def Source.Declaration.arrayMembers (d : Dialect) :
    Declaration → List ArrayMember
  | .struct compound =>
    Tree.bodyArrayMembers compound (Tree.readBody d compound.body)
  | _ => []

/-- The array members of a source, in the order in which they are gathered. -/
def Header.arrayMembers (d : Dialect) (source : Text) : List ArrayMember :=
  (Declaration.readAll d (spliceLines source)).flatMap fun x =>
    x.item.arrayMembers d

/-! ## What is recorded -/

/-- The member that decides which array type a name stands for. -/
def firstNamed? (members : List ArrayMember) (name : Text) :
    Option ArrayMember :=
  members.find? (·.instanceName = name)

/-- The array types among the entities are those of the first member for each
name. -/
structure Gathered.Recorded (g : Gathered) (members : List ArrayMember) :
    Prop where
  known : ∀ name, name ∈ g.arrays ↔ ∃ m ∈ members, m.instanceName = name
  entities : ∀ e, e ∈ g.entities ∧ e.category = .arrayInstance ↔
    ∃ m, firstNamed? members m.instanceName = some m ∧ e = m.entity

theorem firstNamed?_isSome_iff {members : List ArrayMember} {name : Text} :
    (firstNamed? members name).isSome = true ↔
      ∃ m ∈ members, m.instanceName = name := by
  simp [firstNamed?]

theorem instanceName_of_firstNamed? {members : List ArrayMember} {name : Text}
    {m : ArrayMember} (h : firstNamed? members name = some m) :
    m.instanceName = name := by
  simpa using List.find?_some h

theorem firstNamed?_append (members : List ArrayMember) (m : ArrayMember)
    (name : Text) :
    firstNamed? (members ++ [m]) name = (firstNamed? members name).or
      (if m.instanceName = name then some m else none) := by
  rw [firstNamed?, List.find?_append, firstNamed?, List.find?_singleton]
  simp

namespace Gathered.Recorded

variable {g : Gathered} {members : List ArrayMember}

theorem initial : ({} : Gathered).Recorded [] where
  known := by simp
  entities := by simp [firstNamed?]

theorem push (h : g.Recorded members) {e : Entity}
    (he : e.category ≠ .arrayInstance) : (g.push e).Recorded members where
  known := h.known
  entities := by
    intro x
    rw [← h.entities x, Gathered.push]
    constructor
    · rintro ⟨hx, hcategory⟩
      rcases List.mem_append.mp hx with hx | hx
      · exact ⟨hx, hcategory⟩
      · rw [List.mem_singleton.mp hx] at hcategory
        contradiction
    · rintro ⟨hx, hcategory⟩
      exact ⟨List.mem_append_left _ hx, hcategory⟩

theorem pushArray (h : g.Recorded members) (m : ArrayMember) :
    (g.pushArray m.elementType m.declarator.dims).Recorded
      (members ++ [m]) := by
  unfold Gathered.pushArray
  change Recorded (if g.arrays.contains m.instanceName then g else
    { entities := g.entities ++ [m.entity]
      arrays := m.instanceName :: g.arrays }) _
  by_cases hknown : m.instanceName ∈ g.arrays
  -- A name that is known keeps its first member.
  · rw [if_pos (by simpa using hknown)]
    rw [h.known, ← firstNamed?_isSome_iff] at hknown
    have hfirst (name : Text) :
        firstNamed? (members ++ [m]) name = firstNamed? members name := by
      rw [firstNamed?_append]
      split
      · next heq =>
        rw [heq] at hknown
        exact Option.or_of_isSome hknown
      · exact Option.or_none
    constructor
    · intro name
      rw [h.known, ← firstNamed?_isSome_iff, ← firstNamed?_isSome_iff, hfirst]
    · intro e
      simp only [hfirst]
      exact h.entities e
  -- A new name gets this member as its first one.
  · rw [if_neg (by simpa using hknown)]
    have hnone : firstNamed? members m.instanceName = none := by
      rwa [h.known, ← firstNamed?_isSome_iff, Option.not_isSome_iff_eq_none]
        at hknown
    constructor
    · intro name
      simp only [List.mem_cons, h.known, List.mem_append, List.not_mem_nil,
        or_false]
      constructor
      · rintro (rfl | ⟨m', hm', rfl⟩)
        · exact ⟨m, .inr rfl, rfl⟩
        · exact ⟨m', .inl hm', rfl⟩
      · rintro ⟨m', hm' | rfl, rfl⟩
        · exact .inr ⟨m', hm', rfl⟩
        · exact .inl rfl
    · intro e
      simp only [List.mem_append, List.mem_singleton, or_and_right,
        h.entities e, firstNamed?_append]
      constructor
      · rintro (⟨m', hm', rfl⟩ | ⟨rfl, -⟩)
        · exact ⟨m', by rw [hm', Option.some_or], rfl⟩
        · exact ⟨m, by rw [hnone, Option.none_or, if_pos rfl], rfl⟩
      · rintro ⟨m', hm', rfl⟩
        rcases Option.or_eq_some_iff.mp hm' with hm' | ⟨-, hm'⟩
        · exact .inl ⟨m', hm', rfl⟩
        · obtain ⟨-, heq⟩ := Option.ite_none_right_eq_some.mp hm'
          obtain rfl := Option.some.inj heq
          exact .inr ⟨rfl, rfl⟩

end Gathered.Recorded

/-! ## What gathering does to array members -/

namespace ArrayMember

/-- One of the fields is this member, with the name of its array type. -/
def IsAmong (m : ArrayMember) (fields : List Member) : Prop :=
  ∃ field ∈ fields, field.category = .memberVariable ∧
    field.name = m.declarator.name ∧ field.type = some m.instanceName

/-- The struct that declares the member is listed with it, if it has a
name. -/
def IsListed (m : ArrayMember) (entities : List Entity) : Prop :=
  ∀ name, m.owner.resolvedName = some name →
    ∃ e ∈ entities, (e.category = .struct ∨ e.category = .tuple) ∧
      e.name = name ∧ m.IsAmong e.members

variable {m : ArrayMember}

theorem IsAmong.mono {fields fields' : List Member} (h : m.IsAmong fields)
    (hsub : fields ⊆ fields') : m.IsAmong fields' := by
  obtain ⟨field, hfield, hmember⟩ := h
  exact ⟨field, hsub hfield, hmember⟩

theorem IsListed.mono {entities entities' : List Entity}
    (h : m.IsListed entities) (hsub : entities ⊆ entities') :
    m.IsListed entities' := by
  intro name hname
  obtain ⟨e, he, hstruct⟩ := h name hname
  exact ⟨e, hsub he, hstruct⟩

end ArrayMember

/-- While the body of `owner` is gathered, these array members are found
between two states. -/
structure Gathers (owner : Compound) (s s' : Gathered × Fields)
    (members : List ArrayMember) : Prop where
  recorded : ∀ before, s.1.Recorded before →
    s'.1.Recorded (before ++ members)
  entities : s.1.entities ⊆ s'.1.entities
  fields : s.2.members ⊆ s'.2.members
  found : ∀ m ∈ members, m.IsListed s'.1.entities ∨
    m.owner = owner ∧ m.IsAmong s'.2.members

namespace Gathers

variable {owner : Compound} {s s' s'' : Gathered × Fields}
  {members members' : List ArrayMember}

theorem refl (owner : Compound) (s : Gathered × Fields) :
    Gathers owner s s [] where
  recorded before h := by simpa using h
  entities := List.Subset.refl _
  fields := List.Subset.refl _
  found := by simp

theorem trans (h : Gathers owner s s' members)
    (h' : Gathers owner s' s'' members') :
    Gathers owner s s'' (members ++ members') where
  recorded before hbefore := by
    rw [← List.append_assoc]
    exact h'.recorded _ (h.recorded before hbefore)
  entities := List.Subset.trans h.entities h'.entities
  fields := List.Subset.trans h.fields h'.fields
  found := by
    intro m hm
    rcases List.mem_append.mp hm with hm | hm
    · rcases h.found m hm with hlisted | ⟨howner, hamong⟩
      · exact .inl (hlisted.mono h'.entities)
      · exact .inr ⟨howner, hamong.mono h'.fields⟩
    · exact h'.found m hm

theorem add (h : Gathers owner s s' members) (field : Member) :
    Gathers owner s (s'.1, s'.2.add field) members where
  recorded := h.recorded
  entities := h.entities
  fields := List.Subset.trans h.fields (List.subset_append_left _ _)
  found := by
    intro m hm
    refine (h.found m hm).imp_right fun ⟨howner, hamong⟩ => ⟨howner, ?_⟩
    exact hamong.mono (List.subset_append_left _ _)

theorem push (h : Gathers owner s s' members) {e : Entity}
    (he : e.category ≠ .arrayInstance) :
    Gathers owner s (s'.1.push e, s'.2) members where
  recorded before hbefore := (h.recorded before hbefore).push he
  entities := List.Subset.trans h.entities (List.subset_append_left _ _)
  fields := h.fields
  found := by
    intro m hm
    refine (h.found m hm).imp_left fun hlisted => ?_
    exact hlisted.mono (List.subset_append_left _ _)

theorem addNested (h : Gathers owner s s' members) (c : Compound) (e : Entity) :
    Gathers owner s (s'.1, (nestedMember? c e).elim s'.2 s'.2.add) members := by
  cases nestedMember? c e with
  | none => exact h
  | some field => exact h.add field

theorem array (s : Gathered × Fields) (m : ArrayMember) {field : Member}
    (hcategory : field.category = .memberVariable)
    (hname : field.name = m.declarator.name)
    (htype : field.type = some m.instanceName) :
    Gathers m.owner s (s.1.pushArray m.elementType m.declarator.dims,
      s.2.add field) [m] where
  recorded before hbefore := hbefore.pushArray m
  entities := (prefix_pushArray _ _ _).subset
  fields := List.subset_append_left _ _
  found := by
    intro m' hm'
    rw [List.mem_singleton.mp hm']
    refine .inr ⟨rfl, field, ?_, hcategory, hname, htype⟩
    exact List.mem_append_right _ List.mem_cons_self

/-- A struct that closes is listed with what it declares. -/
theorem close {c : Compound} {g g' : Gathered} {fields : Fields}
    (h : Gathers c (g, {}) (g', fields) members) (owner : Compound)
    (outer : Fields) (scope : List Text) (doc : Option Text) :
    Gathers owner (g, outer)
      ((structEntity? scope doc c fields).elim g' g'.push, outer) members := by
  cases he : structEntity? scope doc c fields with
  | none =>
      have hname := Option.map_eq_none_iff.mp he
      refine ⟨h.recorded, h.entities, List.Subset.refl _, fun m hm => ?_⟩
      rcases h.found m hm with hlisted | ⟨howner, -⟩
      · exact .inl hlisted
      · refine .inl fun name hname' => ?_
        rw [howner, hname] at hname'
        contradiction
  | some e =>
      obtain ⟨name, hname, hstruct, hmembers, -⟩ := exists_of_structEntity? he
      have hsub := List.subset_append_left g'.entities [e]
      refine ⟨fun before hbefore => (h.recorded before hbefore).push ?_,
        List.Subset.trans h.entities hsub, List.Subset.refl _, fun m hm => ?_⟩
      · rcases hstruct.category with hcategory | hcategory
        · simp [hcategory]
        · simp [hcategory]
      · rcases h.found m hm with hlisted | ⟨howner, hamong⟩
        · exact .inl (hlisted.mono hsub)
        · refine .inl fun name' hname' => ?_
          rw [howner, hname] at hname'
          obtain rfl := Option.some.inj hname'
          rw [← hmembers] at hamong
          exact ⟨e, List.mem_append_right _ List.mem_cons_self,
            hstruct.category, hstruct.name_eq, hamong⟩

theorem gatherVariable (owner : Compound) (base : Text) (doc : Option Text)
    (s : Gathered × Fields) (raw : Text) :
    Gathers owner s (gatherVariable base doc s raw)
      (ArrayMember.ofDeclarator? owner base raw).toList := by
  unfold Bindery.gatherVariable ArrayMember.ofDeclarator?
  cases Declarator.parse? raw with
  | none => exact refl owner s
  | some declarator =>
      cases hdims : declarator.dims.isEmpty with
      | true =>
          simp only [hdims, Option.filter_some, Bool.not_true, if_true]
          exact (refl owner s).add _
      | false =>
          simp only [hdims, Option.filter_some, Bool.not_false, if_true]
          exact array s ⟨owner, base, declarator⟩ rfl rfl rfl

theorem gatherVariables (owner : Compound) (base : Text) (doc : Option Text)
    (s : Gathered × Fields) (raws : List Text) :
    Gathers owner s (raws.foldl (Bindery.gatherVariable base doc) s)
      (raws.filterMap (ArrayMember.ofDeclarator? owner base)) := by
  induction raws generalizing s with
  | nil => exact refl owner s
  | cons raw raws ih =>
      have hfirst := gatherVariable owner base doc s raw
      have h := hfirst.trans (ih _)
      rw [List.filterMap_cons]
      cases hraw : ArrayMember.ofDeclarator? owner base raw with
      | none => simpa [hraw] using h
      | some m => simpa [hraw] using h

theorem gatherEntry (owner : Compound) (scope : List Text) (doc : Option Text)
    (s : Gathered × Fields) (entry : Entry) :
    Gathers owner s (gatherEntry scope doc s entry)
      (entry.arrayMembers owner) := by
  cases entry with
  | tupleMarker => exact ⟨(refl owner s).recorded, (refl owner s).entities,
      (refl owner s).fields, by simp [Entry.arrayMembers]⟩
  | constructor params expression => exact (refl owner s).add _
  | method signature name expression => exact (refl owner s).add _
  | ptrGetter name field => exact (refl owner s).add _
  | arrayGetter name arrayField lengthField => exact (refl owner s).add _
  | enum compound =>
      simp only [Bindery.gatherEntry]
      split
      · exact refl owner s
      · next e he =>
        obtain ⟨-, hcategory, -⟩ := enumEntity_wellFormed he
        have hnot : e.category ≠ .arrayInstance := by simp [hcategory]
        exact ((refl owner s).push hnot).addNested compound e
  | «variables» base declarators => exact gatherVariables owner base doc s _

end Gathers

mutual

theorem gatherTree_gathers (owner : Compound) (scope : List Text)
    (s : Gathered × Fields) :
    ∀ tree : Tree, Gathers owner s (gatherTree scope s tree)
      (tree.arrayMembers owner)
  | .entry doc e => .gatherEntry owner scope doc s e
  | .nested doc compound children => by
      have hbody := gatherTrees_gathers compound (innerScope scope compound)
        (s.1, {}) children
      have hclosed := hbody.close owner s.2 scope doc
      simp only [gatherTree, Tree.arrayMembers]
      split
      · next hstruct =>
        rw [hstruct] at hclosed
        exact hclosed
      · next e hstruct =>
        rw [hstruct] at hclosed
        exact hclosed.addNested compound e

theorem gatherTrees_gathers (owner : Compound) (scope : List Text)
    (s : Gathered × Fields) :
    ∀ trees : List Tree, Gathers owner s (gatherTrees scope s trees)
      (Tree.bodyArrayMembers owner trees)
  | [] => .refl owner s
  | tree :: trees => by
      simp only [gatherTrees, Tree.bodyArrayMembers]
      exact (gatherTree_gathers owner scope s tree).trans
        (gatherTrees_gathers owner scope _ trees)

end

/-! ## Whole headers -/

/-- What holds of the array members of the declarations read so far. -/
structure FileGathers (g : Gathered) (members : List ArrayMember) : Prop where
  recorded : g.Recorded members
  listed : ∀ m ∈ members, m.IsListed g.entities

namespace FileGathers

variable {g : Gathered} {members : List ArrayMember}

theorem push (h : FileGathers g members) {e : Entity}
    (he : e.category ≠ .arrayInstance) : FileGathers (g.push e) members where
  recorded := h.recorded.push he
  listed m hm := (h.listed m hm).mono (List.subset_append_left _ _)

theorem gatherStruct (h : FileGathers g members) (doc : Option Text)
    (c : Compound) (body : List Tree) :
    FileGathers (gatherStruct doc g c body)
      (members ++ Tree.bodyArrayMembers c body) := by
  have hbody := gatherTrees_gathers c (innerScope [] c) (g, {}) body
  have hclosed := hbody.close c {} [] doc
  refine ⟨hclosed.recorded members h.recorded, fun m hm => ?_⟩
  rcases List.mem_append.mp hm with hm | hm
  · exact (h.listed m hm).mono hclosed.entities
  · rcases hclosed.found m hm with hlisted | ⟨-, field, hfield, -⟩
    · exact hlisted
    · contradiction

theorem gatherDeclaration (h : FileGathers g members) (d : Dialect)
    (x : Documented Declaration) :
    FileGathers (gatherDeclaration d g x)
      (members ++ x.item.arrayMembers d) := by
  have hnone : FileGathers g (members ++ []) := by simpa using h
  obtain ⟨doc, item⟩ := x
  cases item with
  | struct compound => exact h.gatherStruct doc compound _
  | enum compound =>
      simp only [Bindery.gatherDeclaration]
      cases he : enumEntity? [] doc compound with
      | none => exact hnone
      | some e =>
          obtain ⟨-, hcategory, -⟩ := enumEntity_wellFormed he
          exact hnone.push (by simp [hcategory])
  | define name value => exact hnone.push (by simp)
  | constant type name => exact hnone.push (by simp)
  | typedef type name dims => exact hnone.push (by simp)
  | handle tag name => exact hnone.push (by simp)
  | function returnType name args => exact hnone.push (by simp [functionEntity])

theorem gatherDeclarations (h : FileGathers g members) (d : Dialect)
    (xs : List (Documented Declaration)) :
    FileGathers (xs.foldl (Bindery.gatherDeclaration d) g)
      (members ++ xs.flatMap fun x => x.item.arrayMembers d) := by
  induction xs generalizing g members with
  | nil => simpa using h
  | cons x xs ih =>
      rw [List.foldl_cons, List.flatMap_cons, ← List.append_assoc]
      exact ih (h.gatherDeclaration d x)

end FileGathers

theorem Header.exists_fileGathers (d : Dialect) (source : Text) :
    ∃ g : Gathered, g.entities = Header.parse d source ∧
      FileGathers g (Header.arrayMembers d source) := by
  have hinitial : FileGathers {} [] := ⟨.initial, by simp⟩
  exact ⟨_, rfl, hinitial.gatherDeclarations d _⟩

/-! ## Names that tell array types apart -/

/-- A text is cut in one way between what ends outside a class and what lies
in the class. -/
theorem append_inj_of_class {p : Char → Bool} {a a' t t' : Text}
    (ha : ∀ c ∈ a.getLast?, p c = false) (ha' : ∀ c ∈ a'.getLast?, p c = false)
    (ht : ∀ c ∈ t, p c = true) (ht' : ∀ c ∈ t', p c = true)
    (h : a ++ t = a' ++ t') : a = a' ∧ t = t' := by
  have hnone {b x y : Text} (hb : ∀ c ∈ (b ++ x).getLast?, p c = false)
      (hx : ∀ c ∈ x ++ y, p c = true) : x = [] := by
    by_contra hne
    have hlast : (b ++ x).getLast? = some (x.getLast hne) := by
      rw [List.getLast?_append_of_ne_nil b hne,
        List.getLast?_eq_some_getLast hne]
    have hin := hx _ (List.mem_append_left y (List.getLast_mem hne))
    rw [hb _ hlast] at hin
    contradiction
  rcases List.append_eq_append_iff.mp h with ⟨x, rfl, rfl⟩ | ⟨x, rfl, rfl⟩
  · obtain rfl := hnone ha' ht
    simp
  · obtain rfl := hnone ha ht'
    simp

theorem Digits.flatMap_inj {ds ds' : List Digits}
    (h : (ds.flatMap fun n => '_' :: n.text) =
      ds'.flatMap fun n => '_' :: n.text) :
    ds.map Digits.text = ds'.map Digits.text := by
  have hstops (ds : List Digits) :
      Text.Stops Char.isDigit (ds.flatMap fun n => '_' :: n.text) := by
    cases ds with
    | nil => simp [Text.Stops]
    | cons n ds => exact Text.stops_cons (by decide) _
  induction ds generalizing ds' with
  | nil =>
      cases ds' with
      | nil => rfl
      | cons n' ds' => simp at h
  | cons n ds ih =>
      cases ds' with
      | nil => simp at h
      | cons n' ds' =>
          simp only [List.flatMap_cons, List.cons_append, List.cons.injEq,
            true_and] at h
          have hrest := congrArg (List.dropWhile Char.isDigit) h
          rw [(hstops ds).dropWhile_append n.isDigit,
            (hstops ds').dropWhile_append n'.isDigit] at hrest
          rw [hrest] at h
          rw [List.map_cons, List.map_cons, List.append_cancel_right h,
            ih hrest]

theorem append_marks_inj {mark a a' : Text} (ha : ¬ mark <:+ a)
    (ha' : ¬ mark <:+ a') {n n' : Nat}
    (h : a ++ (List.replicate n mark).flatten =
      a' ++ (List.replicate n' mark).flatten) : a = a' ∧ n = n' := by
  have hsucc (n : Nat) : (List.replicate (n + 1) mark).flatten =
      (List.replicate n mark).flatten ++ mark := by
    rw [List.replicate_succ', List.flatten_append]
    simp
  induction n generalizing n' with
  | zero =>
      cases n' with
      | zero => simpa using h
      | succ n' =>
          rw [hsucc, ← List.append_assoc] at h
          exact absurd ⟨_, h.symm.trans (by simp)⟩ ha
  | succ n ih =>
      cases n' with
      | zero =>
          rw [hsucc, ← List.append_assoc] at h
          exact absurd ⟨_, h.trans (by simp)⟩ ha'
      | succ n' =>
          rw [hsucc, hsucc, ← List.append_assoc, ← List.append_assoc] at h
          obtain ⟨rfl, rfl⟩ := ih (List.append_cancel_right h)
          exact ⟨rfl, rfl⟩

/-- The name of an array type gives back its base type, its stars and its
dimensions, unless the base type ends like the name of a pointer. -/
theorem Written.Declarator.arrayName_inj {base base' : Text}
    {d d' : Written.Declarator}
    (hbase : ¬ ("_ptr" : Text) <:+ base) (hbase' : ¬ ("_ptr" : Text) <:+ base')
    (h : d.arrayName base = d'.arrayName base') :
    base = base' ∧ d.stars = d'.stars ∧
      d.dims.map Digits.text = d'.dims.map Digits.text := by
  have hdims (d : Written.Declarator) :
      ∀ c ∈ d.dims.flatMap fun n => '_' :: n.text,
      (c == '_' || c.isDigit) = true := by
    intro c hc
    obtain ⟨n, -, hc⟩ := List.mem_flatMap.mp hc
    rcases List.mem_cons.mp hc with rfl | hc
    · rfl
    · simp [n.isDigit c hc]
  have hlast (x : Text) : ∀ c ∈ (x ++ ("_array" : Text)).getLast?,
      (c == '_' || c.isDigit) = false := by
    intro c hc
    rw [List.getLast?_append_of_ne_nil _ (by simp)] at hc
    obtain rfl : 'y' = c := Option.some.inj hc
    rfl
  unfold arrayName at h
  simp only [← List.append_assoc] at h
  obtain ⟨hfront, hback⟩ :=
    append_inj_of_class (hlast _) (hlast _) (hdims d) (hdims d') h
  obtain ⟨hbases, hstars⟩ :=
    append_marks_inj hbase hbase' (List.append_cancel_right hfront)
  exact ⟨hbases, hstars, Digits.flatMap_inj hback⟩

/-- The member is declared with one identifier as its base type, stars and
numbers, and the identifier does not end like the name of a pointer. -/
def ArrayMember.IsPlain (m : ArrayMember) : Prop :=
  ∃ (base : Identifier) (d : Written.Declarator), m.base = base.text ∧
    m.declarator = ⟨d.sigils, d.name.text, d.dims.map Digits.text⟩ ∧
    ¬ ("_ptr" : Text) <:+ base.text

theorem ArrayMember.IsPlain.inj {m m' : ArrayMember} (h : m.IsPlain)
    (h' : m'.IsPlain) (hname : m.instanceName = m'.instanceName) :
    m.elementType = m'.elementType ∧
      m.declarator.dims = m'.declarator.dims := by
  obtain ⟨base, d, hbase, hdeclarator, hptr⟩ := h
  obtain ⟨base', d', hbase', hdeclarator', hptr'⟩ := h'
  unfold instanceName elementType at hname
  unfold elementType
  rw [hbase, hbase', hdeclarator, hdeclarator', d.memberType_eq,
    d'.memberType_eq, d.arrayInstanceName_eq, d'.arrayInstanceName_eq] at hname
  obtain ⟨hbases, hstars, hdims⟩ :=
    Written.Declarator.arrayName_inj hptr hptr' hname
  rw [hbase, hbase', hdeclarator, hdeclarator', d.memberType_eq,
    d'.memberType_eq]
  refine ⟨?_, hdims⟩
  unfold Written.Declarator.elementType Written.Declarator.sigils
  rw [hbases, hstars]

/-! ## Which members keep their array type -/

/-- The array type of the member is recorded under the name that the member
has for it. -/
def ArrayMember.KeepsType (m : ArrayMember) (entities : List Entity) : Prop :=
  ∃ e ∈ entities, e.category = .arrayInstance ∧ e.name = m.instanceName ∧
    e.type = some m.type

instance (m : ArrayMember) (entities : List Entity) :
    Decidable (m.KeepsType entities) :=
  inferInstanceAs (Decidable (∃ e ∈ entities, e.category = .arrayInstance ∧
    e.name = m.instanceName ∧ e.type = some m.type))

theorem Gathered.Recorded.keepsType_iff {g : Gathered}
    {members : List ArrayMember} (h : g.Recorded members) (m : ArrayMember) :
    m.KeepsType g.entities ↔
      ∃ first, firstNamed? members m.instanceName = some first ∧
        first.type = m.type := by
  constructor
  · rintro ⟨e, he, hcategory, hname, htype⟩
    obtain ⟨first, hfirst, rfl⟩ := (h.entities e).mp ⟨he, hcategory⟩
    have hsame : first.instanceName = m.instanceName := hname
    rw [hsame] at hfirst
    exact ⟨first, hfirst, Option.some.inj htype⟩
  · rintro ⟨first, hfirst, htype⟩
    have hname := instanceName_of_firstNamed? hfirst
    rw [← hname] at hfirst
    obtain ⟨he, hcategory⟩ := (h.entities first.entity).mpr ⟨first, hfirst, rfl⟩
    exact ⟨first.entity, he, hcategory, hname, congrArg some htype⟩

/-- Every array member is listed in its struct with the name of an array type.
Its own array type is what the name stands for exactly if the first member
with that name has the same one, so all members keep their types exactly if no
name is shared by different array types.  Plain members never share a name in
this way. -/
theorem Header.array_members_keep_type_iff (d : Dialect) (source : Text) :
    (∀ m ∈ Header.arrayMembers d source,
      m.IsListed (Header.parse d source) ∧
        (m.KeepsType (Header.parse d source) ↔
          ∃ first, firstNamed? (Header.arrayMembers d source) m.instanceName =
            some first ∧ first.type = m.type)) ∧
    ((∀ m ∈ Header.arrayMembers d source,
        m.KeepsType (Header.parse d source)) ↔
      ∀ m ∈ Header.arrayMembers d source,
        ∀ m' ∈ Header.arrayMembers d source,
          m.instanceName = m'.instanceName → m.type = m'.type) ∧
    ∀ m ∈ Header.arrayMembers d source, ∀ m' ∈ Header.arrayMembers d source,
      m.IsPlain → m'.IsPlain → m.instanceName = m'.instanceName →
        m.elementType = m'.elementType ∧
          m.declarator.dims = m'.declarator.dims := by
  obtain ⟨g, hentities, hgathers⟩ := Header.exists_fileGathers d source
  rw [← hentities]
  have hkeeps := hgathers.recorded.keepsType_iff
  refine ⟨fun m hm => ⟨hgathers.listed m hm, hkeeps m⟩, ?_,
    fun m _ m' _ hplain hplain' => hplain.inj hplain'⟩
  constructor
  · intro hall m hm m' hm' hname
    obtain ⟨first, hfirst, htype⟩ := (hkeeps m).mp (hall m hm)
    obtain ⟨first', hfirst', htype'⟩ := (hkeeps m').mp (hall m' hm')
    rw [← hname, hfirst] at hfirst'
    obtain rfl := Option.some.inj hfirst'
    rw [← htype, htype']
  · intro hall m hm
    have hsome := firstNamed?_isSome_iff.mpr ⟨m, hm, rfl⟩
    obtain ⟨first, hfirst⟩ := Option.isSome_iff_exists.mp hsome
    refine (hkeeps m).mpr ⟨first, hfirst, ?_⟩
    exact hall first (List.mem_of_find?_eq_some hfirst) m hm
      (instanceName_of_firstNamed? hfirst)

/-- A struct and a struct in it both have a matrix, and one name stands for the
array type of both. -/
theorem Header.array_members_keep_type_nested :
    let source : Text :=
      "typedef struct { float a[4][4]; struct { float *p[4], b[4][4]; } In; } Out;"
    ∃ m ∈ Header.arrayMembers {} source, ∃ m' ∈ Header.arrayMembers {} source,
      m.owner.resolvedName = some ("Out" : Text) ∧
      m'.owner.resolvedName = some ("In" : Text) ∧
      m.IsListed (Header.parse {} source) ∧
      m'.IsListed (Header.parse {} source) ∧
      m.IsPlain ∧ m'.IsPlain ∧ m.instanceName = m'.instanceName ∧
      m.elementType = m'.elementType ∧
      m.KeepsType (Header.parse {} source) ∧
      m'.KeepsType (Header.parse {} source) := by
  intro source
  have hmembers : ∃ m ∈ Header.arrayMembers {} source,
      ∃ m' ∈ Header.arrayMembers {} source,
        m.owner.resolvedName = some ("Out" : Text) ∧
        m'.owner.resolvedName = some ("In" : Text) ∧
        m.base = "float" ∧ m'.base = "float" ∧
        m.declarator = ⟨[], "a", ["4", "4"]⟩ ∧
        m'.declarator = ⟨[], "b", ["4", "4"]⟩ ∧
        m.instanceName = m'.instanceName := by
    decide +kernel
  have hagree : ∀ m ∈ Header.arrayMembers {} source,
      ∀ m' ∈ Header.arrayMembers {} source,
        m.instanceName = m'.instanceName → m.type = m'.type := by
    decide +kernel
  let float : Identifier := ⟨'f', "loat", rfl, rfl, List.all_eq_true.mp rfl⟩
  let four : Digits := ⟨'4', [], rfl, by simp⟩
  obtain ⟨m, hm, m', hm', hout, hin, hbase, hbase', ha, hb, hname⟩ := hmembers
  have hplain : m.IsPlain :=
    ⟨float, ⟨0, ⟨'a', [], rfl, rfl, by simp⟩, [four, four]⟩, hbase, ha,
      by decide⟩
  have hplain' : m'.IsPlain :=
    ⟨float, ⟨0, ⟨'b', [], rfl, rfl, by simp⟩, [four, four]⟩, hbase', hb,
      by decide⟩
  obtain ⟨hlisted, hkeep, hinj⟩ := Header.array_members_keep_type_iff {} source
  exact ⟨m, hm, m', hm', hout, hin, (hlisted m hm).1, (hlisted m' hm').1,
    hplain, hplain', hname, (hinj m hm m' hm' hplain hplain' hname).1,
    hkeep.mpr hagree m hm, hkeep.mpr hagree m' hm'⟩

/-- A pointer and a type that is called like one get the same name for their
arrays, and the second member is left with the array type of the first. -/
theorem pointer_array_hides_other_array :
    let source : Text := "typedef struct { char *a[4]; char_ptr b[4]; } ODE_S;"
    ∃ m ∈ Header.arrayMembers {} source, m.declarator.name = "b" ∧
      m.type = "char_ptr[4]" ∧ m.instanceName = "char_ptr_array_4" ∧
      ¬ m.KeepsType (Header.parse {} source) := by
  decide +kernel

end Bindery
