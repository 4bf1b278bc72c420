import Bindery.Direction
import Bindery.Proofs.ListPieces

/-!
# Directions are looked up by the first word

The markers of a dialect are tried as beginnings of the type, longer ones
first.  A marker without white space only counts where white space follows, so
it must be the whole first word of the type, and of the markers that are this
word the sort keeps the declared order.  Trying them one after another is
therefore a lookup of the first word among the declared markers.
-/

namespace Bindery

/-! ## Sorted and permuted tables -/

section Tables

variable {α β : Type}

/-- A stable sort keeps the order of elements that it does not distinguish. -/
theorem filter_mergeSort {le : α → α → Bool}
    (htrans : ∀ a b c, le a b = true → le b c = true → le a c = true)
    (htotal : ∀ a b, (le a b || le b a) = true) {p : α → Bool}
    (hp : ∀ a b, p a = true → p b = true → le a b = true) (l : List α) :
    (l.mergeSort le).filter p = l.filter p := by
  have hsorted : (l.filter p).Pairwise fun a b => le a b = true :=
    List.pairwise_filter.mpr (List.pairwise_of_forall hp)
  have hsublist := (List.sublist_mergeSort htrans htotal hsorted
    List.filter_sublist).filter p
  rw [List.filter_filter, show (fun a => p a && p a) = p from
    funext fun a => Bool.and_self (p a)] at hsublist
  have hlength := ((List.mergeSort_perm l le).filter p).length_eq
  exact (hsublist.eq_of_length hlength.symm).symm

theorem lookup_eq_head?_filter [BEq α] (l : List (α × β)) (key : α) :
    l.lookup key = ((l.filter (key == ·.1)).head?).map Prod.snd := by
  induction l with
  | nil => rfl
  | cons x l ih =>
      obtain ⟨k, value⟩ := x
      rw [List.lookup_cons, List.filter_cons]
      cases h : key == k with
      | false => exact ih
      | true => rfl

variable [BEq α] [LawfulBEq α]

theorem lookup_mergeSort (size : α → Nat) (l : List (α × β)) (key : α) :
    (l.mergeSort fun a b => size b.1 ≤ size a.1).lookup key =
      l.lookup key := by
  rw [lookup_eq_head?_filter, lookup_eq_head?_filter, filter_mergeSort]
  · intro a b c hab hbc
    simp only [decide_eq_true_eq] at hab hbc ⊢
    omega
  · intro a b
    simp only [Bool.or_eq_true, decide_eq_true_eq]
    omega
  · -- Entries for the key have keys of the same size.
    intro a b ha hb
    rw [← beq_iff_eq.mp ha, ← beq_iff_eq.mp hb, decide_eq_true_eq]

theorem lookup_eq_some_iff_mem {l : List (α × β)}
    (h : (l.map Prod.fst).Nodup) {key : α} {value : β} :
    l.lookup key = some value ↔ (key, value) ∈ l := by
  induction l with
  | nil => simp
  | cons x l ih =>
      obtain ⟨k, v⟩ := x
      rw [List.map_cons, List.nodup_cons] at h
      rw [List.lookup_cons, List.mem_cons, Prod.mk.injEq]
      by_cases hkey : key = k
      · subst hkey
        have hnot : (key, value) ∉ l :=
          fun hmem => h.1 (List.mem_map.mpr ⟨_, hmem, rfl⟩)
        simp [hnot, eq_comm]
      · simp [hkey, ih h.2, beq_false_of_ne hkey]

theorem lookup_perm {l l' : List (α × β)} (hperm : l'.Perm l)
    (h : (l.map Prod.fst).Nodup) (key : α) : l'.lookup key = l.lookup key := by
  have h' : (l'.map Prod.fst).Nodup := (hperm.map Prod.fst).nodup_iff.mpr h
  apply Option.ext
  intro value
  rw [lookup_eq_some_iff_mem h', lookup_eq_some_iff_mem h, hperm.mem_iff]

theorem lookup_map_const (keys : List α) (value : β) (key : α) :
    (keys.map fun k => (k, value)).lookup key =
      if key ∈ keys then some value else none := by
  induction keys with
  | nil => rfl
  | cons k keys ih =>
      rw [List.map_cons, List.lookup_cons]
      by_cases hkey : key = k
      · simp [hkey]
      · simp [hkey, ih, beq_false_of_ne hkey]

end Tables

/-! ## Words of a text -/

namespace Text

/-- The first word of a text; words end at white space. -/
def firstWord (t : Text) : Text := (trimStart t).takeWhile (!isSpace ·)

/-- What follows the first word, from the white space on. -/
def behindFirstWord (t : Text) : Text := (trimStart t).dropWhile (!isSpace ·)

theorem firstWord_append (t : Text) :
    firstWord t ++ behindFirstWord t = trimStart t :=
  List.takeWhile_append_dropWhile

/-- The word stands in the text as an identifier of its own. -/
def HasWord (word t : Text) : Prop :=
  ∃ before after, t = before ++ (word ++ after) ∧
    (∀ c ∈ before.getLast?, isIdent c = false) ∧
    ∀ c ∈ after.head?, isIdent c = false

theorem hasWord_iff_mem_splitOnP {word : Text}
    (hword : ∀ c ∈ word, isIdent c = true) (t : Text) :
    HasWord word t ↔ word ∈ t.splitOnP (!isIdent ·) := by
  have hclean : ∀ c ∈ word, (!isIdent c) = false := by simpa using hword
  constructor
  · rintro ⟨before, after, rfl, hbefore, hafter⟩
    have hhead : word ∈ (word ++ after).splitOnP (!isIdent ·) := by
      cases after with
      | nil => simp [List.splitOnP_eq_singleton hclean]
      | cons c after =>
          have hc : (!isIdent c) = true := by simp [hafter c rfl]
          rw [List.splitOnP_append_cons (p := (!isIdent ·)) _ _ hc,
            List.splitOnP_eq_singleton hclean]
          exact List.mem_append_left _ List.mem_cons_self
    rcases List.eq_nil_or_concat before with rfl | ⟨front, c, rfl⟩
    · exact hhead
    · have hc : (!isIdent c) = true := by simp [hbefore c (by simp)]
      rw [List.concat_eq_append, List.append_assoc, List.singleton_append,
        List.splitOnP_append_cons (p := (!isIdent ·)) _ _ hc]
      exact List.mem_append_right _ hhead
  · intro h
    refine (of_mem_splitOnP (p := (!isIdent ·))
      (Q := (HasWord · t)) ?_ ⟨[], [], by simp⟩ h).1
    rintro u c v hc ⟨before, after, rfl, hbefore, hafter⟩
    rw [Bool.not_eq_true'] at hc
    exact ⟨⟨before, c :: (v ++ after), by simp, hbefore, by simpa using hc⟩,
      ⟨before ++ (u ++ [c]), after, by simp, by simpa using hc, hafter⟩⟩

end Text

/-! ## Directions -/

/-- What a pointer of this type refers to may be written. -/
def Direction.Writable (type : Text) : Prop :=
  ∃ pointee : Text, type = pointee ++ ("*" : Text) ∧
    ¬ Text.HasWord "const" pointee

theorem Direction.implicit_eq (type : Text) :
    (Writable type → implicit type = inOut) ∧
      (¬ Writable type → implicit type = input) := by
  have hconst : ∀ c ∈ ("const" : Text), Text.isIdent c = true :=
    List.all_eq_true.mp (by decide)
  cases hstar : Text.before? "*" type with
  | none =>
      have hnot : ¬ Writable type := by
        rintro ⟨pointee, hpointee, _⟩
        rw [Text.before?_eq_some_iff.mpr hpointee] at hstar
        exact Option.some_ne_none pointee hstar
      simp only [implicit, hstar]
      exact ⟨fun h => absurd h hnot, fun _ => trivial⟩
  | some pointee =>
      have hwritable :
          Writable type ↔ ¬ Text.HasWord "const" pointee := by
        constructor
        · rintro ⟨pointee', hpointee', hnot⟩
          rw [Text.before?_eq_some_iff.mpr hpointee'] at hstar
          exact Option.some.inj hstar ▸ hnot
        · intro hnot
          exact ⟨pointee, Text.before?_eq_some_iff.mp hstar, hnot⟩
      rw [hwritable, Text.hasWord_iff_mem_splitOnP hconst,
        ← List.contains_iff_mem]
      simp only [implicit, hstar]
      constructor
      · intro hnot
        rw [if_neg hnot]
      · intro h
        rw [if_pos (not_not.mp h)]

namespace ArgumentType

def unmarked (type : Text) : ArgumentType :=
  { direction := Direction.implicit (Text.trim type)
    bareType := Text.trim type }

/-- The classification by a table of markers, tried one after another. -/
def classifyWith (table : List (Text × Direction)) (type : Text) :
    ArgumentType :=
  (table.findSome? fun entry =>
    (afterMarker? entry.1 (Text.trimStart type)).map fun rest =>
      { direction := entry.2, bareType := Text.trim rest }).getD
    (unmarked type)

theorem classify_eq_classifyWith (d : Dialect) (type : Text) :
    classify d type = classifyWith (Direction.markers d) type := by
  unfold classify classifyWith
  simp only
  induction Direction.markers d with
  | nil => rfl
  | cons entry table ih =>
      simp only [List.findSome?_cons]
      cases afterMarker? entry.1 (Text.trimStart type) with
      | some rest => rfl
      | none => exact ih

/-- A marker without white space is found where it is the first word and white
space follows. -/
theorem afterMarker?_trimStart {marker : Text}
    (h : ∀ c ∈ marker, Text.isSpace c = false) (type : Text) :
    afterMarker? marker (Text.trimStart type) =
      if Text.behindFirstWord type ≠ [] ∧ Text.firstWord type = marker
      then some (Text.behindFirstWord type) else none := by
  apply Option.ext
  intro rest
  rw [Option.ite_none_right_eq_some, Option.some.injEq, afterMarker?,
    Option.filter_eq_some_iff, Text.after?_eq_some_iff]
  constructor
  · rintro ⟨hsplit, hblank⟩
    have hstops : Text.Stops (!Text.isSpace ·) rest := by
      intro c hc
      rw [Option.mem_def.mp hc, Option.any_some] at hblank
      simp [hblank]
    have hmarker : ∀ c ∈ marker, (!Text.isSpace c) = true := by simpa using h
    have hrest : Text.behindFirstWord type = rest := by
      rw [Text.behindFirstWord, hsplit, hstops.dropWhile_append hmarker]
    have hword := Text.firstWord_append type
    rw [hrest, hsplit] at hword
    refine ⟨⟨?_, List.append_cancel_right hword⟩, hrest⟩
    rintro hnil
    rw [← hrest, hnil] at hblank
    contradiction
  · rintro ⟨⟨hne, rfl⟩, rfl⟩
    refine ⟨(Text.firstWord_append type).symm, ?_⟩
    obtain ⟨c, rest, hcons⟩ := List.exists_cons_of_ne_nil hne
    have hnot := List.head?_dropWhile_not (!Text.isSpace ·)
      (Text.trimStart type)
    rw [← Text.behindFirstWord, hcons] at hnot
    rw [hcons]
    simpa using hnot

/-- The direction of the first word among the entries of a table, if it is
followed by white space. -/
def lookupFirstWord (table : List (Text × Direction)) (type : Text) :
    Option Direction :=
  if Text.behindFirstWord type = [] then none
  else table.lookup (Text.firstWord type)

theorem classifyWith_eq {table : List (Text × Direction)}
    (h : ∀ entry ∈ table, ∀ c ∈ entry.1, Text.isSpace c = false)
    (type : Text) :
    classifyWith table type =
      ((lookupFirstWord table type).map fun direction =>
        { direction
          bareType := Text.trim (Text.behindFirstWord type) }).getD
        (unmarked type) := by
  unfold classifyWith lookupFirstWord
  congr 1
  by_cases hnil : Text.behindFirstWord type = []
  · rw [if_pos hnil, Option.map_none, List.findSome?_eq_none_iff]
    intro entry hentry
    rw [afterMarker?_trimStart (h entry hentry),
      if_neg fun hword => hword.1 hnil, Option.map_none]
  · rw [if_neg hnil]
    induction table with
    | nil => rfl
    | cons entry table ih =>
        obtain ⟨marker, direction⟩ := entry
        rw [List.forall_mem_cons] at h
        rw [List.findSome?_cons, List.lookup_cons,
          afterMarker?_trimStart h.1, ih h.2]
        by_cases hword : Text.firstWord type = marker
        · simp [hnil, hword]
        · simp [hword, beq_false_of_ne hword]

end ArgumentType

def Dialect.MarkersBlankFree (d : Dialect) : Prop :=
  ∀ marker ∈ d.markerIn :: d.markerOut :: d.markerOutReturn :: d.markerInOut,
    ∀ c ∈ marker, Text.isSpace c = false

instance (d : Dialect) : Decidable d.MarkersBlankFree :=
  decidable_of_iff ((d.markerIn :: d.markerOut :: d.markerOutReturn ::
    d.markerInOut).all fun marker => marker.all (!Text.isSpace ·))
    (by simp [Dialect.MarkersBlankFree])

namespace Dialect.MarkersBlankFree

variable {d : Dialect}

theorem declaredMarkers (h : d.MarkersBlankFree) :
    ∀ entry ∈ Direction.declaredMarkers d,
      ∀ c ∈ entry.1, Text.isSpace c = false := by
  intro entry hentry
  apply h entry.1
  rcases List.mem_append.mp (List.mem_of_mem_filter hentry) with
    hfixed | hinOut
  · simp only [List.mem_cons, List.not_mem_nil, or_false] at hfixed
    rcases hfixed with rfl | rfl | rfl
    · simp
    · simp
    · simp
  · obtain ⟨marker, hmarker, rfl⟩ := List.mem_map.mp hinOut
    simp [hmarker]

theorem perm (h : d.MarkersBlankFree) {spellings : List Text}
    (hspellings : spellings.Perm d.markerInOut) :
    Dialect.MarkersBlankFree { d with markerInOut := spellings } := by
  intro marker hmarker
  apply h marker
  simpa only [List.mem_cons, hspellings.mem_iff] using hmarker

end Dialect.MarkersBlankFree

namespace Direction

theorem lookup_declaredMarkers_perm (d : Dialect) {spellings : List Text}
    (h : spellings.Perm d.markerInOut) (word : Text) :
    (declaredMarkers { d with markerInOut := spellings }).lookup word =
      (declaredMarkers d).lookup word := by
  have hspellings : ∀ spellings : List Text,
      (spellings.map fun marker => (marker, inOut)).filter (!·.1.isEmpty) =
        (spellings.filter (!·.isEmpty)).map fun marker => (marker, inOut) :=
    fun spellings => List.filter_map
  simp only [declaredMarkers, List.filter_append, List.lookup_append,
    hspellings, lookup_map_const, (h.filter _).mem_iff]

end Direction

namespace ArgumentType

theorem classifyWith_congr {table table' : List (Text × Direction)}
    (h : ∀ entry ∈ table, ∀ c ∈ entry.1, Text.isSpace c = false)
    (h' : ∀ entry ∈ table', ∀ c ∈ entry.1, Text.isSpace c = false)
    (hlookup : ∀ word, table.lookup word = table'.lookup word)
    (type : Text) : classifyWith table type = classifyWith table' type := by
  rw [classifyWith_eq h, classifyWith_eq h', lookupFirstWord, lookupFirstWord,
    hlookup]

theorem classify_eq_declared {d : Dialect} (h : d.MarkersBlankFree)
    (type : Text) :
    classify d type = classifyWith (Direction.declaredMarkers d) type := by
  rw [classify_eq_classifyWith]
  apply classifyWith_congr
  · intro entry hentry
    exact h.declaredMarkers entry (List.mem_mergeSort.mp hentry)
  · exact h.declaredMarkers
  · exact lookup_mergeSort Text.utf8Size (Direction.declaredMarkers d)

/-- The direction of an argument is found by a lookup of the first word of its
type among the declared markers.  Without a marker the argument is written if
its type is a pointer to something not constant.  Neither the order of markers
that differ nor that of the spellings of one marker is of importance. -/
theorem classify_first_word {d : Dialect} (h : d.MarkersBlankFree)
    (type : Text) :
    let declared := Direction.declaredMarkers d
    let word := Text.firstWord type
    let rest := Text.behindFirstWord type
    (∀ direction, rest ≠ [] → declared.lookup word = some direction →
      classify d type = { direction, bareType := Text.trim rest }) ∧
    (rest = [] ∨ declared.lookup word = none →
      (classify d type).bareType = Text.trim type ∧
      (Direction.Writable (Text.trim type) →
        (classify d type).direction = .inOut) ∧
      (¬ Direction.Writable (Text.trim type) →
        (classify d type).direction = .input)) ∧
    ((declared.map Prod.fst).Nodup → ∀ table : List (Text × Direction),
      table.Perm declared → classifyWith table type = classify d type) ∧
    ∀ spellings : List Text, spellings.Perm d.markerInOut →
      classify { d with markerInOut := spellings } type = classify d type := by
  intro declared word rest
  have hclassify := classify_eq_declared h type
  have hfound := classifyWith_eq h.declaredMarkers type
  refine ⟨?_, ?_, ?_, ?_⟩
  · intro direction hrest hlookup
    rw [hclassify, hfound, lookupFirstWord, if_neg hrest, hlookup]
    rfl
  · intro hnone
    have hunmarked : classify d type = unmarked type := by
      rw [hclassify, hfound, lookupFirstWord]
      by_cases hrest : rest = []
      · rw [if_pos hrest]
        rfl
      · rw [if_neg hrest, hnone.resolve_left hrest]
        rfl
    rw [hunmarked]
    exact ⟨rfl, Direction.implicit_eq (Text.trim type)⟩
  · intro hnodup table htable
    rw [hclassify]
    apply classifyWith_congr
    · exact fun entry hentry =>
        h.declaredMarkers entry (htable.mem_iff.mp hentry)
    · exact h.declaredMarkers
    · exact lookup_perm htable hnodup
  · intro spellings hspellings
    have h' := h.perm hspellings
    rw [hclassify, classify_eq_declared h']
    exact classifyWith_congr h'.declaredMarkers h.declaredMarkers
      (Direction.lookup_declaredMarkers_perm d hspellings) type

/-- Markers that are beginnings of each other and of the name of a type. -/
theorem classify_first_word_beginnings :
    let d : Dialect :=
      { markerIn := "M", markerOut := "M_OUT", markerOutReturn := "M_OUT_R"
        markerInOut := ["M_", "M_OUT_"] }
    let marked : Text := "\tM_OUT\n const T *"
    d.MarkersBlankFree ∧
    (Text.behindFirstWord marked ≠ [] ∧
      (Direction.declaredMarkers d).lookup (Text.firstWord marked) =
        some .output ∧
      classify d marked = ⟨.output, "const T *"⟩) ∧
    ((Direction.declaredMarkers d).lookup (Text.firstWord "M_OUTER *") = none ∧
      (classify d "M_OUTER *").direction = .inOut) ∧
    ((Direction.declaredMarkers d).map Prod.fst).Nodup ∧
      classifyWith (Direction.declaredMarkers d).reverse marked =
        classify d marked ∧
      classify { d with markerInOut := ["M_OUT_", "M_"] } marked =
        classify d marked := by
  intro d marked
  have hd : d.MarkersBlankFree := by decide
  have hrest : Text.behindFirstWord marked ≠ [] := by decide
  have hlookup : (Direction.declaredMarkers d).lookup
      (Text.firstWord marked) = some .output := by decide
  have hnone : (Direction.declaredMarkers d).lookup
      (Text.firstWord "M_OUTER *") = none := by decide
  have hnodup : ((Direction.declaredMarkers d).map Prod.fst).Nodup := by decide
  have hwritable : Direction.Writable (Text.trim "M_OUTER *") := by
    refine ⟨"M_OUTER ", by decide, ?_⟩
    rw [Text.hasWord_iff_mem_splitOnP (List.all_eq_true.mp (by decide))]
    decide
  obtain ⟨hmarked, _, hperm, hspellings⟩ := classify_first_word hd marked
  obtain ⟨_, hunmarked, _⟩ := classify_first_word hd "M_OUTER *"
  exact ⟨hd, ⟨hrest, hlookup, hmarked _ hrest hlookup⟩,
    ⟨hnone, (hunmarked (.inr hnone)).2.1 hwritable⟩, hnodup,
    hperm hnodup _ (List.reverse_perm _), hspellings _ (by decide)⟩

end ArgumentType

end Bindery
