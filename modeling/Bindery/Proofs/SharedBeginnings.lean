import Bindery.Binding.Context
import Bindery.Proofs.CodeBytes

/-!
# What the names of enumerators share

The beginning that is left out of the names of enumerators is found in two
ways.  If the values share a beginning that repeats the name of the enum, up to
an underscore or as far as they agree, it is the longest such beginning.  Else
it is the fixed beginning, provided that all values have it.  Both leave every
value something, so the names stay non-empty and different.

The values are compared character by character.  A beginning that all of them
share is therefore cut between characters in each of them, wherever these
stand in bytes.
-/

namespace Bindery

namespace EnumPrefix

/-! ## Common beginnings -/

theorem isPrefix_commonPrefix_iff {p s t : Text} :
    p <+: commonPrefix s t ↔ p <+: s ∧ p <+: t := by
  fun_induction commonPrefix s t generalizing p with
  | case1 a s t ih =>
      cases p with
      | nil => simp
      | cons c p =>
          rw [List.cons_prefix_cons, List.cons_prefix_cons,
            List.cons_prefix_cons, ih]
          tauto
  | case2 a s b t hne =>
      cases p with
      | nil => simp
      | cons c p =>
          rw [List.cons_prefix_cons, List.cons_prefix_cons]
          constructor
          · intro h
            simp at h
          · rintro ⟨⟨rfl, _⟩, rfl, _⟩
            exact absurd rfl hne
  | case3 s t hempty =>
      constructor
      · intro h
        rw [List.prefix_nil.mp h]
        exact ⟨List.nil_prefix, List.nil_prefix⟩
      · rintro ⟨hs, ht⟩
        cases p with
        | nil => exact List.nil_prefix
        | cons c p =>
            obtain ⟨s', rfl⟩ := hs
            obtain ⟨t', rfl⟩ := ht
            exact absurd rfl (hempty c (p ++ s') c (p ++ t') rfl)

theorem isPrefix_foldl_commonPrefix_iff {p first : Text}
    {others : List Text} :
    p <+: others.foldl commonPrefix first ↔
      p <+: first ∧ ∀ v ∈ others, p <+: v := by
  induction others generalizing first with
  | nil => simp
  | cons v others ih =>
      rw [List.foldl_cons, ih, isPrefix_commonPrefix_iff, List.forall_mem_cons,
        and_assoc]

theorem isPrefix_shared_iff {p : Text} {values : List Text}
    (hne : values ≠ []) : p <+: shared values ↔ ∀ v ∈ values, p <+: v := by
  cases values with
  | nil => contradiction
  | cons first others =>
      rw [shared, isPrefix_foldl_commonPrefix_iff, List.forall_mem_cons]

/-! ## Beginnings that may be left out -/

/-- Every value has the beginning and something behind it. -/
def ProperlyShared (values : List Text) (lead : Text) : Prop :=
  ∀ v ∈ values, lead <+: v ∧ lead ≠ v

instance (values : List Text) (lead : Text) :
    Decidable (ProperlyShared values lead) :=
  inferInstanceAs (Decidable (∀ v ∈ values, lead <+: v ∧ lead ≠ v))

/-- A beginning that repeats the name of the enum.  It ends behind an
underscore unless it is all that the values share. -/
structure Repeats (enumName : Text) (values : List Text) (lead : Text) :
    Prop where
  properlyShared : ProperlyShared values lead
  spells : spellsName enumName lead = true
  ends : lead.getLast? = some '_' ∨
    ∀ p, (∀ v ∈ values, p <+: v) → p <+: lead

variable {enumName : Text} {values : List Text}

theorem properlyShared_iff (hne : values ≠ []) {c : Text} :
    ProperlyShared values c ↔ c <+: shared values ∧ fits values c = true := by
  rw [isPrefix_shared_iff hne, fits, List.all_eq_true]
  constructor
  · intro h
    refine ⟨fun v hv => (h v hv).1, fun v hv => ?_⟩
    obtain ⟨hbegin, hproper⟩ := h v hv
    have hlength := hbegin.length_le
    have hlength' : c.length ≠ v.length :=
      fun heq => hproper (hbegin.eq_of_length heq)
    rw [decide_eq_true_iff]
    omega
  · rintro ⟨hbegin, hlength⟩ v hv
    refine ⟨hbegin v hv, ?_⟩
    rintro rfl
    simpa using hlength c hv

theorem mem_candidates_iff {c lead : Text} :
    c ∈ candidates lead ↔
      c = lead ∨ c <+: lead ∧ c.getLast? = some '_' := by
  rw [candidates, List.mem_cons]
  refine or_congr_right ?_
  simp only [List.mem_map, List.mem_filter, List.mem_reverse, List.mem_range,
    beq_iff_eq]
  constructor
  · rintro ⟨i, ⟨_, hi⟩, rfl⟩
    refine ⟨List.take_prefix _ _, ?_⟩
    rw [List.getLast?_take, if_neg (Nat.succ_ne_zero i), Nat.add_sub_cancel,
      hi, Option.some_or]
  · rintro ⟨⟨rest, rfl⟩, hlast⟩
    obtain ⟨front, rfl⟩ := List.getLast?_eq_some_iff.mp hlast
    refine ⟨front.length, by simp, ?_⟩
    rw [List.take_append_of_le_length (by simp), List.take_of_length_le]
    simp

theorem candidates_pairwise (lead : Text) :
    (candidates lead).Pairwise fun longer shorter => shorter <+: longer := by
  rw [candidates, List.pairwise_cons]
  constructor
  · intro c hc
    obtain ⟨i, _, rfl⟩ := List.mem_map.mp hc
    exact List.take_prefix _ _
  · have hdown : (List.range lead.length).reverse.Pairwise (· > ·) :=
      List.pairwise_reverse.mpr List.pairwise_lt_range
    refine List.pairwise_map.mpr ((hdown.filter _).imp ?_)
    intro i j hij
    exact List.take_prefix_take_left (by omega)

theorem repeats_iff (hne : values ≠ []) {c : Text} :
    Repeats enumName values c ↔
      c ∈ candidates (shared values) ∧
        (fits values c && spellsName enumName c) = true := by
  rw [mem_candidates_iff, Bool.and_eq_true]
  constructor
  · intro h
    obtain ⟨hbegin, hfits⟩ := (properlyShared_iff hne).mp h.properlyShared
    refine ⟨?_, hfits, h.spells⟩
    rcases h.ends with hlast | hall
    · exact .inr ⟨hbegin, hlast⟩
    · have hback := hall (shared values)
        ((isPrefix_shared_iff hne).mp List.prefix_rfl)
      exact .inl (hbegin.eq_of_length_le hback.length_le)
  · rintro ⟨hc, hfits, hspells⟩
    have hbegin : c <+: shared values := by
      rcases hc with rfl | hc
      · exact List.prefix_rfl
      · exact hc.1
    refine ⟨(properlyShared_iff hne).mpr ⟨hbegin, hfits⟩, hspells, ?_⟩
    rcases hc with rfl | hc
    · exact .inr fun p hp => (isPrefix_shared_iff hne).mpr hp
    · exact .inl hc.2

theorem longest_of_find? (hne : values ≠ []) {lead : Text}
    (h : (candidates (shared values)).find? (fun c =>
      fits values c && spellsName enumName c) = some lead) :
    Repeats enumName values lead ∧
      ∀ c, Repeats enumName values c → c <+: lead := by
  obtain ⟨hlead, longer, shorter, hsplit, hbefore⟩ :=
    List.find?_eq_some_iff_append.mp h
  refine ⟨(repeats_iff hne).mpr ⟨List.mem_of_find?_eq_some h, hlead⟩, ?_⟩
  intro c hc
  obtain ⟨hmem, hfound⟩ := (repeats_iff hne).mp hc
  -- The candidates in front were refused, and those behind are shorter.
  have hsorted := candidates_pairwise (shared values)
  rw [hsplit] at hmem hsorted
  rcases List.mem_append.mp hmem with hlonger | hmem
  · have hnot := hbefore c hlonger
    rw [hfound] at hnot
    contradiction
  · rcases List.mem_cons.mp hmem with rfl | hshorter
    · exact List.prefix_rfl
    · have hafter := (List.pairwise_append.mp hsorted).2.1
      exact (List.pairwise_cons.mp hafter).1 c hshorter

/-- The longest beginning that repeats the name of the enum is left out.  If
there is none, the fixed beginning is, and nothing if not all values have it. -/
theorem ofValues_cases (hne : values ≠ []) (enumName fallback : Text) :
    (Repeats enumName values (ofValues enumName values fallback) ∧
      ∀ c, Repeats enumName values c →
        c <+: ofValues enumName values fallback) ∨
    (∀ c, ¬ Repeats enumName values c) ∧
      ofValues enumName values fallback =
        if ProperlyShared values fallback then fallback else [] := by
  have hempty : values.isEmpty = false := by simpa using hne
  cases hfind : (candidates (shared values)).find? fun c =>
      fits values c && spellsName enumName c with
  | some c =>
      have hlead : ofValues enumName values fallback = c := by
        simp [ofValues, hempty, hfind]
      rw [hlead]
      exact .inl (longest_of_find? hne hfind)
  | none =>
      refine .inr ⟨fun c hc => ?_, ?_⟩
      · obtain ⟨hmem, hfound⟩ := (repeats_iff hne).mp hc
        exact List.find?_eq_none.mp hfind c hmem hfound
      · have hstarts : Text.startsWith fallback (shared values) = true ↔
            fallback <+: shared values := by
          rw [Text.startsWith, Option.isSome_iff_exists]
          simp only [Text.after?_eq_some_iff]
          exact exists_congr fun rest => eq_comm
        have hlead : ofValues enumName values fallback =
            if fallback ≠ [] ∧ ProperlyShared values fallback then fallback
            else [] := by
          simp [ofValues, hempty, hfind, properlyShared_iff hne, hstarts,
            and_assoc]
        rw [hlead]
        -- An empty fixed beginning leaves out nothing either way.
        by_cases hnil : fallback = [] <;> simp [hnil]

theorem ofValues_properlyShared (enumName fallback : Text)
    {values : List Text} {v : Text} (hv : v ∈ values) :
    ofValues enumName values fallback <+: v ∧
      (ofValues enumName values fallback = [] ∨
        ofValues enumName values fallback ≠ v) := by
  rcases ofValues_cases (List.ne_nil_of_mem hv) enumName fallback with
    ⟨hrepeats, _⟩ | ⟨_, hlead⟩
  · obtain ⟨hbegin, hproper⟩ := hrepeats.properlyShared v hv
    exact ⟨hbegin, .inr hproper⟩
  · rw [hlead]
    split
    next hshared => exact ⟨(hshared v hv).1, .inr (hshared v hv).2⟩
    next => exact ⟨List.nil_prefix, .inl rfl⟩

theorem ofValues_eq_fallback {fallback : Text}
    (hne : ofValues enumName values fallback ≠ [])
    (hspells :
      spellsName enumName (ofValues enumName values fallback) = false) :
    ofValues enumName values fallback = fallback := by
  have hvalues : values ≠ [] := by
    rintro rfl
    exact hne rfl
  rcases ofValues_cases hvalues enumName fallback with
    ⟨hrepeats, _⟩ | ⟨_, hlead⟩
  · exact absurd (hspells.symm.trans hrepeats.spells) Bool.false_ne_true
  · rw [hlead] at hne ⊢
    exact if_pos (by_contra fun hnot => hne (if_neg hnot))

end EnumPrefix

/-! ## The names that remain -/

theorem strippedName_append (lead rest : Text) :
    strippedName lead (lead ++ rest) = rest :=
  List.drop_left

theorem utf8Size_lt_append (lead : Text) {rest : Text} (hne : rest ≠ []) :
    Text.utf8Size lead < Text.utf8Size (lead ++ rest) := by
  have hpos : Text.utf8Size rest ≠ 0 :=
    fun h => hne (Source.eq_nil_of_utf8Size h)
  rw [Source.utf8Size_append]
  exact Nat.lt_add_of_pos_right (Nat.pos_of_ne_zero hpos)

open EnumPrefix in
/-- The beginning that is left out of the names of an enum's values ends
between two characters of each value and is the same in all of them.  It is
empty or leaves something of every value, so the names that remain are not
empty, can be put together again and are different.  It repeats the name of the
enum or is the fixed beginning; it is the longest one that repeats the name,
and the fixed one is taken only if there is none. -/
theorem enumerator_names_stripped_safely (e : Entity) (fallback : Text) :
    let values := (e.membersOf .enumValue).map Member.name
    let lead := ofEntity e fallback
    let size := Text.utf8Size lead
    (∀ v ∈ values,
      Source.dropBytes? size v = some (strippedName lead v) ∧
      v.octets.take size = lead.octets ∧
      (size = 0 ∨ size < Text.utf8Size v) ∧
      (v ≠ [] → strippedName lead v ≠ []) ∧
      lead ++ strippedName lead v = v ∧
      ∀ w ∈ values, v ≠ w → strippedName lead v ≠ strippedName lead w) ∧
    (0 < size → spellsName e.name lead = false → lead = fallback) ∧
    (values ≠ [] →
      (∀ c, Repeats e.name values c →
        Repeats e.name values lead ∧ c <+: lead) ∧
      ((∀ c, ¬ Repeats e.name values c) →
        lead = if ProperlyShared values fallback then fallback else [])) := by
  intro values lead size
  have hshares : ∀ v ∈ values, lead <+: v ∧ (lead = [] ∨ lead ≠ v) :=
    fun v hv => ofValues_properlyShared e.name fallback hv
  refine ⟨?_, ?_, ?_⟩
  · intro v hv
    obtain ⟨⟨rest, rfl⟩, hproper⟩ := hshares v hv
    have hrest : lead = [] ∨ rest ≠ [] :=
      hproper.imp_right fun hproper hnil =>
        hproper (by rw [hnil, List.append_nil])
    have hsize : size = lead.octets.length := (Text.length_octets lead).symm
    rw [strippedName_append]
    refine ⟨Source.dropBytes?_utf8Size lead rest, ?_, ?_, ?_, rfl, ?_⟩
    · rw [Text.octets_append, hsize, List.take_left]
    · exact hrest.imp (congrArg Text.utf8Size) (utf8Size_lt_append lead)
    · rintro hne rfl
      exact hne (by rw [hrest.resolve_right (not_not.mpr rfl), List.append_nil])
    · intro w hw hdiffer
      obtain ⟨⟨rest', rfl⟩, _⟩ := hshares w hw
      rw [strippedName_append]
      rintro rfl
      exact hdiffer rfl
  · intro hpos hspells
    refine ofValues_eq_fallback ?_ hspells
    intro hnil
    exact hpos.ne' (congrArg Text.utf8Size hnil)
  · intro hvalues
    rcases ofValues_cases hvalues e.name fallback with
      ⟨hrepeats, hlongest⟩ | ⟨hnone, hlead⟩
    · exact ⟨fun c hc => ⟨hrepeats, hlongest c hc⟩,
        fun hnone => absurd hrepeats (hnone lead)⟩
    · exact ⟨fun c hc => absurd hc (hnone c), fun _ => hlead⟩

/-- The values agree in more than the name of the enum, and one of them starts
with another.  Under another name only the fixed beginning is left out. -/
theorem enumerator_names_stripped_safely_accented :
    let values : List Text := ["ODE_ÉTAGE_A", "ODE_ÉTAGE_AB"]
    let entity (name : Text) : Entity :=
      { category := .enum, name
        members := values.map fun v => { category := .enumValue, name := v } }
    let lead := EnumPrefix.ofEntity (entity "ODE_Étage") "ODE_"
    let other := EnumPrefix.ofEntity (entity "ODE_Floor") "ODE_"
    (Text.utf8Size lead = 11 ∧
      Source.dropBytes? 11 "ODE_ÉTAGE_A" = some ("A" : Text) ∧
      strippedName lead "ODE_ÉTAGE_A" ≠ strippedName lead "ODE_ÉTAGE_AB") ∧
    0 < Text.utf8Size other ∧
      EnumPrefix.spellsName "ODE_Floor" other = false ∧ other = "ODE_" := by
  intro values entity lead other
  have hlead : lead = "ODE_ÉTAGE_" := by decide +kernel
  have hpos : 0 < Text.utf8Size other := by decide +kernel
  have hspells : EnumPrefix.spellsName "ODE_Floor" other = false := by
    decide +kernel
  obtain ⟨hvalues, _⟩ :=
    enumerator_names_stripped_safely (entity "ODE_Étage") "ODE_"
  have hvalue := hvalues "ODE_ÉTAGE_A" (by decide)
  have hsize : Text.utf8Size lead = 11 := by
    rw [hlead]
    decide
  refine ⟨⟨hsize, ?_, ?_⟩, hpos, hspells, ?_⟩
  · have hcut := hvalue.1
    change Source.dropBytes? (Text.utf8Size lead) _ =
      some (strippedName lead _) at hcut
    rw [hsize, hlead] at hcut
    exact hcut
  · exact hvalue.2.2.2.2.2 "ODE_ÉTAGE_AB" (by decide) (by decide)
  · exact (enumerator_names_stripped_safely (entity "ODE_Floor") "ODE_").2.1
      hpos hspells

end Bindery
