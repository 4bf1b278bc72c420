import Bindery.Proofs.Identifiers
import Bindery.Source.Remark

/-!
# The pieces of a walk

A recognised piece comes from one of the rules.  The rules for comments and
directives come last and declare nothing, so what a walk declares was read by
a rule of the grammar at hand.

Conversely, where the rules are known to read something off the text at hand,
or to refuse it, the walk can be followed piece by piece.
-/

namespace Bindery.Source

variable {α : Type}

/-- A declared item was recognised somewhere in the text that was walked
over. -/
theorem exists_found_of_mem_documented
    {next : (c : Cursor) → Option (Found α c)} {start : Cursor}
    {x : Documented α}
    (h : x ∈ documented ((walk next start).map Located.piece)) :
    ∃ c found, next c = some found ∧ found.piece = .declared x.item := by
  have hpiece := mem_of_mem_documentedFrom h
  rw [List.mem_map] at hpiece
  obtain ⟨located, hlocated, hpiece⟩ := hpiece
  obtain ⟨_, ⟨found, hfound, heq⟩ | htoken⟩ := mem_walk hlocated
  · exact ⟨_, found, hfound, heq ▸ hpiece⟩
  · rw [hpiece] at htoken
    contradiction

/-! ## Following a walk -/

theorem Cursor.advanceTo_append (behind x rest : Text) :
    (Cursor.mk behind (x ++ rest)).advanceTo rest =
      ⟨x.reverse ++ behind, rest⟩ := by
  unfold Cursor.advanceTo Cursor.advance
  simp

theorem Cursor.midWord_of_behind {behind : Text}
    (h : ∀ c ∈ behind.head?, Text.isIdent c = false) (ahead : Text) :
    (Cursor.mk behind ahead).midWord = false := by
  unfold Cursor.midWord
  cases behind with
  | nil => rfl
  | cons c behind => simp [h c rfl]

/-- The declared items from the cursor on, if `doc` is in front of it. -/
def itemsFrom (rules : List (Cursor → Option (Piece α × Text)))
    (doc : Option Text) (c : Cursor) : List (Documented α) :=
  documentedFrom doc ((walk (recognise rules) c).map Located.piece)

variable {rules : List (Cursor → Option (Piece α × Text))}
  {doc : Option Text} {behind x rest : Text}

theorem itemsFrom_nil : itemsFrom rules doc ⟨behind, []⟩ = [] := by
  rw [itemsFrom, walk]
  rfl

theorem walk_recognised {piece : Piece α} (hx : x ≠ [])
    (hmid : (Cursor.mk behind (x ++ rest)).midWord = false)
    (h : rules.findSome? (· ⟨behind, x ++ rest⟩) = some (piece, rest)) :
    walk (recognise rules) ⟨behind, x ++ rest⟩ =
      ⟨⟨behind, x ++ rest⟩, piece⟩ ::
        walk (recognise rules) ⟨x.reverse ++ behind, rest⟩ := by
  have hpos := List.length_pos_iff.mpr hx
  have hlt : rest.length < (x ++ rest).length := by
    rw [List.length_append]
    omega
  have hfound : recognise rules ⟨behind, x ++ rest⟩ =
      some ⟨piece, rest, hlt⟩ := by
    simp [recognise, hmid, h, hpos]
  rw [walk, dif_neg (by simp [hx]), hfound]
  simp only [Cursor.advanceTo_append]

theorem itemsFrom_declared {item : α} (hx : x ≠ [])
    (hmid : (Cursor.mk behind (x ++ rest)).midWord = false)
    (h : rules.findSome? (· ⟨behind, x ++ rest⟩) =
      some (.declared item, rest)) :
    itemsFrom rules doc ⟨behind, x ++ rest⟩ =
      ⟨doc, item⟩ :: itemsFrom rules none ⟨x.reverse ++ behind, rest⟩ := by
  rw [itemsFrom, walk_recognised hx hmid h]
  rfl

theorem itemsFrom_doc {text : Text} (hx : x ≠ [])
    (hmid : (Cursor.mk behind (x ++ rest)).midWord = false)
    (h : rules.findSome? (· ⟨behind, x ++ rest⟩) =
      some (.doc text, rest)) :
    itemsFrom rules doc ⟨behind, x ++ rest⟩ =
      itemsFrom rules (some text) ⟨x.reverse ++ behind, rest⟩ := by
  rw [itemsFrom, walk_recognised hx hmid h]
  rfl

/-- A blank that no rule starts with is passed over. -/
theorem itemsFrom_blank {c : Char} (hc : Text.isSpace c = true)
    (h : rules.findSome? (· ⟨behind, c :: rest⟩) = none) :
    itemsFrom rules doc ⟨behind, c :: rest⟩ =
      itemsFrom rules doc ⟨c :: behind, rest⟩ := by
  have hident : Text.isIdent c = false := by
    by_contra hident
    rw [Text.isSpace_of_isIdent (by simpa using hident)] at hc
    contradiction
  have htoken : (Cursor.mk behind (c :: rest)).token = [c] := by
    simp [Cursor.token, hident]
  have hnone : recognise rules ⟨behind, c :: rest⟩ = none := by
    simp [recognise, h]
  have hends : endsStatement [c] = false := by
    rw [endsStatement, List.head?_cons, Option.any_some,
      Bool.or_eq_false_iff, beq_eq_false_iff_ne, beq_eq_false_iff_ne]
    constructor
    · rintro rfl
      contradiction
    · rintro rfl
      contradiction
  rw [itemsFrom, walk, dif_neg (by simp), hnone]
  simp [htoken, documentedFrom, hends, itemsFrom, Cursor.skipToken,
    Cursor.advance]

end Bindery.Source
