import Bindery.Header
import Bindery.Proofs.Boundaries

/-!
# A walk keeps identifiers whole

A walk moves over recognised pieces and over tokens.  A piece ends at a
boundary, and a token is a whole identifier or a single character that belongs
to none; so behind either of them the cursor does not stand inside an
identifier.  Since it does not at the start of a text, it never does, neither
at file scope nor in the body of a struct at any depth, and no declaration is
recognised from the middle of an identifier on.
-/

namespace Bindery

namespace Source

namespace Cursor

open Matcher

variable {c : Cursor} {t rest : Text}

/-- The cursor is a position in the text, and not inside an identifier. -/
structure BetweenWords (t : Text) (c : Cursor) : Prop where
  text : c.behind.reverse ++ c.ahead = t
  notMidWord : c.midWord = false

theorem betweenWords_start (t : Text) : (start t).BetweenWords t where
  text := rfl
  notMidWord := rfl

theorem text_advance (h : c.behind.reverse ++ c.ahead = t) (n : Nat) :
    (c.advance n).behind.reverse ++ (c.advance n).ahead = t := by
  simp only [advance, List.reverse_append, List.reverse_reverse,
    List.append_assoc, List.take_append_drop]
  exact h

theorem midWord_of_ahead (h : Text.Stops Text.isIdent c.ahead) :
    c.midWord = false := by
  unfold midWord
  cases hahead : c.ahead.head? with
  | none => simp
  | some a => simp [h a hahead]

theorem midWord_advanceTo (hbreak : Text.BreaksAt c.ahead rest) :
    (c.advanceTo rest).midWord = false := by
  obtain ⟨taken, htaken⟩ := hbreak.suffix
  have hadvance : c.advanceTo rest = ⟨taken.reverse ++ c.behind, rest⟩ := by
    rw [← advanceTo_append, htaken]
  rw [hadvance]
  rcases hbreak.boundary with hstops | ⟨before, a, ha, hsplit⟩
  · exact midWord_of_ahead hstops
  · have hsame : taken ++ rest = (before ++ [a]) ++ rest := by
      rw [htaken, hsplit, List.append_assoc, List.singleton_append]
    rw [List.append_cancel_right hsame]
    apply midWord_of_behind
    intro b hb
    rw [List.reverse_append] at hb
    rwa [← Option.mem_some_iff.mp hb]

/-- A token is a whole identifier, or a character that belongs to none. -/
theorem breaksAt_token (c : Cursor) :
    ∃ rest, c.ahead = c.token ++ rest ∧ Text.BreaksAt c.ahead rest := by
  cases hahead : c.ahead with
  | nil =>
      refine ⟨[], by simp [token, hahead], ?_⟩
      exact .of_stops List.suffix_rfl (by simp [Text.Stops])
  | cons a t =>
      cases ha : Text.isIdent a with
      | false =>
          have htoken : c.token = [a] := by
            simp [token, hahead, ha]
          exact ⟨t, by rw [htoken]; rfl, .of_char [] ha⟩
      | true =>
          have htoken : c.token = a :: t.takeWhile Text.isIdent := by
            simp [token, hahead, ha]
          have hbreak := breaks_run (fun _ h => h) t
            (t.dropWhile Text.isIdent) (mem_run.mpr rfl)
          refine ⟨t.dropWhile Text.isIdent, ?_,
            hbreak.of_suffix (List.suffix_cons a t)⟩
          rw [htoken, List.cons_append, List.takeWhile_append_dropWhile]

theorem midWord_skipToken (c : Cursor) : c.skipToken.midWord = false := by
  obtain ⟨rest, hahead, hbreak⟩ := breaksAt_token c
  have hskip : c.skipToken = c.advanceTo rest := by
    rw [skipToken, advanceTo]
    conv_rhs => rw [hahead, List.length_append, Nat.add_sub_cancel]
  rw [hskip]
  exact midWord_advanceTo hbreak

end Cursor

variable {α : Type} {next : (c : Cursor) → Option (Found α c)}

/-- What holds at the start and is kept by every step, over a recognised piece
or over a token, holds wherever a piece starts. -/
theorem invariant_of_mem_walk {P : Cursor → Prop}
    (hfound : ∀ c found, next c = some found → P c →
      P (c.advanceTo found.rest))
    (htoken : ∀ c, P c → P c.skipToken) {c : Cursor} (hc : P c)
    {x : Located α} (hx : x ∈ walk next c) : P x.start := by
  fun_induction walk next c with
  | case1 => contradiction
  | case2 c _ found hnext ih =>
      rcases List.mem_cons.mp hx with rfl | hx
      · exact hc
      · exact ih (hfound c found hnext hc) hx
  | case3 c _ _ ih =>
      rcases List.mem_cons.mp hx with rfl | hx
      · exact hc
      · exact ih (htoken c hc) hx

/-- Where all pieces end at boundaries, a walk never stands inside an
identifier. -/
theorem betweenWords_of_mem_walk
    (hbreaks : ∀ c found, next c = some found →
      Text.BreaksAt c.ahead found.rest)
    (t : Text) {x : Located α} (hx : x ∈ walk next (.start t)) :
    x.start.BetweenWords t := by
  refine invariant_of_mem_walk ?_ ?_ (Cursor.betweenWords_start t) hx
  · intro c found hfound hc
    exact ⟨Cursor.text_advance hc.text _,
      Cursor.midWord_advanceTo (hbreaks c found hfound)⟩
  · intro c hc
    exact ⟨Cursor.text_advance hc.text _, Cursor.midWord_skipToken c⟩

end Source

open Source

/-- Wherever the walk over a header stands, or the walk over the body of a
struct, it does not stand between two characters of an identifier.  The body
may be any text, so structs of all depths are covered. -/
theorem Header.walks_between_words (d : Dialect) (source : Text) :
    (∀ x ∈ walk (Declaration.next d) (.start (spliceLines source)),
        x.start.BetweenWords (spliceLines source)) ∧
      ∀ body, ∀ x ∈ walk (BodyItem.next d) (.start body),
        x.start.BetweenWords body := by
  constructor
  · intro x hx
    exact betweenWords_of_mem_walk
      (fun _ _ => Declaration.breaksAt_of_next) _ hx
  · intro body x hx
    exact betweenWords_of_mem_walk
      (fun _ _ => BodyItem.breaksAt_of_next) body hx

/-- A marker at the end of an identifier is passed over with it. -/
theorem Header.walks_between_words_marker :
    let t : Text := "xODE_HANDLE_DECL(A) B;"
    ((walk (Declaration.next {}) (.start t)).map Located.piece).head? =
        some (.token "xODE_HANDLE_DECL") ∧
      ∀ x ∈ walk (Declaration.next {}) (.start (spliceLines t)),
        x.start.BetweenWords (spliceLines t) := by
  intro t
  refine ⟨by decide +kernel, ?_⟩
  exact (Header.walks_between_words {} t).1

end Bindery
