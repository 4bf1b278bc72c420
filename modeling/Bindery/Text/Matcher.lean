import Bindery.Text.Basic

/-!
# Matchers and rules

A matcher says in which ways a text can begin with something: it lists what may
be left over, in order of preference.  Repetitions prefer to take as much as
they can, except `fewest`, which prefers to take as little as it can.  Runs take
all that they can and give nothing back; they serve where what comes next cannot
start with a character of the run.

A rule reads a value off the beginning of a text.  It is run with a
continuation, and takes the first way to match that the continuation accepts.
Thus in a sequence of steps the earlier ones choose first, and go back on their
choice only if no later step can succeed.
-/

namespace Bindery

abbrev Matcher := Text → List Text

namespace Matcher

def one (p : Char → Bool) : Matcher
  | [] => []
  | c :: t => if p c then [t] else []

/-- `shorter` collects what can be left over when fewer characters are taken. -/
def manyFrom (p : Char → Bool) (shorter : List Text) : Matcher
  | [] => [] :: shorter
  | c :: t =>
    if p c then manyFrom p ((c :: t) :: shorter) t else (c :: t) :: shorter

def many (p : Char → Bool) : Matcher := manyFrom p []

def literal (word : Text) : Matcher := fun t => (Text.after? word t).toList

def textEnd : Matcher
  | [] => [[]]
  | _ :: _ => []

def either (m n : Matcher) : Matcher := fun t => m t ++ n t

def optional (m : Matcher) : Matcher := fun t => m t ++ [t]

def sequence : List Matcher → Matcher
  | [] => fun t => [t]
  | [m] => m
  | m :: ms => fun t => (m t).flatMap (sequence ms)

def many1 (p : Char → Bool) : Matcher
  | [] => []
  | c :: t => if p c then many p t else []

def run (p : Char → Bool) : Matcher := fun t => [t.dropWhile p]

def run1 (p : Char → Bool) : Matcher
  | [] => []
  | c :: t => if p c then [t.dropWhile p] else []

def through (mark : Text) : Matcher := fun t =>
  ((Text.cut? mark t).map Prod.snd).toList

def fewest (p : Char → Bool) : Matcher
  | [] => [[]]
  | c :: t => (c :: t) :: if p c then fewest p t else []

def anything : Matcher := fewest fun _ => true

def wordEnd : Matcher
  | [] => [[]]
  | c :: t => if Text.isWord c then [] else [c :: t]

/-- Any number of times, as often as possible; every time has to take
something. -/
def repeated (m : Matcher) (t : Text) : List Text :=
  ((m t).flatMap fun rest =>
    if _h : rest.length < t.length then repeated m rest else []) ++ [t]
termination_by t.length
decreasing_by exact _h

def spaces : Matcher := run Text.isSpace

def spaces1 : Matcher := run1 Text.isSpace

def word : Matcher := run1 Text.isWord

def Shrinks (m : Matcher) : Prop := ∀ t, ∀ rest ∈ m t, rest.length ≤ t.length

theorem shrinks_literal (word : Text) : Shrinks (literal word) := by
  intro t rest h
  simp only [literal, Option.mem_toList, Text.after?_eq_some_iff] at h
  simp [h]

theorem shrinks_wordEnd : Shrinks wordEnd := by
  intro t rest h
  cases t with
  | nil => simp_all [wordEnd]
  | cons c t =>
    simp only [wordEnd] at h
    split at h <;> simp_all

theorem shrinks_either {m n : Matcher} (hm : Shrinks m) (hn : Shrinks n) :
    Shrinks (either m n) := by
  intro t rest hmem
  rcases List.mem_append.1 hmem with hmem | hmem
  · exact hm t rest hmem
  · exact hn t rest hmem

theorem shrinks_sequence {ms : List Matcher} (h : ∀ m ∈ ms, Shrinks m) :
    Shrinks (sequence ms) := by
  fun_induction sequence ms with
  | case1 =>
    intro t rest hmem
    simp only [List.mem_singleton] at hmem
    simp [hmem]
  | case2 m => exact h m List.mem_cons_self
  | case3 m ms _ ih =>
    intro t rest hmem
    obtain ⟨mid, hmid, hrest⟩ := List.mem_flatMap.1 hmem
    exact Nat.le_trans
      (ih (fun m hm => h m (List.mem_cons_of_mem _ hm)) mid rest hrest)
      (h m List.mem_cons_self t mid hmid)

theorem shrinks_run (p : Char → Bool) : Shrinks (run p) := by
  intro t rest h
  simp only [run, List.mem_singleton] at h
  exact h ▸ (List.dropWhile_sublist p).length_le

theorem shrinks_run1 (p : Char → Bool) : Shrinks (run1 p) := by
  intro t rest h
  cases t with
  | nil => simp [run1] at h
  | cons c t =>
    simp only [run1] at h
    split at h
    · simp only [List.mem_singleton] at h
      exact h ▸ Nat.le_succ_of_le (List.dropWhile_sublist p).length_le
    · simp at h

end Matcher

/-- A stretch of a text, from where `start` is still to be read to where `rest`
is.  Its text is only put together once a rule has succeeded. -/
structure Span where
  start : Text
  rest : Text

def Span.text (s : Span) : Text := Text.upTo s.start s.rest

/-- A way of reading values of type `α` off the beginning of a text. -/
structure Rule (α : Type) where
  run : {β : Type} → Text → (α → Text → Option β) → Option β

namespace Rule

instance : Monad Rule where
  pure a := ⟨fun t k => k a t⟩
  bind r f := ⟨fun t k => r.run t fun a rest => (f a).run rest k⟩

def capture (m : Matcher) : Rule Span :=
  ⟨fun t k => (m t).findSome? fun rest => k ⟨t, rest⟩ rest⟩

def capture? (m : Matcher) : Rule (Option Span) :=
  ⟨fun t k =>
    ((m t).findSome? fun rest => k (some ⟨t, rest⟩) rest).or (k none t)⟩

def skip (m : Matcher) : Rule Unit :=
  ⟨fun t k => (m t).findSome? (k ())⟩

/-- The value read in the preferred way, and what is left over. -/
def first? (r : Rule α) (t : Text) : Option (α × Text) :=
  r.run t fun a rest => some (a, rest)

@[simp] theorem run_pure (a : α) (t : Text) (k : α → Text → Option β) :
    (pure a : Rule α).run t k = k a t :=
  rfl

@[simp] theorem run_bind {γ : Type} (r : Rule α) (f : α → Rule γ)
    (t : Text) (k : γ → Text → Option β) :
    (r >>= f).run t k = r.run t fun a rest => (f a).run rest k :=
  rfl

theorem of_run_skip {m : Matcher} {t : Text} {k : Unit → Text → Option β}
    {b : β} (h : (skip m).run t k = some b) :
    ∃ rest ∈ m t, k () rest = some b :=
  List.exists_of_findSome?_eq_some h

theorem of_run_capture {m : Matcher} {t : Text} {k : Span → Text → Option β}
    {b : β} (h : (capture m).run t k = some b) :
    ∃ rest ∈ m t, k ⟨t, rest⟩ rest = some b :=
  List.exists_of_findSome?_eq_some h

theorem of_run_capture? {m : Matcher} {t : Text}
    {k : Option Span → Text → Option β} {b : β}
    (h : (capture? m).run t k = some b) :
    (∃ rest ∈ m t, k (some ⟨t, rest⟩) rest = some b) ∨
      k none t = some b := by
  rcases Option.or_eq_some_iff.mp h with h | ⟨_, h⟩
  · exact .inl (List.exists_of_findSome?_eq_some h)
  · exact .inr h

/-- Where a rule succeeds, the continuation accepted a value with no more than
the given text left over. -/
def Shrinks (r : Rule α) : Prop :=
  ∀ (β : Type) (t : Text) (k : α → Text → Option β) (b : β),
    r.run t k = some b → ∃ a rest, rest.length ≤ t.length ∧ k a rest = some b

theorem shrinks_pure (a : α) : Shrinks (pure a : Rule α) := fun _ t _ _ h =>
  ⟨a, t, Nat.le_refl _, h⟩

theorem shrinks_bind {r : Rule α} {f : α → Rule β} (hr : r.Shrinks)
    (hf : ∀ a, (f a).Shrinks) : Shrinks (r >>= f) := by
  intro γ t k b h
  obtain ⟨a, rest, hle, h⟩ := hr γ t _ b h
  obtain ⟨a', rest', hle', h⟩ := hf a γ rest k b h
  exact ⟨a', rest', Nat.le_trans hle' hle, h⟩

theorem shrinks_skip {m : Matcher} (hm : m.Shrinks) : Shrinks (skip m) := by
  intro β t k b h
  obtain ⟨rest, hmem, h⟩ := of_run_skip h
  exact ⟨(), rest, hm t rest hmem, h⟩

theorem shrinks_capture {m : Matcher} (hm : m.Shrinks) :
    Shrinks (capture m) := by
  intro β t k b h
  obtain ⟨rest, hmem, h⟩ := of_run_capture h
  exact ⟨_, rest, hm t rest hmem, h⟩

theorem shrinks_capture? {m : Matcher} (hm : m.Shrinks) :
    Shrinks (capture? m) := by
  intro β t k b h
  rcases of_run_capture? h with ⟨rest, hmem, h⟩ | h
  · exact ⟨_, rest, hm t rest hmem, h⟩
  · exact ⟨none, t, Nat.le_refl _, h⟩

theorem Shrinks.length_le {r : Rule α} (hr : r.Shrinks) {t rest : Text} {a : α}
    (h : r.first? t = some (a, rest)) : rest.length ≤ t.length := by
  obtain ⟨a', rest', hle, heq⟩ := hr _ t _ _ h
  simp only [Option.some.injEq, Prod.mk.injEq] at heq
  rwa [heq.2] at hle

end Rule

end Bindery
