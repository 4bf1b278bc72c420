import Bindery.Entity

/-!
# Common beginnings of enumerators

Enumerators usually repeat the name of their enum.  The part to leave out is the
longest common beginning that spells the name of the enum, cut back at
underscores where necessary; failing that, it is a fixed beginning if all
enumerators have it.  No enumerator is ever left without a name.
-/

namespace Bindery

namespace EnumPrefix

def commonPrefix : Text → Text → Text
  | a :: s, b :: t => if a = b then a :: commonPrefix s t else []
  | _, _ => []

def shared : List Text → Text
  | [] => []
  | first :: others => others.foldl commonPrefix first

def dropUnderscore : Text → Text
  | '_' :: t => t
  | t => t

/-- The two texts agree letter by letter up to case and underscores; after the
last letters each may have one more underscore. -/
def spellsName : (name lead : Text) → Bool
  | a :: name, b :: lead =>
    if a = '_' then spellsName name (b :: lead)
    else if b = '_' then spellsName (a :: name) lead
    else a.toLower = b.toLower && spellsName name lead
  | name, lead => (dropUnderscore name).isEmpty && (dropUnderscore lead).isEmpty
termination_by name lead => name.length + lead.length

/-- A text and what remains of it when it is cut behind one of its underscores,
longest first. -/
def candidates (lead : Text) : List Text :=
  lead :: ((List.range lead.length).reverse.filter fun i =>
    lead[i]? == some '_').map fun i => lead.take (i + 1)

def fits (values : List Text) (lead : Text) : Bool :=
  values.all fun v => lead.length < v.length

def ofValues (enumName : Text) (values : List Text) (fallback : Text) : Text :=
  let lead := shared values
  if values.isEmpty then []
  else
    match (candidates lead).find? fun c =>
      fits values c && spellsName enumName c with
    | some c => c
    | none =>
      if !fallback.isEmpty && Text.startsWith fallback lead &&
          fits values fallback then fallback
      else []

def ofEntity (e : Entity) (fallback : Text) : Text :=
  ofValues e.name ((e.membersOf .enumValue).map Member.name) fallback

end EnumPrefix

end Bindery
