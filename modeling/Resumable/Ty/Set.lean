import Resumable.Ty.Relation

/-!
# `Ty.Set`: sets of types up to coverage

A handler for a type also takes every type assignable to it. The set keeps only the most general types
that were added: a type that is covered is rejected, and a broader one evicts those it covers.
-/

namespace Resumable

/-- A set of types, none of which covers another. -/
structure TypeSet where
  types : List Ty := []
  deriving Inhabited

namespace TypeSet

/-- Whether a handler for `broad` accepts a `narrow`. -/
def covers (broad narrow : Ty) : Bool := broad == narrow || narrow.assignableTo broad

/-- Whether the type or a broader one is in the set. -/
def contains (s : TypeSet) (t : Ty) : Bool := s.types.any (covers · t)

/-- Adds a type; false when it is covered already. -/
def add (s : TypeSet) (t : Ty) : Bool × TypeSet :=
  if s.contains t then (false, s)
  else (true, ⟨s.types.filter (fun u => !covers t u) ++ [t]⟩)

end TypeSet

end Resumable
