import Mvsmf.Lib.Json

/-!
# The members of an object

A client looks a member up by its name and takes it as a number, a text or a list of them.
-/

namespace Json.Value

/-- The member of that name. -/
def field (name : List Char) : Value → Option Value
  | .obj ms => ms.lookup (units name)
  | _ => none

def asInt : Value → Option Int
  | .num n 0 => some n
  | _ => none

def asString : Value → Option (List Nat)
  | .str us => some us
  | _ => none

/-- All the values of an array, each taken the same way. -/
def asList {α : Type} (take : Value → Option α) : Value → Option (List α)
  | .arr vs => vs.mapM take
  | _ => none

theorem mapM_map {α β : Type} {take : Value → Option β} {f : α → Value} {g : α → β} (xs : List α)
    (h : ∀ x ∈ xs, take (f x) = some (g x)) : (xs.map f).mapM take = some (xs.map g) := by
  induction xs with
  | nil => rfl
  | cons x xs ih =>
    obtain ⟨hx, hxs⟩ := List.forall_mem_cons.mp h
    rw [List.map_cons, List.map_cons, List.mapM_cons, hx, ih hxs]
    rfl

theorem asList_map {α β : Type} {take : Value → Option β} {f : α → Value} {g : α → β} (xs : List α)
    (h : ∀ x ∈ xs, take (f x) = some (g x)) :
    asList take (.arr (xs.map f)) = some (xs.map g) := mapM_map xs h

end Json.Value
