import LispFront.Object.Registry

namespace LispFront
namespace Registry

/-!
# Subclasses

Whether one class is reached from another by direct superclasses, in any number of steps.  The
search keeps the classes it has not visited yet, so that it ends on every graph, cyclic or not.
-/

/-- The direct superclasses of a class. -/
def supers (r : Registry) (id : ClassId) : List ClassId := (r.getClass id).supers

/-- Searches for `target` among the pending classes and what is reached from them without passing
a class that was visited.  Every step visits one more class, so `steps` need not exceed the number
of unvisited classes. -/
def reaches (r : Registry) (target : ClassId) :
    (steps : Nat) → (unvisited pending : List ClassId) → Bool
  | 0, _, _ => false
  | steps + 1, unvisited, pending =>
    match pending.dropWhile fun id => !unvisited.contains id with
    | [] => false
    | id :: rest =>
      id == target || r.reaches target steps (unvisited.erase id) ((r.supers id).reverse ++ rest)

/-- The places of all classes. -/
def allClasses (r : Registry) : List ClassId := (List.range r.classes.size).map ClassId.mk

/-- Whether the class `a` is `b` or has it among its direct and indirect superclasses. -/
def isSubclass (r : Registry) (a b : ClassId) : Bool :=
  r.reaches b r.classes.size r.allClasses [a]

end Registry
end LispFront
