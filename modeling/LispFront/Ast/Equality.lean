import LispFront.Ast.Basic

namespace LispFront
namespace Ast

/-!
# Equality of syntax trees

Two trees are the same when they have the same nodes in the same order, except that the order of
the keyword arguments of a call does not matter.
-/

/-- The value that a keyword is bound to. -/
def keywordValue? {α : Type} (key : Symbol) (keywords : List (Symbol × α)) : Option α :=
  keywords.lookup key

mutual

/-- Whether two trees are the same up to the order of keyword arguments. -/
def same : Ast → Ast → Bool
  | .ref a, .ref b => a == b
  | .define a v, .define b w => a == b && v.same w
  | .assign a v, .assign b w => a == b && v.same w
  | .cond t c a, .cond t' c' a' => t.same t' && c.same c' && a.same a'
  | .seq es, .seq es' => sameAll es es'
  | .app f ⟨pos, keys⟩, .app g ⟨pos', keys'⟩ =>
    f.same g && sameAll pos pos' && keys.length == keys'.length && sameKeywords keys keys'
  | .lam ⟨req, opt, key, rest, all⟩ body, .lam ⟨req', opt', key', rest', all'⟩ body' =>
    sameParameters req req' && sameParameters opt opt' && sameParameters key key' &&
      sameParameter? rest rest' && sameParameter? all all' && body.same body'
  | _, _ => false

/-- Whether two lists hold the same trees in the same order. -/
def sameAll : List Ast → List Ast → Bool
  | [], [] => true
  | a :: as, b :: bs => a.same b && sameAll as bs
  | _, _ => false

/-- Whether every keyword of the first list is bound to the same tree in the second. -/
def sameKeywords : List (Symbol × Ast) → List (Symbol × Ast) → Bool
  | [], _ => true
  | (key, a) :: rest, keys' =>
    (match keywordValue? key keys' with
      | some b => a.same b
      | none => false) && sameKeywords rest keys'

/-- Whether two lists hold the same parameters in the same order. -/
def sameParameters : List (Parameter Ast) → List (Parameter Ast) → Bool
  | [], [] => true
  | ⟨a, d⟩ :: ps, ⟨b, e⟩ :: qs => a == b && same? d e && sameParameters ps qs
  | _, _ => false

/-- Whether two parameters that may be absent are the same. -/
def sameParameter? : Option (Parameter Ast) → Option (Parameter Ast) → Bool
  | none, none => true
  | some ⟨a, d⟩, some ⟨b, e⟩ => a == b && same? d e
  | _, _ => false

/-- Whether two trees that may be absent are the same. -/
def same? : Option Ast → Option Ast → Bool
  | none, none => true
  | some a, some b => a.same b
  | _, _ => false

end

end Ast
end LispFront
