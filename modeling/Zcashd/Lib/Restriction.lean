import Mathlib

/-!
# Computations that accept less

`a.Restricts b` says that whatever `a` returns, `b` returns too. Errors of `a` say nothing about
`b`. The rules go through a program in the order it is written: the same computation on both sides,
a bind, a branch, and a check that only the left side makes.
-/
namespace Zcashd.Lib

variable {ε α β : Type}

def Restricts (a b : Except ε α) : Prop := ∀ x, a = .ok x → b = .ok x

namespace Restricts

variable {a b c : Except ε α}

@[refl] theorem refl (a : Except ε α) : Restricts a a := fun _ same => same

theorem error (e : ε) : Restricts (.error e : Except ε α) b := nofun

protected theorem bind {f g : α → Except ε β} (first : Restricts a b)
    (next : ∀ x, Restricts (f x) (g x)) :
    Restricts (a >>= f) (b >>= g) := by
  intro y done
  cases a with
  | error e => cases done
  | ok x =>
    rw [first x rfl]
    exact next x y done

/-- The same branch is taken on both sides. -/
protected theorem ite {p : Prop} [Decidable p] {a' b' : Except ε α} (yes : p → Restricts a b)
    (no : ¬ p → Restricts a' b') :
    Restricts (if p then a else a') (if p then b else b') := by
  split
  · exact yes ‹_›
  · exact no ‹_›

/-- A check of the right side is a check of the left side too. -/
theorem check {p q : Prop} [Decidable p] [Decidable q] {e e' : ε} (stronger : q → p)
    (rest : Restricts a b) :
    Restricts (if p then .error e else a) (if q then .error e' else b) := by
  split
  · exact error e
  · rename_i notP
    rw [if_neg (fun isQ => notP (stronger isQ))]
    exact rest

end Restricts

end Zcashd.Lib
