import Mathlib

/-!
Finitely many threads, each with a state of its own. What a shared counter should be is the sum
of a quantity over the threads, and a step of one thread changes one term of it.
-/
namespace Zcashd.Lib

open Finset Function

variable {ι S M : Type} [Fintype ι] [AddCommMonoid M]

/-- A quantity of a thread's state, added up over all threads. -/
def tally (f : S → M) (threads : ι → S) : M := ∑ i, f (threads i)

theorem tally_congr {f g : S → M} {threads threads' : ι → S}
    (same : ∀ i, f (threads i) = g (threads' i)) :
    tally f threads = tally g threads' := sum_congr rfl fun i _ => same i

theorem tally_eq_zero {f : S → Nat} {threads : ι → S} : tally f threads = 0 ↔
    ∀ i, f (threads i) = 0 := by
  unfold tally
  rw [sum_eq_zero_iff]
  exact ⟨fun all i => all i (mem_univ i), fun all i _ => all i⟩

theorem le_tally (f : S → Nat) (threads : ι → S) (i : ι) : f (threads i) ≤ tally f threads :=
  single_le_sum (fun j _ => Nat.zero_le (f (threads j))) (mem_univ i)

/-- One thread goes on; the others stay where they are. -/
theorem tally_update [DecidableEq ι] (f : S → M) (threads : ι → S) (i : ι) (state : S) :
    tally f (update threads i state) + f (threads i) = tally f threads + f state := by
  have others : ∑ j ∈ univ.erase i, f (update threads i state j) =
      ∑ j ∈ univ.erase i, f (threads j) := by
    apply sum_congr rfl
    intro j other
    rw [update_of_ne (ne_of_mem_erase other)]
  unfold tally
  rw [← sum_erase_add _ _ (mem_univ i), others, update_self,
    ← sum_erase_add _ (fun j => f (threads j)) (mem_univ i), add_right_comm]

end Zcashd.Lib
