import Mathlib

/-!
Systems that take step after step. A label says which step is taken, with everything it
depends on from outside, so a step is a function of the state and the label; it may be
impossible. `Reached` holds of the states reached by steps that meet a condition, and
`Reached.invariant` is the rule for what holds in all of them.
-/
namespace Zcashd.Lib

variable {σ L : Type}

/-- The states reached from `start` by steps that are permitted in the state they are taken in. -/
inductive Reached (step : σ → L → Option σ) (permitted : σ → L → Prop) (start : σ) : σ → Prop
  | start : Reached step permitted start start
  | next {s s' : σ} {l : L} (before : Reached step permitted start s) (meets : permitted s l)
      (taken : step s l = some s') : Reached step permitted start s'

variable {step : σ → L → Option σ} {permitted : σ → L → Prop} {start s : σ}

/-- What holds at the start and is kept by every permitted step holds in all states reached. -/
theorem Reached.invariant {I : σ → Prop} (init : I start)
    (keeps : ∀ s l s', I s → permitted s l → step s l = some s' → I s')
    (reached : Reached step permitted start s) :
    I s := by
  induction reached with
  | start => exact init
  | next _ meets taken ih => exact keeps _ _ _ ih meets taken

/-- A concrete run, which stops at a step that is impossible or not permitted. -/
def runAll (step : σ → L → Option σ) (permitted : σ → L → Prop) [∀ s l, Decidable (permitted s l)] :
    List L → σ → Option σ
  | [], s => some s
  | l :: rest, s => if permitted s l then (step s l).bind (runAll step permitted rest) else none

theorem Reached.runAll [∀ s l, Decidable (permitted s l)] {labels : List L} {s' : σ}
    (old : Reached step permitted start s) (ran : runAll step permitted labels s = some s') :
    Reached step permitted start s' := by
  induction labels generalizing s with
  | nil =>
    cases ran
    exact old
  | cons l _ ih =>
    unfold Lib.runAll at ran
    split at ran
    · rename_i meets
      obtain ⟨middle, taken, ran⟩ := Option.bind_eq_some_iff.mp ran
      exact ih (old.next meets taken) ran
    · cases ran

end Zcashd.Lib
