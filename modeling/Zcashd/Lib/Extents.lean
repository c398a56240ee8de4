import Mathlib

/-!
Files that are only appended to. Each owner may have an extent of a file; a new one begins at the
end of its file. `Packed` says that extents lie in their files and apart from each other, and the
rules keep it when an extent is appended and when extents are given up.
-/
namespace Zcashd.Lib

open Function

structure Extent where
  file : Nat
  start : Nat
  length : Nat
deriving DecidableEq, Repr

/-- Two extents have no byte in common. -/
def Extent.Apart (a b : Extent) : Prop :=
  a.file = b.file → a.start + a.length ≤ b.start ∨ b.start + b.length ≤ a.start

instance (a b : Extent) : Decidable (a.Apart b) :=
  inferInstanceAs
    (Decidable (a.file = b.file → a.start + a.length ≤ b.start ∨ b.start + b.length ≤ a.start))

theorem Extent.Apart.symm {a b : Extent} (apart : a.Apart b) : b.Apart a :=
  fun same => (apart same.symm).symm

/-- The extents of all owners, in files of the given sizes. -/
structure Packed {ι : Type} (extent : ι → Option Extent) (size : Nat → Nat) : Prop where
  inside : ∀ i e, extent i = some e → e.start + e.length ≤ size e.file
  apart : ∀ i j a b, i ≠ j → extent i = some a → extent j = some b → a.Apart b

variable {ι : Type} {extent extent' : ι → Option Extent} {size size' : Nat → Nat}

/-- Extents are given up, and files that still have one do not get smaller. -/
theorem Packed.keep (packed : Packed extent size)
    (fewer : ∀ i e, extent' i = some e → extent i = some e)
    (larger : ∀ i e, extent' i = some e → size e.file ≤ size' e.file) :
    Packed extent' size' where
  inside i e has := Nat.le_trans (packed.inside i e (fewer i e has)) (larger i e has)
  apart i j a b other hasA hasB := packed.apart i j a b other (fewer i a hasA) (fewer j b hasB)

/-- An extent is appended to its file. -/
theorem Packed.append [DecidableEq ι] (packed : Packed extent size) (i : ι) {new : Extent}
    (atEnd : new.start = size new.file) (ends : new.start + new.length = size' new.file)
    (others : ∀ file, file ≠ new.file → size' file = size file) :
    Packed (Function.update extent i (some new)) size' := by
  have grows : ∀ file, size file ≤ size' file := by
    intro file
    by_cases here : file = new.file
    · rw [here, ← ends, atEnd]
      exact Nat.le_add_right ..
    · exact Nat.le_of_eq (others file here).symm
  have after : ∀ j e, extent j = some e → e.Apart new := by
    intro j e has same
    have ends := packed.inside j e has
    rw [same, ← atEnd] at ends
    exact Or.inl ends
  refine ⟨?_, ?_⟩
  · intro j e has
    by_cases here : j = i
    · rw [here, update_self] at has
      cases has
      exact Nat.le_of_eq ends
    · rw [update_of_ne here] at has
      exact Nat.le_trans (packed.inside j e has) (grows e.file)
  · intro j k a b other hasA hasB
    by_cases hereJ : j = i
    · have hereK : k ≠ i := fun same => other (hereJ.trans same.symm)
      rw [hereJ, update_self] at hasA
      rw [update_of_ne hereK] at hasB
      cases hasA
      exact (after k b hasB).symm
    · rw [update_of_ne hereJ] at hasA
      by_cases hereK : k = i
      · rw [hereK, update_self] at hasB
        cases hasB
        exact after j a hasA
      · rw [update_of_ne hereK] at hasB
        exact packed.apart j k a b other hasA hasB

end Zcashd.Lib
