import Zcashd.Lib.Codec

/-!
Encodings that can be told apart whatever follows them. Nothing needs to read them back: this
is what makes a hash of several fields one after the other bind each of them.
-/
namespace Zcashd.Lib

open List

variable {α β : Type}

/-- No encoding of a valid value is the beginning of another one. -/
def PrefixCode (encode : α → Bytes) (valid : α → Prop) : Prop :=
  ∀ a b rest rest', valid a → valid b → encode a ++ rest = encode b ++ rest' → a = b ∧ rest = rest'

theorem Exact.prefixCode {d : Decoder α} {encode : α → Bytes} {valid : α → Prop}
    (exact : Exact d encode valid) :
    PrefixCode encode valid := by
  intro a b rest _ validA validB same
  have readA : d (encode a ++ rest) = some (a, rest) := (exact _ _ _).mpr ⟨validA, rfl⟩
  have readB := (exact _ _ _).mpr ⟨validB, same⟩
  rw [readA, Option.some.injEq, Prod.mk.injEq] at readB
  exact readB

namespace PrefixCode

variable {encode : α → Bytes} {valid : α → Prop} {encode' : β → Bytes} {valid' : β → Prop}

theorem pair (first : PrefixCode encode valid) (second : PrefixCode encode' valid') :
    PrefixCode (fun p : α × β => encode p.1 ++ encode' p.2) (fun p => valid p.1 ∧ valid' p.2) := by
  intro p q _ _ validP validQ same
  simp only [append_assoc] at same
  obtain ⟨left, same⟩ := first _ _ _ _ validP.1 validQ.1 same
  obtain ⟨right, same⟩ := second _ _ _ _ validP.2 validQ.2 same
  exact ⟨Prod.ext left right, same⟩

variable (code : PrefixCode encode valid)
include code

theorem comap {f : β → α} (bytes : ∀ b, encode' b = encode (f b))
    (inherits : ∀ b, valid' b → valid (f b))
    (injective : ∀ a b, valid' a → valid' b → f a = f b → a = b) :
    PrefixCode encode' valid' := by
  intro a b _ _ validA validB same
  rw [bytes, bytes] at same
  obtain ⟨values, same⟩ := code _ _ _ _ (inherits a validA) (inherits b validB) same
  exact ⟨injective a b validA validB values, same⟩

/-- Lists without their length, and what follows them if it has a known length. -/
theorem flatMap_append (ne : ∀ a, encode a ≠ []) {l m : List α} (validL : ∀ a ∈ l, valid a)
    (validM : ∀ a ∈ m, valid a) {rest rest' : Bytes} (lengths : rest.length = rest'.length)
    (same : l.flatMap encode ++ rest = m.flatMap encode ++ rest') :
    l = m ∧ rest = rest' := by
  have shorter : ∀ (a : α) (l : List α) (rest rest' : Bytes), rest.length = rest'.length →
      rest' ≠ (a :: l).flatMap encode ++ rest := by
    intro a l _ _ _ same
    have size := congrArg List.length same
    have pos := length_pos_iff.mpr (ne a)
    simp only [flatMap_cons, length_append] at size
    omega
  induction l generalizing m with
  | nil =>
    cases m with
    | nil => exact ⟨rfl, same⟩
    | cons b m => exact absurd same (shorter b m rest' rest lengths.symm)
  | cons a l ih =>
    cases m with
    | nil => exact absurd same.symm (shorter a l rest rest' lengths)
    | cons b m =>
      rw [flatMap_cons, flatMap_cons, append_assoc, append_assoc] at same
      obtain ⟨rfl, others⟩ := code _ _ _ _ (validL a mem_cons_self) (validM b mem_cons_self) same
      obtain ⟨rfl, ends⟩ := ih (fun a mem => validL a (mem_cons_of_mem _ mem))
        (fun a mem => validM a (mem_cons_of_mem _ mem)) others
      exact ⟨rfl, ends⟩

theorem flatMap_injective (ne : ∀ a, encode a ≠ []) {l m : List α} (validL : ∀ a ∈ l, valid a)
    (validM : ∀ a ∈ m, valid a) (same : l.flatMap encode = m.flatMap encode) :
    l = m :=
  (code.flatMap_append ne validL validM (rfl : ([] : Bytes).length = ([] : Bytes).length)
    (by rw [same])).1

theorem injective {a b : α} (validA : valid a) (validB : valid b)
    (same : encode a = encode b) : a = b :=
  (code a b [] [] validA validB (by rw [same])).1

end PrefixCode

end Zcashd.Lib
