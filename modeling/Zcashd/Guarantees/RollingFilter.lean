import Zcashd.Source.BloomFilter

/-!
# The rolling Bloom filter

`CRollingBloomFilter` puts every key into both of its filters. It clears one of them each time
`nElements` keys have gone in, the two in turns, and asks the one that was cleared longer ago. So
the filter that is asked always has the last `nElements` keys (`last_keys_contained`), as long as
twice `nElements` fits into an `unsigned int`. That product is the period of the clearing. If it
wraps, a filter is cleared before it has seen enough keys (`period_wraps`).

The hash function is arbitrary. Which other keys are reported is not part of the statement.
-/
namespace Zcashd.Guarantees.RollingFilter

open Lib Source List

variable (H : UInt32 → Bytes → UInt32) {b : CBloomFilter} {s : CRollingBloomFilter}
  {keys : List Bytes} {vKey : Bytes}
  {m n : Nat}

theorem foldl_update (indexes : List Nat) (vData : Nat → Bool) (j : Nat) :
    indexes.foldl (fun vData nIndex => Function.update vData nIndex true) vData j = true ↔
    vData j = true ∨ j ∈ indexes := by
  induction indexes generalizing vData with
  | nil => simp
  | cons i indexes ih =>
    rw [foldl_cons, ih, Function.update_apply, mem_cons]
    grind

/-- The filter reports the last `m` keys, and goes on doing so. -/
structure Covers (m : Nat) (keys : List Bytes) (b : CBloomFilter) : Prop where
  notFull : b.isFull = false
  reports : ∀ key ∈ keys.take m, b.isEmpty = false ∧
    ∀ nIndex ∈ b.indexes H key, b.vData nIndex = true

/-- How many of the last keys the filters have: each is cleared in the insertion that starts its
period. -/
structure Rolls (n : Nat) (keys : List Bytes) (s : CRollingBloomFilter) : Prop where
  size : s.nBloomSize = 2 * n
  inside : s.nInsertions < 2 * n
  first : Covers H (if s.nInsertions = 0 then 2 * n else s.nInsertions) keys s.b1
  second : Covers H (if s.nInsertions ≤ n then s.nInsertions + n else s.nInsertions - n) keys s.b2

variable {H}

theorem Covers.contains (covers : Covers H m keys b) (mem : vKey ∈ keys.take m) :
    b.contains H vKey = true := by
  obtain ⟨notEmpty, set⟩ := covers.reports vKey mem
  simpa [CBloomFilter.contains, notEmpty] using .inr set

theorem Covers.insert (covers : Covers H m keys b) (vKey : Bytes) {more : Nat}
    (bound : more ≤ m + 1) :
    Covers H more (vKey :: keys) (b.insert H vKey) := by
  have notFull := covers.notFull
  unfold CBloomFilter.insert
  rw [if_neg (by simp [notFull])]
  refine ⟨notFull, fun key mem => ⟨rfl, fun nIndex inside => ?_⟩⟩
  rw [foldl_update]
  rcases mem_cons.mp (take_subset_take_left _ bound mem) with rfl | old
  · exact .inr inside
  · exact .inl ((covers.reports key old).2 nIndex inside)

/-- A filter that is cleared under a condition. -/
theorem Covers.clearIf (covers : Covers H m keys b) (start : Prop) [Decidable start] :
    Covers H (if start then 0 else m) keys (if start then b.clear else b) := by
  split
  · exact ⟨rfl, by simp⟩
  · exact covers

theorem Rolls.insert (rolls : Rolls H n keys s) (one : 1 ≤ n) (small : n < 2 ^ 31) (vKey : Bytes) :
    Rolls H n (vKey :: keys) (s.insert H vKey) := by
  obtain ⟨size, inside, first, second⟩ := rolls
  have next : (s.nInsertions + 1) % 2 ^ 32 = s.nInsertions + 1 := by omega
  have half : s.nBloomSize / 2 = n := by omega
  simp only [CRollingBloomFilter.insert, next, half]
  refine ⟨size, ?_, ?_, ?_⟩
  · dsimp only
    split <;> omega
  · exact (first.clearIf (s.nInsertions = 0)).insert vKey (by grind)
  · exact (second.clearIf (s.nInsertions ≠ 0 ∧ s.nInsertions = n)).insert vKey (by grind)

theorem Rolls.contains (rolls : Rolls H n keys s) (one : 1 ≤ n) (mem : vKey ∈ keys.take n) :
    s.contains H vKey = true := by
  obtain ⟨size, -, first, second⟩ := rolls
  have within : ∀ {m}, n ≤ m → vKey ∈ keys.take m := fun more => take_subset_take_left _ more mem
  unfold CRollingBloomFilter.contains
  split
  · exact second.contains (within (by grind))
  · exact first.contains (within (by grind))

/-- The keys inserted since the last reset, the last one first. -/
def inserted : List CRollingBloomFilter.Call → List Bytes :=
  foldl (fun keys call =>
    match call with
    | .insert vKey => vKey :: keys
    | .reset _ => []) []

/-- **The last keys are reported** at every moment, for whatever calls and hash function. -/
theorem last_keys_contained (H : UInt32 → Bytes → UInt32) {nElements : Nat} (one : 1 ≤ nElements)
    (small : nElements < 2 ^ 31) (nBits nHashFuncs : Nat) (nTweak : UInt32)
    (calls : List CRollingBloomFilter.Call) :
    ∀ vKey ∈ (inserted calls).take nElements,
      (calls.foldl (CRollingBloomFilter.call H) (.new nElements nBits nHashFuncs nTweak)).contains H
        vKey = true := by
  have rolls : Rolls H nElements (inserted calls)
      (calls.foldl (CRollingBloomFilter.call H) (.new nElements nBits nHashFuncs nTweak)) := by
    unfold inserted
    induction calls using reverseRecOn with
    | nil =>
      exact ⟨by simp only [CRollingBloomFilter.new, foldl_nil]; omega, Nat.mul_pos Nat.two_pos one,
        ⟨rfl, by simp⟩, ⟨rfl, by simp⟩⟩
    | append_singleton calls call ih =>
      rw [foldl_append, foldl_append]
      cases call with
      | insert vKey => exact ih.insert one small vKey
      | reset => exact ⟨ih.size, Nat.mul_pos Nat.two_pos one, ⟨rfl, by simp⟩, ⟨rfl, by simp⟩⟩
  exact fun vKey => rolls.contains one

/-- Two keys with different hashes. -/
def twoKeys (nElements : Nat) : CRollingBloomFilter :=
  [.insert [1], .insert []].foldl (CRollingBloomFilter.call fun _ key => UInt32.ofNat key.length)
    (.new nElements 8 2 0)

theorem last_keys_contained_two :
    (twoKeys 2).contains (fun _ key => UInt32.ofNat key.length) [1] = true :=
  last_keys_contained _ (by decide) (by decide) 8 2 0 [.insert [1], .insert []] [1] (by decide)

/-- `(2 ^ 31 + 1) * 2` wraps to two, and the first key is forgotten with the second. -/
theorem period_wraps :
    (twoKeys (2 ^ 31 + 1)).contains (fun _ key => UInt32.ofNat key.length) [1] = false := by
  decide +kernel

end Zcashd.Guarantees.RollingFilter
