import Zcashd.Source.SkipPointers

/-!
# Steps to an ancestor

`GetAncestor` follows at most as many pointers as the square of the number of binary digits of the
height it starts from. While the highest bit in which the walk differs from its target stays, each
round or each two rounds clear a bit below; once it goes, those bits are new.
-/
namespace Zcashd.Guarantees.BlockAncestors

open Source.SkipPointers CBlockIndex Nat

@[simp] theorem invertLowestOne_even (a : Nat) :
    invertLowestOne (2 * a) = 2 * invertLowestOne a := by
  cases a with
  | zero => rfl
  | succ a =>
    have below : 2 * (a + 1) - 1 = 2 * a + 1 := by omega
    rw [invertLowestOne, below, invertLowestOne, Nat.add_sub_cancel]
    simpa [bit] using land_bit false (a + 1) true a

@[simp] theorem invertLowestOne_odd (a : Nat) : invertLowestOne (2 * a + 1) = 2 * a := by
  rw [invertLowestOne, Nat.add_sub_cancel]
  simpa [bit] using land_bit true a false a

theorem invertLowestOne_le (a : Nat) : invertLowestOne a ≤ a := and_le_left

variable {a height m j L w bound : Nat}

theorem invertLowestOne_lt (pos : 0 < a) : invertLowestOne a < a :=
  lt_of_le_of_lt and_le_right (sub_lt pos one_pos)

/-- Another power of two divides what is left. -/
theorem dvd_invertLowestOne (aligned : 2 ^ j ∣ a) : 2 ^ (j + 1) ∣ invertLowestOne a := by
  induction j generalizing a with
  | zero => rcases even_or_odd' a with ⟨e, rfl | rfl⟩ <;> simp
  | succ j ih =>
    obtain ⟨c, rfl⟩ := aligned
    rw [pow_succ' 2 j, Nat.mul_assoc, invertLowestOne_even, pow_succ']
    exact Nat.mul_dvd_mul_left 2 (ih (Nat.dvd_mul_right _ c))

/-- Only the bits below are cleared. -/
theorem le_invertLowestOne (whole : 2 ^ L ∣ m) (above : m < a) (low : a < m + 2 ^ L) :
    m ≤ invertLowestOne a := by
  obtain ⟨q, rfl⟩ := whole
  have same : a / 2 ^ L = q ∧ (a - 1) / 2 ^ L = q := by
    constructor <;> apply Nat.div_eq_of_lt_le <;> grind
  rw [Nat.mul_comm, ← Nat.le_div_iff_mul_le (Nat.two_pow_pos L), invertLowestOne,
    Nat.and_div_two_pow, same.1, same.2, Nat.and_self]

/-- From `m` on the number is a multiple of `2 ^ j`, and less than `2 ^ L` above it. -/
def Left (L m j a : Nat) : Prop := m ≤ a → j ≤ L ∧ 2 ^ j ∣ a ∧ a < m + 2 ^ L

theorem Left.clear (left : Left L m j a) (whole : 2 ^ L ∣ m) (pos : 0 < m) :
    Left L m (j + 1) (invertLowestOne a) := by
  intro inside
  have le := invertLowestOne_le a
  have less := invertLowestOne_lt (by omega : 0 < a)
  obtain ⟨few, aligned, low⟩ := left (by omega)
  refine ⟨lt_of_le_of_ne few ?_, dvd_invertLowestOne aligned, by omega⟩
  rintro rfl
  have apart := le_of_dvd (by omega) (Nat.dvd_sub aligned whole)
  omega

theorem getSkipHeight_even (pos : 0 < a) : getSkipHeight (2 * a) = 2 * invertLowestOne a := by
  rw [getSkipHeight, if_neg (by omega), if_neg (by omega), invertLowestOne_even]

theorem getSkipHeight_odd (pos : 0 < a) :
    getSkipHeight (2 * a + 1) = 2 * invertLowestOne (invertLowestOne a) + 1 := by
  rw [getSkipHeight, if_neg (by omega), if_pos (by omega), Nat.add_sub_cancel, invertLowestOne_even,
    invertLowestOne_even]

theorem getSkipHeight_lt (pos : 0 < w) : getSkipHeight w < w := by
  rcases even_or_odd' w with ⟨a, rfl | rfl⟩
  · have less := invertLowestOne_lt (by omega : 0 < a)
    rw [getSkipHeight_even (by omega)]
    omega
  · rcases Nat.eq_zero_or_pos a with rfl | pos
    · decide
    · have less := invertLowestOne_lt pos
      have less' := invertLowestOne_le (invertLowestOne a)
      rw [getSkipHeight_odd pos]
      omega

/-- One step back, the skip pointer is better only where it clears the same ones. -/
theorem getSkipHeight_pred (pos : 0 < a)
    (better : getSkipHeight (2 * a - 1) + 2 < 2 * invertLowestOne a) :
    ∃ c, getSkipHeight (2 * a - 1) = 2 * c + 1 ∧
      (c = invertLowestOne (invertLowestOne a) ∨
        c = invertLowestOne (invertLowestOne (invertLowestOne a))) := by
  have less := invertLowestOne_lt pos
  have odd : 2 * a - 1 = 2 * (a - 1) + 1 := by omega
  rw [odd] at better ⊢
  rw [getSkipHeight_odd (by omega)] at better ⊢
  refine ⟨_, rfl, ?_⟩
  rcases even_or_odd' a with ⟨f, rfl | rfl⟩
  · rcases even_or_odd' f with ⟨e, rfl | rfl⟩
    · -- here the pointer of the odd height below is no better
      have less := invertLowestOne_lt (by omega : 0 < e)
      have ones : 2 * (2 * e) - 1 = 2 * (2 * (e - 1) + 1) + 1 := by omega
      rw [ones] at better
      simp only [invertLowestOne_odd, invertLowestOne_even] at better
      omega
    · left
      rw [(by omega : 2 * (2 * e + 1) - 1 = 2 * (2 * e) + 1)]
      simp
  · right
    simp

/-- The height after a round of the loop. -/
def nextHeight (height w : Nat) : Nat := if takesSkip height w then getSkipHeight w else w - 1

theorem nextHeight_bounds (above : height < w) :
    height ≤ nextHeight height w ∧ nextHeight height w < w := by
  have less := getSkipHeight_lt (by omega : 0 < w)
  unfold nextHeight takesSkip
  split
  · rename_i takes
    simp only [decide_eq_true_eq] at takes
    omega
  · omega

/-- An odd height is left by its skip pointer as soon as this does not lead below the target. -/
theorem nextHeight_odd (pos : 0 < a) (inside : height ≤ getSkipHeight (2 * a + 1)) :
    nextHeight height (2 * a + 1) = getSkipHeight (2 * a + 1) := by
  have less := invertLowestOne_le (invertLowestOne a)
  apply if_pos
  simp only [takesSkip, getSkipHeight_odd pos, Nat.add_sub_cancel, getSkipHeight_even pos,
    decide_eq_true_eq] at inside ⊢
  omega

/-- The rounds of the loop. -/
def rounds (height w : Nat) : Nat :=
  if height < w then rounds height (nextHeight height w) + 1 else 0
termination_by w
decreasing_by exact (nextHeight_bounds ‹_›).2

theorem rounds_step {v : Nat} (above : height < w) (next : nextHeight height w = v) :
    rounds height w = rounds height v + 1 := by
  rw [rounds, if_pos above, next]

/-- Two rounds are charged to each power of two, and two to the highest bit that differs. -/
theorem rounds_charged (leave : ∀ v, height ≤ v → v < 2 * m → rounds height v ≤ bound)
    (target : height < 2 * m) (whole : 2 ^ L ∣ m) (inside : m ≤ a) (left : Left L m j a) :
    rounds height (2 * a) ≤ 2 * (L - j) + 1 + bound ∧
    rounds height (2 * a + 1) ≤ 2 * (L - j) + 2 + bound := by
  induction rank : L - j using Nat.strong_induction_on generalizing a j with
  | _ k ih =>
    obtain ⟨few, -, low⟩ := left inside
    have once := left.clear whole (by omega)
    have twice := once.clear whole (by omega)
    have land : ∀ c i, j + 2 ≤ i → Left L m i c → height ≤ 2 * c + 1 →
        rounds height (2 * c + 1) ≤ 2 * k - 2 + bound := by
      intro c i more left above
      by_cases inside : m ≤ c
      · have few := (left inside).1
        have rest := (ih (L - i) (by omega) inside left rfl).2
        omega
      · have rest := leave _ above (by omega)
        omega
    have even : rounds height (2 * a) ≤ 2 * k + 1 + bound := by
      have above : height < 2 * a := by omega
      by_cases gone : nextHeight height (2 * a) < 2 * m
      · have rest := leave _ (nextHeight_bounds above).1 gone
        rw [rounds_step above rfl]
        omega
      by_cases takes : takesSkip height (2 * a)
      · have next : nextHeight height (2 * a) = 2 * invertLowestOne a :=
          (if_pos takes).trans (getSkipHeight_even (by omega))
        have inside : m ≤ invertLowestOne a := by omega
        have few := (once inside).1
        have rest := (ih _ (by omega) inside once rfl).1
        rw [rounds_step above next]
        omega
      · have next : nextHeight height (2 * a) = 2 * (a - 1) + 1 := (if_neg takes).trans (by omega)
        have more := le_invertLowestOne whole (by omega) low
        have few := (once more).1
        simp only [takesSkip, getSkipHeight_even (by omega : 0 < a), decide_eq_true_eq] at takes
        -- the pointer goes to `c`, with two ones less, after a step back
        obtain ⟨c, skip, cleared⟩ := getSkipHeight_pred (by omega : 0 < a) (by omega)
        have odd : 2 * a - 1 = 2 * (a - 1) + 1 := by omega
        rw [odd] at takes skip
        have second := nextHeight_odd (by omega : 0 < a - 1)
          (by omega : height ≤ getSkipHeight (2 * (a - 1) + 1))
        have rest : rounds height (2 * c + 1) ≤ 2 * k - 2 + bound := by
          rcases cleared with rfl | rfl
          · exact land _ _ (le_refl _) twice (by omega)
          · exact land _ _ (le_succ _) (twice.clear whole (by omega)) (by omega)
        rw [rounds_step above next, rounds_step (by omega) (second.trans skip)]
        omega
    refine ⟨even, ?_⟩
    have above : height < 2 * a + 1 := by omega
    by_cases takes : takesSkip height (2 * a + 1)
    · have next : nextHeight height (2 * a + 1) = _ :=
        (if_pos takes).trans (getSkipHeight_odd (by omega))
      have rest := land _ _ (le_refl _) twice (next ▸ (nextHeight_bounds above).1)
      rw [rounds_step above next]
      omega
    · have next : nextHeight height (2 * a + 1) = 2 * a := if_neg takes
      rw [rounds_step above next]
      omega

/-- The heights agree but for the lowest `L` bits. -/
theorem rounds_le (above : height ≤ w) (agree : w / 2 ^ L = height / 2 ^ L) :
    rounds height w ≤ L * L := by
  induction L generalizing w with
  | zero =>
    obtain rfl : w = height := by simpa using agree
    rw [rounds, if_neg (lt_irrefl _)]
  | succ L ih =>
    by_cases same : w / 2 ^ L = height / 2 ^ L
    · exact (ih above same).trans (Nat.mul_le_mul (le_succ L) (le_succ L))
    -- the target is below the multiple of `2 ^ L` that the walk is above of
    have order : height / 2 ^ L ≤ w / 2 ^ L := Nat.div_le_div_right above
    rw [pow_succ, ← Nat.div_div_eq_div_mul, ← Nat.div_div_eq_div_mul] at agree
    have leave : ∀ v, height ≤ v → v < 2 ^ L * (w / 2 ^ L) → rounds height v ≤ L * L := by
      intro v inside below
      have lower : height / 2 ^ L ≤ v / 2 ^ L := Nat.div_le_div_right inside
      have upper := Nat.div_lt_of_lt_mul below
      exact ih inside (by omega)
    have target : height < 2 ^ L * (w / 2 ^ L) := by
      rw [(by omega : w / 2 ^ L = height / 2 ^ L + 1)]
      exact lt_mul_div_succ height (Nat.two_pow_pos L)
    have low := mod_lt w (Nat.two_pow_pos L)
    have split := div_add_mod w (2 ^ L)
    generalize w / 2 ^ L = q at *
    cases L with
    | zero =>
      obtain ⟨inside, less⟩ := nextHeight_bounds (by omega : height < w)
      rw [rounds_step (by omega) rfl]
      exact succ_le_succ (leave _ inside (by omega))
    | succ L =>
      have half : 2 ^ (L + 1) * q = 2 * (2 ^ L * q) := by ring
      have more : (L + 1 + 1) * (L + 1 + 1) = 2 * L + 3 + (L + 1) * (L + 1) := by ring
      rw [half] at leave target split
      obtain ⟨a, parity⟩ := even_or_odd' w
      obtain ⟨even, odd⟩ := rounds_charged leave target (Nat.dvd_mul_right _ q) (by omega : _ ≤ a)
        (fun _ => ⟨Nat.zero_le L, one_dvd a, by omega⟩)
      rcases parity with rfl | rfl <;> omega

/-- A chain of entries, each with its skip pointer set when it is added. -/
inductive Chain : CBlockIndex → Prop
  | genesis : Chain ⟨0, none, none⟩
  | next {pprev : CBlockIndex} (before : Chain pprev) :
      Chain (buildSkip ⟨pprev.nHeight + 1, some pprev, none⟩)

/-- The skip pointers lead to the skip heights. -/
inductive Linked : CBlockIndex → Prop
  | genesis : Linked ⟨0, none, none⟩
  | block {pprev pskip : CBlockIndex} (before : Linked pprev) (ancestor : Linked pskip)
      (height : pskip.nHeight = getSkipHeight (pprev.nHeight + 1)) :
        Linked ⟨pprev.nHeight + 1, some pprev, some pskip⟩

variable {pindex : CBlockIndex}

theorem Linked.follow (linked : Linked pindex) (above : height < pindex.nHeight) :
    ∃ next, pindex.follow height pindex.nHeight = some (next, next.nHeight) ∧ Linked next ∧
      nextHeight height pindex.nHeight = next.nHeight := by
  cases linked with
  | genesis => exact absurd above (not_lt_zero _)
  | @block pprev pskip before ancestor skip =>
    by_cases takes : takesSkip height (pprev.nHeight + 1)
    · exact ⟨pskip, by simp [CBlockIndex.follow, takes, skip],
        ancestor, by simp [nextHeight, takes, skip]⟩
    · exact ⟨pprev, by simp [CBlockIndex.follow, takes], before, by simp [nextHeight, takes]⟩

theorem Linked.walk_eq {fuel : Nat} (linked : Linked pindex) (inside : height ≤ pindex.nHeight)
    (enough : pindex.nHeight ≤ fuel) : ∃ ancestor, walk height fuel pindex pindex.nHeight =
      some (ancestor, rounds height pindex.nHeight) ∧ Linked ancestor ∧
      ancestor.nHeight = height := by
  induction fuel generalizing pindex with
  | zero =>
    have here : height = pindex.nHeight := by omega
    refine ⟨pindex, ?_, linked, here.symm⟩
    rw [walk, rounds, if_neg (by omega)]
  | succ fuel ih =>
    by_cases above : height < pindex.nHeight
    · obtain ⟨next, followed, linked, there⟩ := linked.follow above
      obtain ⟨lower, upper⟩ := nextHeight_bounds above
      obtain ⟨ancestor, ran, found⟩ := ih linked (by omega) (by omega)
      refine ⟨ancestor, ?_, found⟩
      simp [walk, above, followed, ran, rounds_step above there]
    · refine ⟨pindex, ?_, linked, by omega⟩
      rw [walk, rounds, if_neg above, if_neg above]

theorem Linked.getAncestor_eq (linked : Linked pindex) (inside : height ≤ pindex.nHeight) :
    ∃ ancestor, ∃ steps ≤ pindex.nHeight.size * pindex.nHeight.size,
      pindex.getAncestor height = some (ancestor, steps) ∧ Linked ancestor ∧
      ancestor.nHeight = height := by
  have wide := lt_size_self pindex.nHeight
  have agree : pindex.nHeight / 2 ^ pindex.nHeight.size = height / 2 ^ pindex.nHeight.size := by
    rw [Nat.div_eq_of_lt wide, Nat.div_eq_of_lt (by omega)]
  obtain ⟨ancestor, ran, found⟩ := linked.walk_eq inside (le_refl _)
  rw [getAncestor, if_neg (by omega)]
  exact ⟨ancestor, _, rounds_le inside agree, ran, found⟩

theorem Chain.linked (chain : Chain pindex) : Linked pindex := by
  induction chain with
  | genesis => exact .genesis
  | @next pprev _ ih =>
    have less := getSkipHeight_lt (succ_pos pprev.nHeight)
    obtain ⟨pskip, _, _, ran, linked, here⟩ := ih.getAncestor_eq (le_of_lt_succ less)
    rw [buildSkip]
    dsimp only
    rw [ran]
    exact .block ih linked here

/-- **`GetAncestor` follows at most `(b + 1) ^ 2` pointers** from a height of `b` binary digits, and
finds an entry of the height asked for. -/
theorem getAncestor_steps (chain : Chain pindex) {height : Nat} (inside : height ≤ pindex.nHeight) :
    ∃ ancestor steps, pindex.getAncestor height = some (ancestor, steps) ∧
      ancestor.nHeight = height ∧ steps ≤ (pindex.nHeight.size + 1) ^ 2 := by
  obtain ⟨ancestor, steps, few, ran, _, here⟩ := chain.linked.getAncestor_eq inside
  refine ⟨ancestor, steps, ran, here, few.trans ?_⟩
  rw [Nat.pow_two]
  exact Nat.mul_le_mul (le_succ _) (le_succ _)

theorem getAncestor_steps_three : ∃ pindex, Chain pindex ∧ pindex.nHeight = 3 ∧
    ∃ ancestor steps, pindex.getAncestor (1 : Nat) = some (ancestor, steps) ∧ ancestor.nHeight = 1 ∧
      steps ≤ (pindex.nHeight.size + 1) ^ 2 :=
  ⟨_, .next (.next (.next .genesis)), rfl,
    getAncestor_steps (.next (.next (.next .genesis))) (by decide)⟩

end Zcashd.Guarantees.BlockAncestors
