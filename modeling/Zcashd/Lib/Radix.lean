import Mathlib

/-!
Numbers written in a base. A digit string has its most significant digit first, as it is read.
`recode` carries a string over to another base and keeps the number of leading zeros, so that
nothing is lost (`recode_recode`). `mulAdd` multiplies and adds in place, over an array of digits
whose least significant one comes first.
-/
namespace Zcashd.Lib.Radix

open List Nat

/-- The number a digit string stands for. -/
def value (b : Nat) (l : List Nat) : Nat := Nat.ofDigits b l.reverse

def zeros (l : List Nat) : Nat := (l.takeWhile (· == 0)).length

def strip (l : List Nat) : List Nat := l.dropWhile (· == 0)

/-- The shortest digit string of a number. -/
def shortest (b n : Nat) : List Nat := (Nat.digits b n).reverse

def recode (b b' : Nat) (l : List Nat) : List Nat :=
  List.replicate (zeros l) 0 ++ shortest b' (value b l)

variable {b b' : Nat} {l l' : List Nat}

@[simp] theorem value_nil : value b [] = 0 := by
  simp [value]

theorem value_append : value b (l ++ l') = value b l * b ^ l'.length + value b l' := by
  simp only [value, reverse_append, ofDigits_append, length_reverse]
  ring

@[simp] theorem value_singleton (d : Nat) : value b [d] = d := by
  simp [value]

@[simp] theorem value_replicate_zero (n : Nat) : value b (replicate n 0) = 0 := by
  simp [value, ofDigits_replicate_zero]

theorem value_lt (base : 1 < b) (digits : ∀ d ∈ l, d < b) : value b l < b ^ l.length := by
  have bound := ofDigits_lt_base_pow_length base (fun d mem => digits d (mem_reverse.mp mem))
  rwa [length_reverse] at bound

/-- Of two strings of one length only one stands for a number. -/
theorem value_inj (base : 1 < b) (size : l.length = l'.length) (digits : ∀ d ∈ l, d < b)
    (digits' : ∀ d ∈ l', d < b) (same : value b l = value b l') :
    l = l' := by
  have reversed := ofDigits_inj_of_len_eq base (by simpa using size)
    (fun d mem => digits d (mem_reverse.mp mem)) (fun d mem => digits' d (mem_reverse.mp mem)) same
  exact reverse_injective reversed

theorem zeros_append_strip (l : List Nat) : replicate (zeros l) 0 ++ strip l = l := by
  have zero : l.takeWhile (· == 0) = replicate (zeros l) 0 := by
    apply eq_replicate_of_mem
    intro d mem
    simpa using mem_takeWhile_imp mem
  rw [← zero, strip]
  exact takeWhile_append_dropWhile

theorem drop_zeros (l : List Nat) : l.drop (zeros l) = strip l := by
  have dropped : (replicate (zeros l) 0 ++ strip l).drop (zeros l) = strip l := drop_left' (by simp)
  rwa [zeros_append_strip] at dropped

theorem zeros_replicate_append (n : Nat) (l : List Nat) :
    zeros (replicate n 0 ++ l) = n + zeros l := by
  rw [zeros, takeWhile_append_of_pos (by simp), length_append, length_replicate, zeros]

theorem value_replicate_append (n : Nat) (l : List Nat) :
    value b (replicate n 0 ++ l) = value b l := by
  rw [value_append, value_replicate_zero]
  omega

theorem value_shortest (b n : Nat) : value b (shortest b n) = n := by
  rw [value, shortest, reverse_reverse, ofDigits_digits]

theorem digits_shortest (base : 1 < b) (n : Nat) : ∀ d ∈ shortest b n, d < b := by
  intro d mem
  exact digits_lt_base base (mem_reverse.mp mem)

theorem zeros_shortest (b n : Nat) : zeros (shortest b n) = 0 := by
  rw [zeros, length_eq_zero_iff, takeWhile_eq_nil_iff]
  intro some
  have ne : digits b n ≠ [] := by
    intro none
    simp [shortest, none] at some
  have last := getLast_digit_ne_zero b (digits_ne_nil_iff_ne_zero.mp ne)
  simpa [shortest, getElem_reverse, getLast_eq_getElem] using last

/-- Without its leading zeros a string is the shortest one of its number. -/
theorem strip_eq (base : 1 < b) (digits : ∀ d ∈ l, d < b) : strip l = shortest b (value b l) := by
  have same : value b l = value b (strip l) := by
    conv_lhs => rw [← zeros_append_strip l]
    rw [value_replicate_append]
  have digit : ∀ d ∈ (strip l).reverse, d < b := by
    intro d mem
    exact digits d ((dropWhile_sublist _).subset (mem_reverse.mp mem))
  have first : ∀ ne : (strip l).reverse ≠ [], (strip l).reverse.getLast ne ≠ 0 := by
    intro ne
    rw [getLast_reverse]
    have head := head_dropWhile_not (· == 0) (l := l) (by simpa [strip] using ne)
    simpa [strip] using head
  rw [same, shortest, value, digits_ofDigits b base _ digit first, reverse_reverse]

theorem zeros_recode : zeros (recode b b' l) = zeros l := by
  rw [recode, zeros_replicate_append, zeros_shortest, add_zero]

theorem value_recode : value b' (recode b b' l) = value b l := by
  rw [recode, value_replicate_append, value_shortest]

theorem length_shortest_le (base : 1 < b) {n k : Nat} (bound : n < b ^ k) :
    (shortest b n).length ≤ k := by
  rw [shortest, length_reverse]
  exact (digits_length_le_iff base n).mpr bound

theorem digits_recode (base : 1 < b') : ∀ d ∈ recode b b' l, d < b' := by
  intro d mem
  rcases mem_append.mp mem with zero | digit
  · have := (mem_replicate.mp zero).2
    omega
  · exact digits_shortest base _ d digit

theorem recode_recode (base : 1 < b) (digits : ∀ d ∈ l, d < b) :
    recode b' b (recode b b' l) = l := by
  rw [recode, zeros_recode, value_recode, ← strip_eq base digits, zeros_append_strip]

section

/-- `digits * mult + carry`, with the carry that is left. -/
def mulAdd (base mult : Nat) : Nat → List Nat → List Nat × Nat
  | carry, [] => ([], carry)
  | carry, d :: digits =>
    let sum := carry + mult * d
    let above := mulAdd base mult (sum / base) digits
    (sum % base :: above.1, above.2)

variable {base mult carry : Nat} {digits : List Nat}

@[simp] theorem length_mulAdd : (mulAdd base mult carry digits).1.length = digits.length := by
  induction digits generalizing carry with
  | nil => rfl
  | cons d _ ih => simp [mulAdd, ih]

theorem mulAdd_lt (pos : 0 < base) : ∀ d ∈ (mulAdd base mult carry digits).1, d < base := by
  induction digits generalizing carry with
  | nil => simp [mulAdd]
  | cons d _ ih =>
    simp only [mulAdd, mem_cons, forall_eq_or_imp]
    exact ⟨mod_lt _ pos, ih⟩

theorem ofDigits_mulAdd (carry : Nat) : ofDigits base (mulAdd base mult carry digits).1 +
    base ^ digits.length * (mulAdd base mult carry digits).2 =
      ofDigits base digits * mult + carry := by
  induction digits generalizing carry with
  | nil => simp [mulAdd]
  | cons d digits ih =>
    have split := mod_add_div (carry + mult * d) base
    have above := ih ((carry + mult * d) / base)
    simp only [mulAdd, ofDigits_cons, length_cons, pow_succ]
    calc _ = (carry + mult * d) % base + base *
      (ofDigits base (mulAdd base mult ((carry + mult * d) / base) digits).1 +
          base ^ digits.length * (mulAdd base mult ((carry + mult * d) / base) digits).2) := by ring
      _ = (carry + mult * d) % base + base *
        (ofDigits base digits * mult + (carry + mult * d) / base) := by rw [above]
      _ = (carry + mult * d) % base + base * ((carry + mult * d) / base) + base *
        ofDigits base digits * mult := by ring
      _ = _ := by rw [split]; ring

/-- The sum fits into the digits there are. -/
theorem mulAdd_fits (fits : ofDigits base digits * mult + carry < base ^ digits.length) :
    (mulAdd base mult carry digits).2 = 0 ∧
      ofDigits base (mulAdd base mult carry digits).1 = ofDigits base digits * mult + carry := by
  have sum : ofDigits base (mulAdd base mult carry digits).1 +
    base ^ digits.length * (mulAdd base mult carry digits).2 =
      ofDigits base digits * mult + carry := ofDigits_mulAdd carry
  have none : (mulAdd base mult carry digits).2 = 0 := by
    by_contra some
    have := Nat.le_mul_of_pos_right (base ^ digits.length) (Nat.pos_of_ne_zero some)
    omega
  rw [none] at sum
  exact ⟨none, by omega⟩

end

end Zcashd.Lib.Radix
