import Mathlib

/-!
Loops over a list whose body may stop: what every element gives, and invariants that each
round keeps.
-/
namespace Zcashd.Lib

open List Option

universe u

variable {α β σ : Type u}

theorem except_bind_ok {ε α β : Type} {first : Except ε α} {next : α → Except ε β} {result : β} :
    (first >>= next) = .ok result ↔ ∃ value, first = .ok value ∧ next value = .ok result := by
  cases first with
  | error _ => simp [bind, Except.bind]
  | ok _ => simp [bind, Except.bind]

theorem except_bind_error {ε α β : Type} {first : Except ε α} {next : α → Except ε β}
    {failure : ε} :
    (first >>= next) = .error failure ↔ first = .error failure ∨
    ∃ value, first = .ok value ∧ next value = .error failure := by
  cases first with
  | error _ => simp [bind, Except.bind]
  | ok _ => simp [bind, Except.bind]

variable {f : α → Option β} {l : List α}

theorem mapM_forall₂ {l' : List β} (mapped : l.mapM f = some l') :
    List.Forall₂ (fun a b => f a = some b) l l' := by
  induction l generalizing l' with
  | nil =>
    rw [mapM_nil] at mapped
    cases mapped
    exact .nil
  | cons _ _ ih =>
    rw [mapM_cons, bind_eq_bind, bind_eq_some_iff] at mapped
    obtain ⟨b, first, mapped⟩ := mapped
    rw [bind_eq_bind, bind_eq_some_iff] at mapped
    obtain ⟨_, others, mapped⟩ := mapped
    cases mapped
    exact .cons first (ih others)

theorem mem_mapM {l' : List β} (mapped : l.mapM f = some l') (b : β) : b ∈ l' ↔
    ∃ a ∈ l, f a = some b := by
  have related := mapM_forall₂ mapped
  clear mapped
  induction related with
  | nil => simp
  | cons first _ ih => simp [ih, first, eq_comm (a := b)]

theorem exists_mapM (each : ∀ a ∈ l, ∃ b, f a = some b) : ∃ l', l.mapM f = some l' := by
  induction l with
  | nil => exact ⟨[], mapM_nil⟩
  | cons head _ ih =>
    obtain ⟨b, first⟩ := each head mem_cons_self
    obtain ⟨rest, others⟩ := ih (fun a mem => each a (mem_cons_of_mem _ mem))
    exact ⟨b :: rest, by rw [mapM_cons, first, others]; rfl⟩

/-- If every round goes on and keeps the invariant, so does the loop. -/
theorem exists_foldlM {f : σ → α → Option σ} {s : σ} (Inv : σ → Prop)
    (round : ∀ a ∈ l, ∀ s, Inv s → ∃ s', f s a = some s' ∧ Inv s') (start : Inv s) :
    ∃ s', l.foldlM f s = some s' ∧ Inv s' := by
  induction l generalizing s with
  | nil => exact ⟨s, rfl, start⟩
  | cons head _ ih =>
    obtain ⟨_, first, kept⟩ := round head mem_cons_self s start
    obtain ⟨s', rest, done⟩ := ih (fun a mem => round a (mem_cons_of_mem _ mem)) kept
    exact ⟨s', by rw [foldlM_cons, first, bind_eq_bind, bind_some, rest], done⟩

end Zcashd.Lib
