import Mathlib

/-!
A graph that loses the vertices a queue leads to. The vertices to be found are those that can be
reached from a vertex of the queue that is still there; the rules say how that set changes when
the first vertex of the queue is taken, and its successors are put behind the others.
-/
namespace Zcashd.Lib.Worklist

open Relation List

variable {α : Type*} {alive alive' : α → Prop} {step step' : α → α → Prop} {v : α}

/-- What can be reached from the vertices of the queue. -/
def LedTo (alive : α → Prop) (step : α → α → Prop) (queue : List α) (a : α) : Prop :=
  ∃ q ∈ queue, alive q ∧ ReflTransGen step q a

/-- The graph without one vertex. -/
structure Without (v : α) (alive : α → Prop) (step : α → α → Prop) (alive' : α → Prop)
    (step' : α → α → Prop) : Prop where
  alive : ∀ a, alive' a ↔ alive a ∧ a ≠ v
  step : ∀ a b, step' a b ↔ step a b ∧ a ≠ v ∧ b ≠ v

/-- A path ends in the vertex, or avoids it, or its last part starts at a successor of it. -/
theorem Without.path (without : Without v alive step alive' step') {a b : α}
    (path : ReflTransGen step a b) :
    b = v ∨ (a ≠ v ∧ ReflTransGen step' a b) ∨ ∃ c, step v c ∧ c ≠ v ∧ ReflTransGen step' c b := by
  induction path using ReflTransGen.head_induction_on with
  | refl =>
    by_cases here : b = v
    · exact .inl here
    · exact .inr (.inl ⟨here, .refl⟩)
  | @head a c first _ ih =>
    obtain atEnd | ⟨other, path⟩ | through := ih
    · exact .inl atEnd
    · by_cases here : a = v
      · exact .inr (.inr ⟨c, here ▸ first, other, path⟩)
      · exact .inr (.inl ⟨here, .head ((without.step a c).mpr ⟨first, here, other⟩) path⟩)
    · exact .inr (.inr through)

theorem Without.path_of (without : Without v alive step alive' step') {a b : α}
    (path : ReflTransGen step' a b) :
    ReflTransGen step a b :=
  ReflTransGen.mono (fun a b next => ((without.step a b).mp next).1) a b path

theorem ledTo_cons_dead (dead : ¬ alive v) {rest : List α} {a : α} :
    LedTo alive step (v :: rest) a ↔ LedTo alive step rest a := by
  constructor
  · rintro ⟨q, mem, isAlive, path⟩
    obtain rfl | mem := mem_cons.mp mem
    · exact absurd isAlive dead
    · exact ⟨q, mem, isAlive, path⟩
  · rintro ⟨q, mem, hit⟩
    exact ⟨q, mem_cons_of_mem v mem, hit⟩

theorem ledTo_cons_alive (isAlive : alive v) (without : Without v alive step alive' step')
    {rest successors : List α} (next : ∀ c, c ∈ successors ↔ step v c)
    (live : ∀ c, step v c → alive c) {a : α} :
    LedTo alive step (v :: rest) a ↔ a = v ∨ LedTo alive' step' (rest ++ successors) a := by
  -- a path that leaves the vertex is found from a successor
  have behind : ∀ c, step v c → c ≠ v → ReflTransGen step' c a →
      LedTo alive' step' (rest ++ successors) a :=
    fun c first other path => ⟨c, mem_append_right rest ((next c).mpr first),
      (without.alive c).mpr ⟨live c first, other⟩, path⟩
  constructor
  · rintro ⟨q, mem, isAlive, path⟩
    obtain atEnd | ⟨other, avoiding⟩ | ⟨c, first, other, avoiding⟩ := without.path path
    · exact .inl atEnd
    · obtain rfl | mem := mem_cons.mp mem
      · exact absurd rfl other
      · exact .inr ⟨q, mem_append_left successors mem,
          (without.alive q).mpr ⟨isAlive, other⟩, avoiding⟩
    · exact .inr (behind c first other avoiding)
  · rintro (rfl | ⟨q, mem, isAlive', path⟩)
    · exact ⟨a, mem_cons_self, isAlive, .refl⟩
    · obtain mem | mem := mem_append.mp mem
      · exact ⟨q, mem_cons_of_mem v mem, ((without.alive q).mp isAlive').1, without.path_of path⟩
      · exact ⟨v, mem_cons_self, isAlive, .head ((next q).mp mem) (without.path_of path)⟩

end Zcashd.Lib.Worklist
