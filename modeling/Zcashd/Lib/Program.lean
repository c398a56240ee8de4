import Mathlib

/-!
Programs that work on a store through named operations. A program is the tree of its calls,
so it can be run on any store that has a handler for the operations, and what is proved of
all programs by induction over that tree holds of each one.

`Simulates.run` is the rule this is for: when one handler simulates another operation by
operation, every program run on the first gives what it gives on the second.
-/
namespace Zcashd.Lib

/-- The operations a program may call and what each of them answers. -/
structure Signature where
  Op : Type
  Answer : Op → Type

inductive Program (S : Signature) (ε α : Type) where
  | ret (value : α)
  | stop (error : ε)
  | call (op : S.Op) (next : S.Answer op → Program S ε α)

/-- How one store carries the operations out. -/
abbrev Handler (S : Signature) (ε σ : Type) := (op : S.Op) → σ → Except ε (S.Answer op × σ)

namespace Program

variable {S : Signature} {ε α β σ τ : Type}

def bind : Program S ε α → (α → Program S ε β) → Program S ε β
  | ret value, rest => rest value
  | stop error, _ => stop error
  | call op next, rest => call op (fun answer => (next answer).bind rest)

instance : Monad (Program S ε) where
  pure := ret
  bind := bind

/-- A single call. -/
def perform (op : S.Op) : Program S ε (S.Answer op) := call op ret

/-- Go on only when the condition holds. -/
def require (condition : Bool) (error : ε) : Program S ε Unit :=
  if condition then ret () else stop error

def run (handler : Handler S ε σ) : Program S ε α → σ → Except ε (α × σ)
  | ret value, s => .ok (value, s)
  | stop error, _ => .error error
  | call op next, s =>
    match handler op s with
    | .ok (answer, s') => run handler (next answer) s'
    | .error error => .error error

section

variable {handler : Handler S ε σ} {s s' : σ}

@[simp] theorem run_stop (error : ε) :
    run handler (stop error : Program S ε α) s = .error error := rfl

@[simp] theorem run_perform (op : S.Op) : run handler (perform op) s = handler op s := by
  unfold perform run
  cases handler op s with
  | error _ => rfl
  | ok _ => rfl

theorem run_call (op : S.Op) (next : S.Answer op → Program S ε α) : run handler (call op next) s =
      match handler op s with
      | .ok (answer, s') => run handler (next answer) s'
      | .error error => .error error := by
  rw [run]

/-- The run of a sequence is the run of its parts, one after the other. -/
theorem run_bind (p : Program S ε α) (rest : α → Program S ε β) (s : σ) :
    run handler (p >>= rest) s = match run handler p s with
      | .ok (value, s') => run handler (rest value) s'
      | .error error => .error error := by
  induction p generalizing s with
  | ret _ => rfl
  | stop _ => rfl
  | call op next ih =>
    change run handler (call op fun answer => (next answer).bind rest) s = _
    rw [run_call, run_call]
    cases handler op s with
    | error _ => rfl
    | ok result =>
      obtain ⟨answer, s'⟩ := result
      exact ih answer s'

variable {p : Program S ε α} {rest : α → Program S ε β}

/-- Taking a successful run of a sequence apart. -/
theorem run_bind_ok {result : β × σ} :
    run handler (p >>= rest) s = .ok result ↔
      ∃ value s', run handler p s = .ok (value, s') ∧ run handler (rest value) s' = .ok result := by
  rw [run_bind]
  cases first : run handler p s with
  | error _ => simp
  | ok pair =>
    obtain ⟨value, s'⟩ := pair
    constructor
    · intro ran
      exact ⟨value, s', rfl, ran⟩
    · rintro ⟨_, _, ⟨⟩, ran⟩
      exact ran

@[simp] theorem run_require_ok {condition : Bool} {error : ε} {result : Unit × σ} :
    run handler (require condition error) s = .ok result ↔ condition = true ∧ result = ((), s) := by
  unfold require
  cases condition with
  | true => simp [run, eq_comm]
  | false => simp

end

/-- Every call of the run meets the condition on the state it is made in. -/
def Safe (handler : Handler S ε σ) (pre : S.Op → σ → Prop) : Program S ε α → σ → Prop
  | ret _, _ => True
  | stop _, _ => True
  | call op next, s =>
    pre op s ∧ ∀ answer s', handler op s = .ok (answer, s') → Safe handler pre (next answer) s'

section

variable {handler : Handler S ε σ} {pre : S.Op → σ → Prop} {s : σ}

theorem safe_pure (value : α) : Safe handler pre (pure value : Program S ε α) s := trivial

theorem safe_require (condition : Bool) (error : ε) :
    Safe handler pre (require condition error : Program S ε Unit) s := by
  unfold require
  split <;> trivial

theorem safe_perform {op : S.Op} (allowed : pre op s) :
    Safe handler pre (perform op : Program S ε (S.Answer op)) s :=
  ⟨allowed, fun _ _ _ => trivial⟩

theorem safe_bind (first : Safe handler pre p s)
    (then_ : ∀ value s', run handler p s = .ok (value, s') → Safe handler pre (rest value) s') :
    Safe handler pre (p >>= rest) s := by
  induction p generalizing s with
  | ret value => exact then_ value s rfl
  | stop _ => trivial
  | call _ _ ih =>
    refine ⟨first.1, fun answer s' answered => ih answer (first.2 answer s' answered) ?_⟩
    intro value s'' ran
    apply then_ value s''
    simpa only [run, answered] using ran

theorem Safe.mono {pre' : S.Op → σ → Prop} (weaker : ∀ op s, pre op s → pre' op s)
    (safe : Safe handler pre p s) : Safe handler pre' p s := by
  induction p generalizing s with
  | ret _ => trivial
  | stop _ => trivial
  | call op _ ih =>
    exact ⟨weaker op s safe.1, fun answer s' answered => ih answer (safe.2 answer s' answered)⟩

end

/-- The program makes no call but the allowed ones, whatever they answer. -/
def Only (allowed : S.Op → Prop) : Program S ε α → Prop
  | ret _ => True
  | stop _ => True
  | call op next => allowed op ∧ ∀ answer, Only allowed (next answer)

section

variable {allowed : S.Op → Prop}

theorem only_pure (value : α) : Only allowed (pure value : Program S ε α) := trivial

theorem only_stop (error : ε) : Only allowed (stop error : Program S ε α) := trivial

theorem only_require (condition : Bool) (error : ε) :
    Only allowed (require condition error : Program S ε Unit) := by
  unfold require
  split <;> trivial

theorem only_perform {op : S.Op} (yes : allowed op) :
    Only allowed (perform op : Program S ε (S.Answer op)) :=
  ⟨yes, fun _ => trivial⟩

variable {p : Program S ε α}

theorem only_bind (first : Only allowed p)
    (then_ : ∀ value, Only allowed (rest value)) : Only allowed (p >>= rest) := by
  induction p with
  | ret value => exact then_ value
  | stop _ => trivial
  | call _ _ ih => exact ⟨first.1, fun answer => ih answer (first.2 answer)⟩

theorem Only.mono {allowed' : S.Op → Prop} (weaker : ∀ op, allowed op → allowed' op)
    (only : Only allowed p) : Only allowed' p := by
  induction p with
  | ret _ => trivial
  | stop _ => trivial
  | call op _ ih => exact ⟨weaker op only.1, fun answer => ih answer (only.2 answer)⟩

variable {handler : Handler S ε σ}

/-- Where the allowed calls meet the condition in every state. -/
theorem Only.safe {pre : S.Op → σ → Prop} (only : Only allowed p)
    (meets : ∀ op s, allowed op → pre op s) (s : σ) : Safe handler pre p s := by
  induction p generalizing s with
  | ret _ => trivial
  | stop _ => trivial
  | call op _ ih => exact ⟨meets op s only.1, fun answer s' _ => ih answer (only.2 answer) s'⟩

variable {value : α}

/-- Where the allowed calls keep an invariant of the state. -/
theorem Only.run_invariant {I : σ → Prop} (only : Only allowed p)
    (keeps : ∀ op s answer s', allowed op → I s → handler op s = .ok (answer, s') → I s') {s s' : σ}
    (old : I s) (ran : run handler p s = .ok (value, s')) : I s' := by
  induction p generalizing s with
  | ret _ =>
    cases ran
    exact old
  | stop _ => cases ran
  | call op _ ih =>
    rw [run_call] at ran
    cases answered : handler op s with
    | error _ =>
      rw [answered] at ran
      cases ran
    | ok result =>
      obtain ⟨answer, s''⟩ := result
      rw [answered] at ran
      exact ih answer (only.2 answer) (keeps op s answer s'' only.1 old answered) ran

/-- Where they leave it alone. -/
theorem Only.run_state (only : Only allowed p)
    (keeps : ∀ op s answer s', allowed op → handler op s = .ok (answer, s') → s' = s) {s s' : σ}
    (ran : run handler p s = .ok (value, s')) : s' = s := by
  refine only.run_invariant (I := fun after => after = s) ?_ rfl ran
  rintro op _ answer after yes rfl answered
  exact keeps op _ answer after yes answered

end

/-- The two outcomes are of one kind, answer alike and leave related states. -/
def Related (R : σ → τ → Prop) : Except ε (α × σ) → Except ε (α × τ) → Prop
  | .ok (a, s), .ok (b, t) => a = b ∧ R s t
  | .error error, .error error' => error = error'
  | _, _ => False

/-- The first handler does what the second does, on related states and where the call meets
the condition. -/
structure Simulates (R : σ → τ → Prop) (pre : S.Op → τ → Prop) (concrete : Handler S ε σ)
    (abstract : Handler S ε τ) : Prop where
  step : ∀ op s t, R s t → pre op t → Related R (concrete op s) (abstract op t)

variable {R : σ → τ → Prop}

theorem Simulates.run {pre : S.Op → τ → Prop} {concrete : Handler S ε σ} {abstract : Handler S ε τ}
    (sim : Simulates R pre concrete abstract) (p : Program S ε α) {s : σ} {t : τ} (related : R s t)
    (safe : Safe abstract pre p t) :
    Related R (p.run concrete s) (p.run abstract t) := by
  induction p generalizing s t with
  | ret _ => exact ⟨rfl, related⟩
  | stop _ => rfl
  | call op _ ih =>
    have step := sim.step op s t related safe.1
    rw [run_call, run_call]
    cases answered : abstract op t with
    | error error =>
      cases reached : concrete op s with
      | error _ =>
        rw [reached, answered] at step
        exact step
      | ok _ =>
        rw [reached, answered] at step
        exact step.elim
    | ok result =>
      cases reached : concrete op s with
      | error _ =>
        rw [reached, answered] at step
        exact step.elim
      | ok result' =>
        rw [reached, answered] at step
        obtain ⟨_, _⟩ := result
        obtain ⟨answer', _⟩ := result'
        obtain ⟨rfl, related'⟩ := step
        exact ih answer' related' (safe.2 _ _ answered)

/-- A run that succeeds on the simulating side succeeds on the other, with the same value. -/
theorem Related.ok {outcome : Except ε (α × τ)} {value : α} {s : σ}
    (related : Related R (.ok (value, s) : Except ε (α × σ)) outcome) :
    ∃ t, outcome = .ok (value, t) ∧ R s t := by
  cases outcome with
  | error _ => exact related.elim
  | ok result =>
    obtain ⟨_, t⟩ := result
    obtain ⟨rfl, related⟩ := related
    exact ⟨t, rfl, related⟩

variable {outcome : Except ε (α × σ)}

theorem Related.ok' {value : α} {t : τ}
    (related : Related R outcome (.ok (value, t) : Except ε (α × τ))) :
    ∃ s, outcome = .ok (value, s) ∧ R s t := by
  cases outcome with
  | error _ => exact related.elim
  | ok result =>
    obtain ⟨_, s⟩ := result
    obtain ⟨rfl, related⟩ := related
    exact ⟨s, rfl, related⟩

/-- A test of a finished run, for concrete ones. -/
def finishes (outcome : Except ε (α × σ)) (test : α → σ → Bool) : Bool :=
  match outcome with
  | .ok (value, s) => test value s
  | .error _ => false

theorem finishes_iff {test : α → σ → Bool} :
    finishes outcome test = true ↔ ∃ value s, outcome = .ok (value, s) ∧ test value s = true := by
  cases outcome with
  | error _ => simp [finishes]
  | ok result =>
    obtain ⟨value, s⟩ := result
    constructor
    · intro passed
      exact ⟨value, s, rfl, passed⟩
    · rintro ⟨_, _, ⟨⟩, passed⟩
      exact passed

end Program

end Zcashd.Lib
