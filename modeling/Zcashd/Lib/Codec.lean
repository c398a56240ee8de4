import Mathlib

/-!
Byte formats. A decoder reads a value off the front of the input and hands back the rest.
`Decodes d bytes a` says that `d` reads `a` from exactly `bytes`, whatever follows them;
`bind`, `last` and `times` put the decoding of a record together from that of its fields.
`Exact d encode valid` says in addition that `d` reads nothing but encodings of valid values,
so that no value has two of them.
-/
namespace Zcashd.Lib

abbrev Bytes := List UInt8

abbrev Decoder (α : Type) := StateT Bytes Option α

namespace Decoder

variable {α β : Type}

def byte : Decoder UInt8 := fun input =>
  match input with
  | [] => none
  | b :: rest => some (b, rest)

/-- The next `count` bytes. -/
def take (count : Nat) : Decoder Bytes := fun input =>
  if count ≤ input.length then some (input.take count, input.drop count) else none

def fail : Decoder α := fun _ => none

/-- A part that is only there under a condition; the value is `absent` otherwise. -/
def readIf (condition : Prop) [Decidable condition] (d : Decoder α) (absent : α) : Decoder α :=
  if condition then d else pure absent

/-- The same decoder `count` times over. -/
def times (d : Decoder α) : Nat → Decoder (List α)
  | 0 => pure []
  | count + 1 => do
    let head ← d
    let tail ← times d count
    pure (head :: tail)

end Decoder

def Decodes {α : Type} (d : Decoder α) (bytes : Bytes) (a : α) : Prop :=
  ∀ rest, d (bytes ++ rest) = some (a, rest)

namespace Decodes

variable {α β : Type} {d : Decoder α} {bytes bytes' : Bytes} {a : α} {b : β}

protected theorem pure (a : α) : Decodes (pure a) [] a := fun _ => rfl

protected theorem bind {next : α → Decoder β} (first : Decodes d bytes a)
    (second : Decodes (next a) bytes' b) : Decodes (d >>= next) (bytes ++ bytes') b := by
  intro rest
  change (d (bytes ++ bytes' ++ rest)).bind (fun p => next p.1 p.2) = _
  rw [List.append_assoc, first (bytes' ++ rest)]
  exact second rest

/-- The last field of a record. -/
theorem last (f : α → β) (first : Decodes d bytes a) :
    Decodes (d >>= fun x => pure (f x)) bytes (f a) := by
  intro rest
  change (d (bytes ++ rest)).bind (fun p => some (f p.1, p.2)) = _
  rw [first rest]
  rfl

protected theorem byte (b : UInt8) : Decodes Decoder.byte [b] b := fun _ => rfl

protected theorem take (l : Bytes) : Decodes (Decoder.take l.length) l l := by
  intro rest
  simp [Decoder.take]

protected theorem times {encode : α → Bytes} {l : List α} (each : ∀ a ∈ l, Decodes d (encode a) a) :
    Decodes (d.times l.length) (l.flatMap encode) l := by
  induction l with
  | nil => exact Decodes.pure []
  | cons head tail ih =>
    have first := each head (by simp)
    have rest := ih (fun a member => each a (by simp [member]))
    simp only [List.length_cons, Decoder.times, List.flatMap_cons]
    exact first.bind (rest.last (fun l => head :: l))

end Decodes

variable {input rest : Bytes}

theorem Decoder.bind_eq_some {next : α → Decoder β} :
    (d >>= next) input = some (b, rest) ↔
    ∃ a mid, d input = some (a, mid) ∧ next a mid = some (b, rest) := by
  change (d input).bind (fun p => next p.1 p.2) = some (b, rest) ↔ _
  rw [Option.bind_eq_some_iff]
  constructor
  · rintro ⟨⟨a, mid⟩, first, second⟩
    exact ⟨a, mid, first, second⟩
  · rintro ⟨a, mid, first, second⟩
    exact ⟨(a, mid), first, second⟩

theorem Decoder.pure_eq_some {b : α} :
    (pure a : Decoder α) input = some (b, rest) ↔ b = a ∧ input = rest := by
  change some (a, input) = some (b, rest) ↔ _
  simp [eq_comm]

/-- The decoder reads exactly the encodings of valid values: those, and nothing else. -/
def Exact {α : Type} (d : Decoder α) (encode : α → Bytes) (valid : α → Prop) : Prop :=
  ∀ input a rest, d input = some (a, rest) ↔ valid a ∧ input = encode a ++ rest

namespace Exact

variable {α β : Type} {d : Decoder α} {encode : α → Bytes} {valid : α → Prop}

theorem decodes (exact : Exact d encode valid) (isValid : valid a) : Decodes d (encode a) a :=
  fun rest => (exact (encode a ++ rest) a rest).mpr ⟨isValid, rfl⟩

theorem of_decodes (back : ∀ a, valid a → Decodes d (encode a) a)
    (only : ∀ input a rest, d input = some (a, rest) → valid a ∧ input = encode a ++ rest) :
    Exact d encode valid := by
  intro input a rest
  constructor
  · exact only input a rest
  · rintro ⟨isValid, rfl⟩
    exact back a isValid rest

/-- The same values with another description. -/
theorem congr (exact : Exact d encode valid) {encode' : α → Bytes} {valid' : α → Prop}
    (same : ∀ a, valid' a ↔ valid a) (bytes : ∀ a, valid a → encode' a = encode a) :
    Exact d encode' valid' := by
  intro _ a _
  rw [exact, same]
  constructor
  · rintro ⟨isValid, rfl⟩
    exact ⟨isValid, by rw [bytes a isValid]⟩
  · rintro ⟨isValid, rfl⟩
    exact ⟨isValid, by rw [bytes a isValid]⟩

protected theorem byte : Exact Decoder.byte (fun b => [b]) (fun _ => True) := by
  intro input b rest
  cases input with
  | nil => simp [Decoder.byte]
  | cons head tail => simp [Decoder.byte, eq_comm]

protected theorem times (exact : Exact d encode valid) (count : Nat) :
    Exact (d.times count) (fun l => l.flatMap encode)
      (fun l => l.length = count ∧ ∀ a ∈ l, valid a) := by
  induction count with
  | zero =>
    intro input l rest
    rw [Decoder.times, Decoder.pure_eq_some]
    constructor
    · rintro ⟨rfl, rfl⟩
      exact ⟨⟨rfl, nofun⟩, rfl⟩
    · rintro ⟨⟨none, -⟩, rfl⟩
      obtain rfl := List.eq_nil_of_length_eq_zero none
      exact ⟨rfl, rfl⟩
  | succ count ih =>
    intro input l rest
    rw [Decoder.times, Decoder.bind_eq_some]
    constructor
    · rintro ⟨head, mid, first, second⟩
      obtain ⟨tail, after, others, last⟩ := Decoder.bind_eq_some.mp second
      obtain ⟨rfl, rfl⟩ := Decoder.pure_eq_some.mp last
      obtain ⟨validHead, rfl⟩ := (exact _ _ _).mp first
      obtain ⟨⟨rfl, validTail⟩, rfl⟩ := (ih _ _ _).mp others
      refine ⟨⟨rfl, ?_⟩, by simp only [List.flatMap_cons, List.append_assoc]⟩
      simpa using ⟨validHead, validTail⟩
    · rintro ⟨⟨length, allValid⟩, rfl⟩
      obtain ⟨head, tail, rfl⟩ := List.exists_cons_of_length_eq_add_one length
      simp only [List.mem_cons, forall_eq_or_imp] at allValid
      simp only [List.flatMap_cons, List.append_assoc]
      refine ⟨head, _, (exact _ _ _).mpr ⟨allValid.1, rfl⟩,
        Decoder.bind_eq_some.mpr ⟨tail, rest, ?_, rfl⟩⟩
      exact (ih _ _ _).mpr ⟨⟨Nat.succ_inj.mp length, allValid.2⟩, rfl⟩

/-- A value kept in another form. -/
theorem map (exact : Exact d encode valid) (f : α → β) {encode' : β → Bytes} {valid' : β → Prop}
    (g : β → α) (there : ∀ a, valid a → valid' (f a) ∧ g (f a) = a ∧ encode' (f a) = encode a)
    (back : ∀ b, valid' b → valid (g b) ∧ f (g b) = b) :
    Exact (d >>= fun a => pure (f a)) encode' valid' := by
  intro _ b rest
  rw [Decoder.bind_eq_some]
  constructor
  · rintro ⟨a, _, first, last⟩
    obtain ⟨rfl, rfl⟩ := Decoder.pure_eq_some.mp last
    obtain ⟨validA, rfl⟩ := (exact _ _ _).mp first
    obtain ⟨validB, -, bytes⟩ := there a validA
    exact ⟨validB, by rw [bytes]⟩
  · rintro ⟨validB, rfl⟩
    obtain ⟨validA, same⟩ := back b validB
    have bytes := (there (g b) validA).2.2
    rw [same] at bytes
    exact ⟨g b, rest, (exact _ _ _).mpr ⟨validA, by rw [bytes]⟩,
      Decoder.pure_eq_some.mpr ⟨same.symm, rfl⟩⟩

end Exact

/-! Records are read field by field. While that goes on, some fields of the record are known. -/

/-- The decoder reads exactly the encodings of the rest of a record, given what is known of
the record. -/
def Continues {β : Type} (known : β → Prop) (d : Decoder β) (encode : β → Bytes)
    (valid : β → Prop) : Prop :=
  ∀ input b rest, d input = some (b, rest) ↔ known b ∧ valid b ∧ input = encode b ++ rest

namespace Continues

variable {α β : Type} {known : β → Prop} {d : Decoder α} {encode : α → Bytes} {valid : α → Prop}
  {next : α → Decoder β} {encodeRest : β → Bytes} {validRest : β → Prop}

theorem field (exact : Exact d encode valid) (project : β → α)
    (rest : ∀ a, Continues (fun b => project b = a ∧ known b) (next a) encodeRest validRest) :
    Continues known (d >>= next) (fun b => encode (project b) ++ encodeRest b)
      (fun b => valid (project b) ∧ validRest b) := by
  intro _ b _
  rw [Decoder.bind_eq_some]
  constructor
  · rintro ⟨a, _, first, second⟩
    obtain ⟨validA, rfl⟩ := (exact _ _ _).mp first
    obtain ⟨⟨rfl, knownB⟩, validB, rfl⟩ := (rest a _ _ _).mp second
    exact ⟨knownB, ⟨validA, validB⟩, (List.append_assoc ..).symm⟩
  · rintro ⟨knownB, ⟨validA, validB⟩, rfl⟩
    rw [List.append_assoc]
    exact ⟨project b, _, (exact _ _ _).mpr ⟨validA, rfl⟩,
      (rest _ _ _ _).mpr ⟨⟨rfl, knownB⟩, validB, rfl⟩⟩

variable {condition : Prop} {validField : β → Prop} [Decidable condition]

/-- A field that is only there under a condition on the fields before it. What is asked of the
field may depend on them too. -/
theorem fieldIf (exact : Exact d encode valid) (absent : α) (project : β → α)
    (present : β → Prop) [DecidablePred present]
    (agree : ∀ b, known b → (present b ↔ condition) ∧ (validField b ↔ valid (project b)))
    (rest : ∀ a, Continues (fun b => project b = a ∧ known b) (next a) encodeRest validRest) :
    Continues known (Decoder.readIf condition d absent >>= next)
      (fun b => (if present b then encode (project b) else []) ++ encodeRest b)
      (fun b => (if present b then validField b else project b = absent) ∧ validRest b) := by
  by_cases holds : condition
  · have whole := field exact project rest
    rw [Decoder.readIf, if_pos holds]
    intro _ b _
    rw [whole]
    dsimp only
    constructor
    · grind
    · grind
  · rw [Decoder.readIf, if_neg holds]
    intro input b after
    change next absent input = some (b, after) ↔ _
    rw [rest]
    dsimp only
    constructor
    · grind
    · grind

/-- A check on the fields read so far. -/
theorem refuse {d : Decoder β} (refused : β → Prop) (agree : ∀ b, known b → (refused b ↔ condition))
    (rest : Continues known d encodeRest validRest) :
    Continues known (if condition then Decoder.fail else d) encodeRest
      (fun b => ¬ refused b ∧ validRest b) := by
  intro _ b _
  by_cases holds : condition
  · rw [if_pos holds]
    constructor
    · rintro ⟨⟩
    · rintro ⟨knownB, ⟨passes, -⟩, -⟩
      exact absurd ((agree b knownB).mpr holds) passes
  · rw [if_neg holds, rest]
    constructor
    · rintro ⟨knownB, validB, rfl⟩
      exact ⟨knownB, ⟨fun refused => holds ((agree b knownB).mp refused), validB⟩, rfl⟩
    · rintro ⟨knownB, ⟨-, validB⟩, rfl⟩
      exact ⟨knownB, validB, rfl⟩

/-- At the end all of the record is known. -/
protected theorem done {whole : β} (all : ∀ b, known b ↔ b = whole) :
    Continues known (pure whole) (fun _ => []) (fun _ => True) := by
  intro input b rest
  rw [Decoder.pure_eq_some, all]
  simp

variable {whole : α → β}

theorem last (exact : Exact d encode valid) (project : β → α)
    (all : ∀ a b, project b = a ∧ known b ↔ b = whole a) :
    Continues known (d >>= fun a => pure (whole a)) (fun b => encode (project b))
      (fun b => valid (project b)) := by
  have record := field exact project (fun a => Continues.done (all a))
  intro _ b _
  rw [record]
  simp

theorem lastIf (exact : Exact d encode valid) (absent : α) (project : β → α) (present : β → Prop)
    [DecidablePred present]
    (agree : ∀ b, known b → (present b ↔ condition) ∧ (validField b ↔ valid (project b)))
    (all : ∀ a b, project b = a ∧ known b ↔ b = whole a) :
    Continues known (Decoder.readIf condition d absent >>= fun a => pure (whole a))
      (fun b => if present b then encode (project b) else [])
      (fun b => if present b then validField b else project b = absent) := by
  have record := fieldIf exact absent project present agree (fun a => Continues.done (all a))
  intro _ b _
  rw [record]
  simp

protected theorem exact {d : Decoder β} (whole : Continues (fun _ => True) d encodeRest validRest) :
    Exact d encodeRest validRest := by
  intro input b rest
  rw [whole]
  simp

end Continues

end Zcashd.Lib
