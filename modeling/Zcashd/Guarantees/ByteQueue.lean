import Zcashd.Source.DataStream

/-!
# A data stream as a queue of bytes

The unread bytes are those of a list under the same operations, as long as no position is cut off
when it is stored in an `unsigned int` and a stream of which bytes were read is not written with
`<<`. The condition `Op.Fits` is exact, call by call. A call that does not meet it leaves other
bytes, or reads past the vector:

* `read` and `ignore` add the size to `nReadPos` in 32 bits and compare the sum with the length;
* `insert` takes the room before `nReadPos` when the length of the range, in 32 bits, fits there;
* `erase` of a prefix only moves `nReadPos`, unless nothing is left;
* `<<` writes the vector from its start, not from `nReadPos` (`shiftLeft_rereads`).

Iterators are positions among the unread bytes (`Op.Valid`); others are undefined in the source.
-/
namespace Zcashd.Guarantees.ByteQueue

open Lib Source CBaseDataStream List

inductive Op where
  | write (bytes : Bytes)
  | read (nSize : Nat)
  | ignore (nSize : Int)
  | insert (it : Nat) (range : Bytes)
  | erase (first last : Nat)
  | append (b : CBaseDataStream)
  | shiftLeft (b : CBaseDataStream)

/-- The operation on a stream, with the bytes it hands out. -/
def Op.onStream (s : CBaseDataStream) : Op → Except Failure (Bytes × CBaseDataStream)
  | .write bytes => .ok ([], s.write bytes)
  | .read nSize => s.read nSize
  | .ignore nSize => (s.ignore nSize).map ([], ·)
  | .insert it range => (s.insert it range).map ([], ·)
  | .erase first last => .ok ([], s.erase first last)
  | .append b => .ok ([], s.append b)
  | .shiftLeft b => .ok ([], s.shiftLeft b)

/-- The operation on the list of the unread bytes. -/
def Op.onBytes (l : Bytes) : Op → Except Failure (Bytes × Bytes)
  | .write bytes => .ok ([], l ++ bytes)
  | .read nSize => if nSize ≤ l.length then .ok (l.take nSize, l.drop nSize) else .error .thrown
  | .ignore nSize =>
    if 0 ≤ nSize ∧ nSize ≤ l.length then .ok ([], l.drop nSize.toNat) else .error .thrown
  | .insert it range => .ok ([], l.take it ++ range ++ l.drop it)
  | .erase first last => .ok ([], l.take first ++ l.drop last)
  | .append b | .shiftLeft b => .ok ([], l ++ b.unread)

/-- Iterators are those of the stream. -/
def Op.Valid (s : CBaseDataStream) : Op → Prop
  | .insert it _ => it ≤ s.unread.length
  | .erase first last => first ≤ last ∧ last ≤ s.unread.length
  | _ => True

/-- The next position is below `2 ^ 32`, or is behind the end still when it is cut off. -/
def Advances (s : CBaseDataStream) (n : Nat) : Prop :=
  s.nReadPos + n < 2 ^ 32 ∨ s.vch.length < (s.nReadPos + n) % 2 ^ 32

/-- No position or size is cut off where it matters: for inserted and erased ranges at the front
only, and for an erased one only if something is left. A stream written with `<<` is unread. -/
def Op.Fits (s : CBaseDataStream) : Op → Prop
  | .write _ | .append _ => True
  | .read nSize => nSize = 0 ∨ Advances s nSize
  | .ignore nSize => nSize < 0 ∨ Advances s nSize.toNat
  | .insert it range => it = 0 → range.length % 2 ^ 32 ≤ s.nReadPos → range.length < 2 ^ 32
  | .erase first last => first = 0 → last = s.unread.length ∨ s.nReadPos + last < 2 ^ 32
  | .shiftLeft b => b.nReadPos = 0 ∨ b.vch = []

/-- The list is what comes behind the read position. -/
def Shows (l : Bytes) (s : CBaseDataStream) : Prop :=
  ∃ old, s.vch = old ++ l ∧ s.nReadPos = old.length

/-- The same bytes are handed out and the same bytes are left, or both throw. -/
def Agree : Except Failure (Bytes × CBaseDataStream) → Except Failure (Bytes × Bytes) → Prop
  | .ok (bytes, s), .ok (bytes', l) => bytes = bytes' ∧ Shows l s
  | .error e, .error e' => e = e'
  | _, _ => False

variable {l : Bytes} {s : CBaseDataStream}

theorem Shows.unread (shows' : Shows l s) : s.unread = l := by
  obtain ⟨old, bytes, pos⟩ := shows'
  rw [CBaseDataStream.unread, bytes, pos, drop_left]

theorem Shows.length (shows' : Shows l s) : s.vch.length = s.nReadPos + l.length := by
  obtain ⟨old, same, pos⟩ := shows'
  rw [same, pos, length_append]

theorem Shows.write (shows' : Shows l s) (bytes : Bytes) : Shows (l ++ bytes) (s.write bytes) := by
  obtain ⟨old, same, pos⟩ := shows'
  refine ⟨old, ?_, pos⟩
  rw [CBaseDataStream.write, same, append_assoc]

/-- The read position moves on, or the vector is emptied when the end is reached. A position that
was cut off shows other bytes. -/
theorem Shows.advance (shows' : Shows l s) {n next : Nat} (inside : n ≤ l.length)
    (cut : next ≤ s.nReadPos + n) :
    Shows (l.drop n) (if next ≥ s.vch.length then ⟨[], 0⟩ else ⟨s.vch, next⟩) ↔
    next = s.nReadPos + n := by
  have size := shows'.length
  constructor
  · intro after
    have left := after.length
    rw [length_drop] at left
    split at left
    · rw [length_nil] at left
      omega
    · dsimp only at left
      omega
  · rintro rfl
    obtain ⟨old, same, pos⟩ := id shows'
    split
    · rw [drop_of_length_le (by omega)]
      exact ⟨[], rfl, rfl⟩
    · refine ⟨old ++ l.take n, ?_, ?_⟩
      · rw [same, append_assoc, take_append_drop]
      · rw [pos, length_append, length_take_of_le inside]

theorem Shows.read (shows' : Shows l s) (nSize : Nat) :
    Agree (s.read nSize) (Op.onBytes l (.read nSize)) ↔ (Op.read nSize).Fits s := by
  have size := shows'.length
  have cut := Nat.mod_le (s.nReadPos + nSize) (2 ^ 32)
  simp only [Op.onBytes, Op.Fits, Advances, CBaseDataStream.read, shows'.unread]
  by_cases none : nSize = 0
  · rw [none, if_pos rfl, if_pos (Nat.zero_le _)]
    exact iff_of_true ⟨rfl, shows'⟩ (.inl rfl)
  rw [if_neg none]
  by_cases beyond : s.vch.length < (s.nReadPos + nSize) % 2 ^ 32
  · rw [if_pos beyond, if_neg (by omega)]
    exact iff_of_true rfl (.inr (.inr beyond))
  rw [if_neg beyond]
  by_cases enough : nSize ≤ l.length
  · rw [if_pos enough, if_neg (by omega)]
    refine (and_iff_right rfl).trans ((shows'.advance enough cut).trans ?_)
    omega
  · rw [if_neg enough, if_pos (by omega)]
    exact iff_of_false (by rintro ⟨⟩) (by omega)

theorem Shows.ignore (shows' : Shows l s) (nSize : Int) :
    Agree ((s.ignore nSize).map ([], ·)) (Op.onBytes l (.ignore nSize)) ↔
    (Op.ignore nSize).Fits s := by
  have size := shows'.length
  have cut := Nat.mod_le (s.nReadPos + nSize.toNat) (2 ^ 32)
  simp only [Op.onBytes, Op.Fits, Advances, CBaseDataStream.ignore]
  by_cases negative : nSize < 0
  · rw [if_pos negative, if_neg (by omega)]
    exact iff_of_true rfl (.inl negative)
  rw [if_neg negative]
  by_cases beyond : s.vch.length < (s.nReadPos + nSize.toNat) % 2 ^ 32
  · rw [if_pos beyond, if_neg (by omega)]
    exact iff_of_true rfl (.inr (.inr beyond))
  rw [if_neg beyond]
  by_cases enough : nSize ≤ l.length
  · rw [if_pos (⟨by omega, enough⟩ : 0 ≤ nSize ∧ _)]
    refine (and_iff_right rfl).trans ((shows'.advance (by omega) cut).trans ?_)
    omega
  · rw [if_neg (fun within : 0 ≤ nSize ∧ _ => enough within.2)]
    exact iff_of_false (fun agree => agree) (by omega)

theorem Shows.insert (shows' : Shows l s) {it : Nat} (there : it ≤ l.length) (range : Bytes) :
    Agree ((s.insert it range).map ([], ·)) (Op.onBytes l (.insert it range)) ↔
    (Op.insert it range).Fits s := by
  have size := shows'.length
  obtain ⟨old, same, pos⟩ := id shows'
  have cut := Nat.mod_le range.length (2 ^ 32)
  simp only [Op.onBytes, Op.Fits, CBaseDataStream.insert]
  by_cases none : range = []
  · rw [if_pos none, none, append_nil, take_append_drop]
    exact iff_of_true ⟨rfl, shows'⟩ fun _ _ => by decide
  rw [if_neg none]
  by_cases room : it = 0 ∧ range.length % 2 ^ 32 ≤ s.nReadPos
  · obtain ⟨rfl, room⟩ := room
    rw [if_pos ⟨rfl, room⟩]
    by_cases fits : range.length < 2 ^ 32
    · rw [Nat.mod_eq_of_lt fits] at room ⊢
      rw [Nat.sub_add_cancel room, if_neg (by omega)]
      refine iff_of_true ⟨rfl, old.take (s.nReadPos - range.length), ?_, ?_⟩ fun _ _ => fits
      · rw [same, take_append_of_le_length (by omega), pos, drop_left, append_assoc]
        rfl
      · rw [length_take_of_le (by omega)]
    · refine iff_of_false ?_ fun all => fits (all rfl room)
      split
      · exact fun agree => agree
      · rintro ⟨-, after⟩
        have left := after.length
        simp only [length_append, length_take, length_drop] at left
        omega
  · rw [if_neg room, pos, same, take_length_add_append, drop_length_add_append]
    exact iff_of_true ⟨rfl, old, by simp, rfl⟩ fun front short => absurd ⟨front, pos ▸ short⟩ room

theorem Shows.erase (shows' : Shows l s) {first last : Nat} (order : first ≤ last)
    (there : last ≤ l.length) :
    Shows (l.take first ++ l.drop last) (s.erase first last) ↔ (Op.erase first last).Fits s := by
  have size := shows'.length
  have cut := Nat.mod_le (s.nReadPos + last) (2 ^ 32)
  obtain ⟨old, same, pos⟩ := id shows'
  simp only [Op.Fits, CBaseDataStream.erase, shows'.unread]
  by_cases front : first = 0
  · rw [if_pos front, front, take_zero, nil_append, forall_prop_of_true rfl]
    by_cases whole : last = l.length
    · rw [if_pos (by omega), drop_of_length_le (by omega)]
      exact iff_of_true ⟨[], rfl, rfl⟩ (.inl whole)
    · rw [if_neg (by omega)]
      have next := shows'.advance there cut
      rw [if_neg (by omega)] at next
      rw [next]
      omega
  · rw [if_neg front, pos, same, take_length_add_append, drop_length_add_append]
    exact iff_of_true ⟨old, by simp, rfl⟩ fun zero => absurd zero front

theorem Shows.shiftLeft (shows' : Shows l s) (b : CBaseDataStream) :
    Shows (l ++ b.unread) (s.shiftLeft b) ↔ (Op.shiftLeft b).Fits s := by
  have size := shows'.length
  have rest : b.unread.length = b.vch.length - b.nReadPos := length_drop
  simp only [Op.Fits, CBaseDataStream.shiftLeft]
  by_cases empty : b.vch = []
  · rw [if_pos empty, CBaseDataStream.unread, empty, drop_nil, append_nil]
    exact iff_of_true shows' (.inr rfl)
  rw [if_neg empty, or_iff_left empty]
  constructor
  · intro after
    have left := after.length
    have some := length_pos_of_ne_nil empty
    simp only [CBaseDataStream.write, length_append] at left
    omega
  · intro unread
    rw [CBaseDataStream.unread, unread, drop_zero]
    exact shows'.write b.vch

theorem Shows.step (shows' : Shows l s) (op : Op) (valid : op.Valid s) :
    Agree (op.onStream s) (op.onBytes l) ↔ op.Fits s := by
  unfold Op.Valid at valid
  rw [shows'.unread] at valid
  cases op with
  | write bytes => exact iff_of_true ⟨rfl, shows'.write bytes⟩ trivial
  | append b => exact iff_of_true ⟨rfl, shows'.write b.unread⟩ trivial
  | shiftLeft b => exact (and_iff_right rfl).trans (shows'.shiftLeft b)
  | read nSize => exact shows'.read nSize
  | ignore nSize => exact shows'.ignore nSize
  | insert it range => exact shows'.insert valid range
  | erase first last => exact (and_iff_right rfl).trans (shows'.erase valid.1 valid.2)

/-- A call that throws leaves the stream as it was. -/
def Op.after (s : CBaseDataStream) (op : Op) : CBaseDataStream :=
  match op.onStream s with
  | .ok (_, s') => s'
  | .error _ => s

def Op.afterBytes (l : Bytes) (op : Op) : Bytes :=
  match op.onBytes l with
  | .ok (_, l') => l'
  | .error _ => l

/-- Calls one after another, on the stream and on the list. -/
inductive Run (start : CBaseDataStream) : CBaseDataStream → Bytes → Prop
  | start : Run start start start.unread
  | step {s : CBaseDataStream} {l : Bytes} (before : Run start s l) (op : Op) (valid : op.Valid s)
      (fits : op.Fits s) :
    Run start (op.after s) (op.afterBytes l)

theorem Run.shows {start : CBaseDataStream} (inside : start.nReadPos ≤ start.vch.length)
    (run : Run start s l) : Shows l s := by
  induction run with
  | start =>
    exact ⟨start.vch.take start.nReadPos, (take_append_drop _ _).symm,
      (length_take_of_le inside).symm⟩
  | @step s l _ op valid fits ih =>
    have agree := (ih.step op valid).mpr fits
    unfold Op.after Op.afterBytes
    revert agree
    cases op.onStream s <;> cases op.onBytes l <;> intro agree
    · exact ih
    · exact agree.elim
    · exact agree.elim
    · exact agree.2

/-- **A stream is a queue of bytes** over every run of its operations, and a call does what the list
does if and only if it meets the condition. -/
theorem stream_is_queue {start : CBaseDataStream} (inside : start.nReadPos ≤ start.vch.length)
    (run : Run start s l) :
    s.unread = l ∧ ∀ op : Op, op.Valid s → (Agree (op.onStream s) (op.onBytes l) ↔ op.Fits s) :=
  ⟨(run.shows inside).unread, (run.shows inside).step⟩

theorem stream_is_queue_front :
    ((Op.insert 0 [9]).after ((Op.read 1).after ⟨[1, 2, 3], 0⟩)).unread = [9, 2, 3] := by
  have one : Run ⟨[1, 2, 3], 0⟩ _ _ :=
    .step .start (.read 1) trivial (.inr (.inl (by decide : 0 + 1 < 2 ^ 32)))
  exact (stream_is_queue (Nat.zero_le _)
    (one.step (.insert 0 [9]) (Nat.zero_le _) fun _ _ => by decide)).1

/-- `<<` writes the bytes that were read too, and the size of `2 ^ 32` bytes is taken for none. -/
theorem shiftLeft_rereads :
    ∃ b, read ⟨[1, 2], 0⟩ 1 = .ok ([1], b) ∧ (append ⟨[], 0⟩ b).unread = [2] ∧
    (shiftLeft ⟨[], 0⟩ b).unread = [1, 2] ∧ read ⟨[7], 0⟩ (2 ^ 32) = .error .undefined :=
  ⟨⟨[1, 2], 1⟩, rfl, rfl, rfl, rfl⟩

end Zcashd.Guarantees.ByteQueue
