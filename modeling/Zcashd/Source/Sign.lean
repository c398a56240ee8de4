import Zcashd.Source.Interpreter

/-!
Scripts that push a list of byte vectors (`PushAll` in `src/script/sign.cpp:118-131`, `EncodeOP_N`
and `operator<<` in `src/script/script.h`), and what the interpreter makes of them: one operation
for each vector, read back as it was written.
-/
namespace Zcashd.Source.Script

open UInt8 List

def encodeOpN (n : UInt8) : UInt8 := if n = 0 then OP_0 else OP_1 + n - 1

/-- `CScript::operator<<` for a byte vector: what it adds to the script. -/
def pushData (b : valtype) : CScript :=
  if b.length < OP_PUSHDATA1.toNat then UInt8.ofNat b.length :: b
  else if b.length ≤ 0xff then OP_PUSHDATA1 :: UInt8.ofNat b.length :: b
  else if b.length ≤ 0xffff then OP_PUSHDATA2 :: writeData 2 b.length ++ b
  else OP_PUSHDATA4 :: writeData 4 b.length ++ b

/-- One vector in `PushAll`. -/
def pushOne (v : valtype) : CScript :=
  if v.length = 0 then [OP_0]
  else if v.length = 1 ∧ v.getD 0 0 ≥ 1 ∧ v.getD 0 0 ≤ 16 then [encodeOpN (v.getD 0 0)]
  else pushData v

def pushAll (values : List valtype) : CScript :=
  values.foldl (fun result v => result ++ pushOne v) []

section

variable {pc rest : CScript} {opcode : UInt8} {data : valtype}

theorem getOp_plain (noPush : OP_PUSHDATA4 < opcode) :
    getOp (opcode :: rest) = some (opcode, [], rest) := by
  have above : 0x4e < opcode.toNat := lt_iff_toNat_lt.mp noPush
  have other : ∀ op : UInt8, op.toNat ≤ 0x4e → opcode ≠ op := by
    rintro _ low rfl
    omega
  have least : ¬ opcode < OP_PUSHDATA1 := fun less => by
    have : opcode.toNat < 0x4c := lt_iff_toNat_lt.mp less
    omega
  simp [getOp, if_neg least, if_neg (other OP_PUSHDATA1 (by decide)),
    if_neg (other OP_PUSHDATA2 (by decide)), if_neg (other OP_PUSHDATA4 (by decide))]

/-- The opcode of a direct push. -/
theorem direct_opcode {v : valtype} (direct : v.length < OP_PUSHDATA1.toNat) :
    (ofNat v.length).toNat = v.length ∧ ofNat v.length < OP_PUSHDATA1 := by
  have size : (ofNat v.length).toNat = v.length := toNat_ofNat_of_lt (direct.trans (by decide))
  exact ⟨size, lt_iff_toNat_lt.mpr (by rwa [size])⟩

theorem immediate_append (opcode : UInt8) (v rest : valtype) :
    immediate opcode v.length (v ++ rest) = some (opcode, v, rest) := by
  simp [immediate]

/-- A vector that `operator<<` writes is read back with the opcode for its length. -/
theorem getOp_pushData {v : valtype} (short : v.length ≤ 0xffff) (rest : CScript) :
    getOp (pushData v ++ rest) = some (if v.length < OP_PUSHDATA1.toNat then ofNat v.length
      else if v.length ≤ 0xff then OP_PUSHDATA1 else OP_PUSHDATA2, v, rest) := by
  by_cases direct : v.length < OP_PUSHDATA1.toNat
  · obtain ⟨size, least⟩ := direct_opcode direct
    simp only [pushData, if_pos direct, cons_append, getOp, if_pos least, size, immediate_append]
  by_cases byte : v.length ≤ 0xff
  · have size : littleEndian [ofNat v.length] = v.length := by
      simp only [littleEndian, foldr_cons, foldr_nil, toNat_ofNat']
      omega
    simp only [pushData, if_neg direct, if_pos byte]
    simp [getOp, sized, size, immediate_append, OP_PUSHDATA1]
  · have size : littleEndian (writeData 2 v.length) = v.length := by
      simp only [littleEndian, writeData, foldr_cons, foldr_nil, toNat_ofNat']
      omega
    simp only [writeData] at size
    simp only [pushData, if_neg direct, if_neg byte, if_pos short, writeData]
    simp [getOp, sized, size, immediate_append, OP_PUSHDATA1, OP_PUSHDATA2]

theorem operationsLoop_getOp (fuel : Nat) (read : getOp pc = some (opcode, data, rest)) :
    operationsLoop (fuel + 1) pc = some (opcode, data) :: operationsLoop fuel rest := by
  cases pc with
  | nil => cases read
  | cons op tail => simp [operationsLoop, read]

end

section

variable {crypto : Crypto} {flags : Flags} {checker : BaseSignatureChecker}
  {consensusBranchId : UInt32} {script : CScript}
  {opcode : UInt8} {data v : valtype} {s : EvalState}

theorem low_opcode (low : opcode ≤ OP_16) :
    isDisabled opcode = false ∧ countOp opcode s = .ok s := by
  have all : ∀ n < 256, UInt8.ofNat n ≤ OP_16 → isDisabled (UInt8.ofNat n) = false := by
    decide +kernel
  have here := all opcode.toNat opcode.toNat_lt
  rw [UInt8.ofNat_toNat] at here
  exact ⟨here low, if_neg (by simpa using low)⟩

/-- Outside of conditionals a push is made if it is minimal or need not be. -/
theorem step_push (push : opcode ≤ OP_PUSHDATA4) (short : data.length ≤ MAX_SCRIPT_ELEMENT_SIZE)
    (executes : s.vfExec = []) (room : s.stack.length + s.altstack.length < 1000) :
    step crypto flags checker consensusBranchId script opcode data s =
      if has flags SCRIPT_VERIFY_MINIMALDATA && !checkMinimalPush data opcode then
        .error .MINIMALDATA
      else .ok { s with stack := data :: s.stack } := by
  obtain ⟨enabled, counted⟩ := low_opcode (s := s) (UInt8.le_trans push (by decide))
  unfold step
  rw [if_neg (by omega), counted]
  simp only [executes, enabled, push, pushValue, bind, Except.bind, contains_nil, Bool.not_false,
    and_self, if_true, Bool.false_eq_true, if_false]
  by_cases refused : (has flags SCRIPT_VERIFY_MINIMALDATA && !checkMinimalPush data opcode) = true
  · simp only [if_pos refused]
  · simp only [if_neg refused]
    exact if_neg (by simp only [length_cons]; omega)

theorem instruction_number (low : OP_1 ≤ opcode) (high : opcode ≤ OP_16) :
    instruction crypto opcode = some (.pushNumber ((opcode.toNat : Int) - (OP_1.toNat - 1))) :=
  if_pos (.inr ⟨low, high⟩)

/-- The opcodes of the numbers from 1 to 16. -/
theorem encodeOpN_spec {n : UInt8} (low : 1 ≤ n) (high : n ≤ 16) :
    OP_PUSHDATA4 < encodeOpN n ∧ OP_1 ≤ encodeOpN n ∧
    encodeOpN n ≤ OP_16 ∧ serialize ((encodeOpN n).toNat - (OP_1.toNat - 1)) = [n] := by
  have all : ∀ n < 17, 1 ≤ n → let op := encodeOpN (UInt8.ofNat n)
      OP_PUSHDATA4 < op ∧ OP_1 ≤ op ∧ op ≤ OP_16 ∧
        serialize (op.toNat - (OP_1.toNat - 1)) = [UInt8.ofNat n] := by
    decide +kernel
  have here := all n.toNat (Nat.lt_succ_of_le (UInt8.le_iff_toNat_le.mp high))
    (UInt8.le_iff_toNat_le.mp low)
  rwa [UInt8.ofNat_toNat] at here

theorem step_number {n : UInt8} (low : 1 ≤ n) (high : n ≤ 16) (executes : s.vfExec = [])
    (room : s.stack.length + s.altstack.length < 1000) :
    step crypto flags checker consensusBranchId script (encodeOpN n) [] s =
      .ok { s with stack := [n] :: s.stack } := by
  obtain ⟨noPush, above, below, number⟩ := encodeOpN_spec low high
  obtain ⟨enabled, counted⟩ := low_opcode (s := s) below
  unfold step
  rw [if_neg (by simp), counted]
  simp only [executes, enabled, UInt8.not_le.mpr noPush, executeOpcode,
    instruction_number above below, execute, number, bind, Except.bind,
    contains_nil, Bool.not_false, and_false, true_or, if_true, Bool.false_eq_true, if_false]
  exact if_neg (by simp only [length_cons]; omega)

/-- What the operation for a vector does under the rule of minimal pushes. -/
def Pushes (crypto : Crypto) (flags : Flags) (checker : BaseSignatureChecker)
    (consensusBranchId : UInt32) (script : CScript) (opcode : UInt8) (data v : valtype) :
    Prop :=
  opcode ≤ OP_16 ∧ ∀ s : EvalState, s.vfExec = [] → s.stack.length + s.altstack.length < 1000 →
    step crypto flags checker consensusBranchId script opcode data s =
      if v = [0x81] then .error .MINIMALDATA else .ok { s with stack := v :: s.stack }

variable (minimal : has flags SCRIPT_VERIFY_MINIMALDATA = true)
  (short : v.length ≤ MAX_SCRIPT_ELEMENT_SIZE)
include minimal short

theorem pushes_data (push : opcode ≤ OP_PUSHDATA4)
    (isMinimal : checkMinimalPush v opcode = !decide (v = [0x81])) :
    Pushes crypto flags checker consensusBranchId script opcode v v := by
  refine ⟨UInt8.le_trans push (by decide), fun s executes room => ?_⟩
  rw [step_push push short executes room, minimal, isMinimal]
  simp

/-- Each vector is one operation, and it is pushed unless it is the number -1: `PushAll` has no
`OP_1NEGATE`. -/
theorem getOp_pushOne (rest : CScript) :
    ∃ opcode data, getOp (pushOne v ++ rest) = some (opcode, data, rest) ∧
    Pushes crypto flags checker consensusBranchId script opcode data v := by
  by_cases empty : v.length = 0
  · obtain rfl := length_eq_zero_iff.mp empty
    exact ⟨OP_0, [], by simp [pushOne, getOp, immediate, OP_0, OP_PUSHDATA1],
      pushes_data minimal short (by decide) (by decide)⟩
  by_cases number : v.length = 1 ∧ v.getD 0 0 ≥ 1 ∧ v.getD 0 0 ≤ 16
  · obtain ⟨n, rfl⟩ := length_eq_one_iff.mp number.1
    have low : 1 ≤ n := number.2.1
    have high : n ≤ 16 := number.2.2
    obtain ⟨noPush, -, below, -⟩ := encodeOpN_spec low high
    rw [pushOne, if_neg empty, if_pos number]
    refine ⟨_, _, getOp_plain noPush, below, fun s executes room => ?_⟩
    have pos : [n] ≠ [0x81] := fun same => absurd high (by rw [singleton_inj.mp same]; decide)
    exact (step_number low high executes room).trans (if_neg pos).symm
  rw [pushOne, if_neg empty, if_neg number]
  refine ⟨_, _, getOp_pushData (Nat.le_trans short (by decide)) rest,
    pushes_data minimal short ?_ ?_⟩
  · split
    · rename_i direct
      exact UInt8.le_of_lt (UInt8.lt_trans (direct_opcode direct).2 (by decide))
    · split <;> decide
  · rw [checkMinimalPush, if_neg empty, if_neg number]
    by_cases negative : v.length = 1 ∧ v.getD 0 0 = 0x81
    · obtain ⟨n, rfl⟩ := length_eq_one_iff.mp negative.1
      obtain rfl : n = 0x81 := negative.2
      decide
    have other : v ≠ [0x81] := by
      rintro rfl
      exact negative ⟨rfl, rfl⟩
    rw [if_neg negative, decide_eq_false other]
    by_cases direct : v.length < OP_PUSHDATA1.toNat
    · rw [if_pos (Nat.le_of_lt_succ direct), if_pos direct, (direct_opcode direct).1]
      simp
    · rw [if_neg (fun less => direct (Nat.lt_succ_of_le less)), if_neg direct]
      by_cases byte : v.length ≤ 0xff
      · simp [byte]
      · simp [byte, Nat.le_trans short (by decide : 520 ≤ 65535)]

end

end Zcashd.Source.Script
