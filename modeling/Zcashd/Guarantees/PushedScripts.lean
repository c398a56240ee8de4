import Zcashd.Source.Sign

/-!
# Scripts that push a stack

A script that the signer assembles from a stack gives back that stack, unless the number -1 is on
it: `PushAll` writes it as a push of one byte, where the rule of minimal pushes asks for
`OP_1NEGATE`. The evaluation is `EvalScript` from an empty stack, under any flags with that rule
among them.
-/
namespace Zcashd.Guarantees.PushedScripts

open Source Script List

variable {crypto : Crypto} {flags : Flags} {checker : BaseSignatureChecker}
  {consensusBranchId : UInt32} {script : CScript}
  {values : List valtype}

theorem pushAll_eq : pushAll values = values.flatMap pushOne := by
  have all : ∀ result, values.foldl (fun result v => result ++ pushOne v) result =
      result ++ values.flatMap pushOne := by
    induction values with
    | nil => simp
    | cons v _ ih =>
      intro _
      rw [foldl_cons, ih, flatMap_cons, append_assoc]
  exact all []

theorem length_le_pushAll (values : List valtype) : values.length ≤ (pushAll values).length := by
  rw [pushAll_eq]
  induction values with
  | nil => exact Nat.zero_le _
  | cons v _ _ =>
    have ne : 0 < (pushOne v).length := by
      unfold pushOne pushData
      split_ifs <;> simp
    rw [flatMap_cons, length_append, length_cons]
    omega

/-- The whole run, over the vectors that are still to be pushed. -/
theorem loop_pushes (minimal : has flags SCRIPT_VERIFY_MINIMALDATA = true)
    (short : ∀ v ∈ values, v.length ≤ MAX_SCRIPT_ELEMENT_SIZE) {s : EvalState}
    (executes : s.vfExec = []) (room : s.stack.length + s.altstack.length + values.length ≤ 1000)
    {fuel : Nat} (enough : values.length ≤ fuel) :
    (∀ op ∈ operationsLoop fuel (values.flatMap pushOne), ∃ opcode data, op = some (opcode, data) ∧
      opcode ≤ OP_16) ∧
      loop crypto flags checker consensusBranchId script
        (operationsLoop fuel (values.flatMap pushOne)) s =
        if [0x81] ∈ values then .error .MINIMALDATA
          else .ok { s with stack := values.reverse ++ s.stack } := by
  induction values generalizing s fuel with
  | nil => cases fuel <;> exact ⟨nofun, rfl⟩
  | cons v values ih =>
    rw [length_cons] at room enough
    obtain ⟨fuel, rfl⟩ : ∃ less, fuel = less + 1 := ⟨fuel - 1, by omega⟩
    have others : ∀ v ∈ values, v.length ≤ MAX_SCRIPT_ELEMENT_SIZE :=
      fun v mem => short v (.tail _ mem)
    obtain ⟨opcode, data, read, low, pushes⟩ :
        ∃ opcode data, getOp (pushOne v ++ values.flatMap pushOne) =
        some (opcode, data, values.flatMap pushOne) ∧
          Pushes crypto flags checker consensusBranchId script opcode data v :=
      getOp_pushOne minimal (short v (.head _)) _
    obtain ⟨pushOnly, ran⟩ := ih others (s := { s with stack := v :: s.stack }) executes
      (by simp only [length_cons]; omega) (Nat.le_of_succ_le_succ enough)
    rw [flatMap_cons, operationsLoop_getOp fuel read, loop, pushes s executes (by omega)]
    refine ⟨forall_mem_cons.mpr ⟨⟨opcode, data, rfl, low⟩, pushOnly⟩, ?_⟩
    by_cases negative : v = [0x81]
    · rw [if_pos negative, if_pos (by simp [negative])]
      rfl
    · rw [if_neg negative]
      refine Eq.trans ran ?_
      simp [Ne.symm negative]

/-- A script that pushes vectors leaves them on the stack, the last one on top, if and only if none
of them is the number -1. It is a push-only script in any case. -/
theorem pushAll_evaluates_iff (crypto : Crypto) (flags : Flags) (checker : BaseSignatureChecker)
    (consensusBranchId : UInt32) (values : List valtype) (few : values.length ≤ 1000)
    (short : ∀ v ∈ values, v.length ≤ MAX_SCRIPT_ELEMENT_SIZE)
    (size : (pushAll values).length ≤ MAX_SCRIPT_SIZE)
    (minimal : has flags SCRIPT_VERIFY_MINIMALDATA = true) :
    isPushOnly (pushAll values) = true ∧
      (evalScript crypto flags checker consensusBranchId (pushAll values) [] = .ok values.reverse ↔
        [0x81] ∉ values) := by
  obtain ⟨pushOnly, ran⟩ :=
    @loop_pushes crypto flags checker consensusBranchId (pushAll values) values minimal short
    ⟨[], [], [], 0⟩ rfl (by simpa using few) _ (length_le_pushAll values)
  rw [← pushAll_eq] at pushOnly ran
  refine ⟨all_eq_true.mpr ?_, ?_⟩
  · intro op member
    obtain ⟨_, _, rfl, low⟩ := pushOnly op member
    exact decide_eq_true low
  · rw [evalScript, if_neg (by omega), operations, ran]
    by_cases negative : [0x81] ∈ values
    · simp [negative, bind, Except.bind]
    · simp [negative, bind, Except.bind]

/-- An empty vector, a number and 80 bytes. -/
theorem pushAll_evaluates_three : ∃ (crypto : Crypto) (checker : BaseSignatureChecker),
    evalScript crypto SCRIPT_VERIFY_MINIMALDATA checker 0
      (pushAll [[], [16], List.replicate 80 7]) [] = .ok [List.replicate 80 7, [16], []] := by
  refine ⟨⟨id, id, id, id, id, fun _ => true⟩, ⟨fun _ _ _ _ => true, fun _ => true⟩, ?_⟩
  exact (pushAll_evaluates_iff _ _ _ _ [[], [16], List.replicate 80 7] (by decide)
    (by decide) (by decide)
    (by decide)).2.mpr (by decide)

/-- The stack with the number -1 alone: its script is refused. -/
theorem minus_one_refused : ∃ (crypto : Crypto) (checker : BaseSignatureChecker),
    evalScript crypto SCRIPT_VERIFY_MINIMALDATA checker 0 (pushAll [[0x81]]) [] =
      .error .MINIMALDATA :=
  ⟨⟨id, id, id, id, id, fun _ => true⟩, ⟨fun _ _ _ _ => true, fun _ => true⟩, rfl⟩

end Zcashd.Guarantees.PushedScripts
