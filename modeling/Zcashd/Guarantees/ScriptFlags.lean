import Zcashd.Lib.OptionLoops
import Zcashd.Lib.Restriction
import Zcashd.Source.Interpreter

/-!
# Verification flags only restrict

The flags of `VerifyScript` are tested at many points of the interpreter. Whatever a run with more
flags returns at one of these points, the run with fewer flags returns too, and everything between
the points is the same computation. So a script that is accepted under a set of flags is accepted
under each smaller set. `CHECKLOCKTIMEVERIFY` is the one flag that can also take a failure away: it
gives a meaning to an opcode that is discouraged without it.
-/
namespace Zcashd.Guarantees.ScriptFlags

open Lib Source Script

/-- Every flag of `flags` is one of `more`. -/
def Subset (flags more : Flags) : Prop := flags &&& more = flags

theorem Subset.has {flags more flag : Flags} (subset : Subset flags more)
    (isSet : has flags flag = true) :
    has more flag = true := by
  simp only [Script.has, bne_iff_ne, ne_eq] at isSet ⊢
  intro clear
  apply isSet
  rw [← subset, UInt32.and_assoc, clear, UInt32.and_zero]

/-- What the smaller set has to be like: `CHECKLOCKTIMEVERIFY` is not added to a set that
discourages its opcode. -/
structure Fewer (flags more : Flags) : Prop where
  subset : Subset flags more
  lockTime : has flags SCRIPT_VERIFY_DISCOURAGE_UPGRADABLE_NOPS = true →
    has more SCRIPT_VERIFY_CHECKLOCKTIMEVERIFY = true →
      has flags SCRIPT_VERIFY_CHECKLOCKTIMEVERIFY = true

variable {crypto : Crypto} {flags more : Flags} {checker : BaseSignatureChecker}
  {consensusBranchId : UInt32}
  {script : CScript}

theorem flag_check {ε α : Type} {flag : Flags} {bad : Bool} {e : ε} {a b : Except ε α}
    (fewer : Fewer flags more) (rest : Restricts a b) :
    Restricts (if has more flag && bad then .error e else a)
      (if has flags flag && bad then .error e else b) := by
  apply Restricts.check ?_ rest
  simp only [Bool.and_eq_true]
  exact fun both => ⟨fewer.subset.has both.1, both.2⟩

section

variable (fewer : Fewer flags more)
include fewer

theorem checkSignatureEncoding_restricts (vchSig : valtype) :
    Restricts (checkSignatureEncoding crypto more vchSig)
      (checkSignatureEncoding crypto flags vchSig) := by
  unfold checkSignatureEncoding
  apply Restricts.ite (fun _ => .refl _) (fun _ => ?_)
  apply Restricts.ite (fun _ => .refl _) (fun _ => ?_)
  apply Restricts.bind
  · unfold checkLowDERSignature
    by_cases low : has flags SCRIPT_VERIFY_LOW_S = true
    · rw [if_pos low, if_pos (fewer.subset.has low)]
    · rw [if_neg low]
      intro x _
      rfl
  · intro _
    exact flag_check fewer (.refl _)

theorem checkPubKeyEncoding_restricts (vchPubKey : valtype) :
    Restricts (checkPubKeyEncoding more vchPubKey) (checkPubKeyEncoding flags vchPubKey) :=
  flag_check fewer (.refl _)

theorem readNum_restricts (vch : valtype) (nMaxNumSize : Nat) :
    Restricts (readNum more vch nMaxNumSize) (readNum flags vch nMaxNumSize) := by
  intro bn read
  unfold readNum at read ⊢
  have number : scriptNum vch (has more SCRIPT_VERIFY_MINIMALDATA) nMaxNumSize = some bn := by
    split at read
    · cases read
    · cases read
      assumption
  have same : scriptNum vch (has flags SCRIPT_VERIFY_MINIMALDATA) nMaxNumSize = some bn := by
    unfold scriptNum at number ⊢
    split at number
    · cases number
    · rename_i short
      split at number
      · cases number
      · rename_i minimal
        rw [if_neg short, if_neg ?_]
        · exact number
        · simp only [Bool.and_eq_true] at minimal ⊢
          exact fun both => minimal ⟨fewer.subset.has both.1, both.2⟩
  rw [same]

end

section

variable (fewer : Fewer flags more)
include fewer

variable (s : EvalState)

theorem checkLockTimeVerify_restricts :
    Restricts (checkLockTimeVerify more checker s) (checkLockTimeVerify flags checker s) := by
  unfold checkLockTimeVerify
  by_cases enabled : has flags SCRIPT_VERIFY_CHECKLOCKTIMEVERIFY = true
  · -- The opcode has its meaning under both sets.
    rw [enabled, fewer.subset.has enabled]
    simp only [Bool.not_true, Bool.false_eq_true, if_false]
    cases s.stack with
    | nil => exact .refl _
    | cons top _ => exact .bind (readNum_restricts fewer top 5) (fun _ => .refl _)
  · -- Under the smaller set it is a NOP, which the larger set does not turn into a change of state.
    rw [Bool.not_eq_true] at enabled
    rw [enabled]
    simp only [Bool.not_false, if_true]
    intro _ done
    split at done
    · split at done
      · cases done
      · rename_i off discouraged
        rw [if_neg (fun nops => discouraged (fewer.subset.has nops))]
        exact done
    · rename_i on
      have notDiscouraged : ¬ has flags SCRIPT_VERIFY_DISCOURAGE_UPGRADABLE_NOPS = true := by
        intro nops
        have := fewer.lockTime nops (by simpa using on)
        rw [enabled] at this
        cases this
      rw [if_neg notDiscouraged]
      split at done
      · cases done
      · obtain ⟨_, -, done⟩ := except_bind_ok.mp done
        split at done
        · cases done
        · split at done
          · cases done
          · exact done

theorem pick_restricts (roll : Bool) (s : EvalState) :
    Restricts (pick more roll s) (pick flags roll s) := by
  unfold pick
  match s.stack with
  | [] => exact .refl _
  | [_] => exact .refl _
  | top :: _ :: _ => exact .bind (readNum_restricts fewer top _) (fun _ => .refl _)

theorem unary_restricts (f : Int → Int) (s : EvalState) :
    Restricts (unary more f s) (unary flags f s) := by
  unfold unary
  match s.stack with
  | [] => exact .refl _
  | top :: _ => exact .bind (readNum_restricts fewer top _) (fun _ => .refl _)

variable (verify : Bool)

theorem binary_restricts (f : Int → Int → Int) (s : EvalState) :
    Restricts (binary more verify f s) (binary flags verify f s) := by
  unfold binary
  match s.stack with
  | [] => exact .refl _
  | [_] => exact .refl _
  | top :: second :: _ =>
    apply Restricts.bind (readNum_restricts fewer second _)
    intro _
    exact .bind (readNum_restricts fewer top _) (fun _ => .refl _)

theorem within_restricts : Restricts (within more s) (within flags s) := by
  unfold within
  match s.stack with
  | [] => exact .refl _
  | [_] => exact .refl _
  | [_, _] => exact .refl _
  | top :: second :: third :: _ =>
    apply Restricts.bind (readNum_restricts fewer third _)
    intro _
    apply Restricts.bind (readNum_restricts fewer second _)
    intro _
    exact .bind (readNum_restricts fewer top _) (fun _ => .refl _)

theorem checkSig_restricts (s : EvalState) :
    Restricts (checkSig crypto more checker consensusBranchId script verify s)
      (checkSig crypto flags checker consensusBranchId script verify s) := by
  unfold checkSig
  match s.stack with
  | [] => exact .refl _
  | [_] => exact .refl _
  | vchPubKey :: vchSig :: _ =>
    apply Restricts.bind (checkSignatureEncoding_restricts fewer vchSig)
    intro _
    exact .bind (checkPubKeyEncoding_restricts fewer vchPubKey) (fun _ => .refl _)

/-- By induction over the keys; the same signatures are compared under both sets. -/
theorem checkMultiSigLoop_restricts (keys sigs : List valtype) :
    Restricts (checkMultiSigLoop crypto more checker consensusBranchId script keys sigs)
      (checkMultiSigLoop crypto flags checker consensusBranchId script keys sigs) := by
  induction keys generalizing sigs with
  | nil => cases sigs <;> exact .refl _
  | cons vchPubKey _ ih =>
    cases sigs with
    | nil => exact .refl _
    | cons vchSig _ =>
      unfold checkMultiSigLoop
      apply Restricts.bind (checkSignatureEncoding_restricts fewer vchSig)
      intro _
      apply Restricts.bind (checkPubKeyEncoding_restricts fewer vchPubKey)
      intro _
      exact .ite (fun _ => .refl _) (fun _ => ih _)

theorem finishMultiSig_restricts (verify fSuccess : Bool) (s : EvalState) (stack : List valtype) :
    Restricts (finishMultiSig more verify fSuccess s stack)
      (finishMultiSig flags verify fSuccess s stack) := by
  cases stack with
  | nil => exact .refl _
  | cons _ _ => exact flag_check fewer (.refl _)

theorem checkMultiSig_restricts (s : EvalState) :
    Restricts (checkMultiSig crypto more checker consensusBranchId script verify s)
      (checkMultiSig crypto flags checker consensusBranchId script verify s) := by
  have sigs : ∀ keys s stack,
      Restricts (checkMultiSigSigs crypto more checker consensusBranchId script verify keys s stack)
      (checkMultiSigSigs crypto flags checker consensusBranchId script verify keys s stack) := by
    intro _ s stack
    cases stack with
    | nil => exact .refl _
    | cons top _ =>
      apply Restricts.bind (readNum_restricts fewer top _)
      intro _
      apply Restricts.ite (fun _ => .refl _) (fun _ => ?_)
      apply Restricts.ite (fun _ => .refl _) (fun _ => ?_)
      apply Restricts.bind (checkMultiSigLoop_restricts fewer _ _)
      intro fSuccess
      exact finishMultiSig_restricts fewer verify fSuccess s _
  unfold checkMultiSig
  match s.stack with
  | [] => exact .refl _
  | top :: _ =>
    apply Restricts.bind (readNum_restricts fewer top _)
    intro _
    apply Restricts.ite (fun _ => .refl _) (fun _ => ?_)
    apply Restricts.ite (fun _ => .refl _) (fun _ => ?_)
    exact .ite (fun _ => .refl _) (fun _ => sigs _ _ _)

theorem execute_restricts (fExec : Bool) (s : EvalState) (i : Instruction) :
    Restricts (execute crypto more checker consensusBranchId script fExec s i)
      (execute crypto flags checker consensusBranchId script fExec s i) := by
  cases i with
  | checkLockTimeVerify => exact checkLockTimeVerify_restricts fewer s
  | upgradableNop => exact .check fewer.subset.has (.refl _)
  | pick roll => exact pick_restricts fewer roll s
  | unary f => exact unary_restricts fewer f s
  | binary verify f => exact binary_restricts fewer verify f s
  | within => exact within_restricts fewer s
  | checkSig verify => exact checkSig_restricts fewer verify s
  | checkMultiSig verify => exact checkMultiSig_restricts fewer verify s
  | _ => exact .refl _

end

section

variable (fewer : Fewer flags more)
include fewer

/-- One iteration of `EvalScript`. -/
theorem step_restricts (opcode : UInt8) (vchPushValue : valtype) (s : EvalState) :
    Restricts (step crypto more checker consensusBranchId script opcode vchPushValue s)
      (step crypto flags checker consensusBranchId script opcode vchPushValue s) := by
  unfold step
  apply Restricts.ite (fun _ => .refl _) (fun _ => ?_)
  apply Restricts.bind (.refl _)
  intro counted
  apply Restricts.ite (fun _ => .refl _) (fun _ => ?_)
  apply Restricts.ite (fun _ => ?_) (fun _ => ?_)
  · exact .bind (flag_check fewer (.refl _)) (fun _ => .refl _)
  · apply Restricts.ite (fun _ => ?_) (fun _ => .refl _)
    apply Restricts.bind ?_ (fun _ => .refl _)
    unfold executeOpcode
    cases instruction crypto opcode with
    | none => exact .refl _
    | some i => exact execute_restricts fewer _ counted i

/-- The whole loop, over the operations of the script. -/
theorem loop_restricts (ops : List (Option (UInt8 × valtype))) (s : EvalState) :
    Restricts (loop crypto more checker consensusBranchId script ops s)
      (loop crypto flags checker consensusBranchId script ops s) := by
  induction ops generalizing s with
  | nil => exact .refl _
  | cons op _ ih =>
    cases op with
    | none => exact .refl _
    | some op => exact .bind (step_restricts fewer op.1 op.2 s) ih

theorem evaluate_restricts (script : CScript) (stack : List valtype) :
    Restricts (evaluate crypto more checker consensusBranchId script stack)
      (evaluate crypto flags checker consensusBranchId script stack) := by
  have ran : Restricts (evalScript crypto more checker consensusBranchId script stack)
      (evalScript crypto flags checker consensusBranchId script stack) := by
    unfold evalScript
    apply Restricts.ite (fun _ => .refl _) (fun _ => ?_)
    exact .bind (loop_restricts fewer _ _) (fun _ => .refl _)
  intro _ done
  unfold evaluate at done ⊢
  cases left : evalScript crypto more checker consensusBranchId script stack with
  | error e =>
    rw [left] at done
    cases done
  | ok _ =>
    rw [left] at done
    rw [ran _ left]
    exact done

theorem evaluateSubscript_restricts (scriptSig : CScript) (stack : List valtype) :
    Restricts (evaluateSubscript crypto more checker consensusBranchId scriptSig stack)
      (evaluateSubscript crypto flags checker consensusBranchId scriptSig stack) := by
  unfold evaluateSubscript
  apply Restricts.ite (fun _ => .refl _) (fun _ => ?_)
  cases stack with
  | nil => exact .refl _
  | cons _ _ => exact .bind (evaluate_restricts fewer _ _) (fun _ => .refl _)

end

/-- Without the flag there is no check of the stack. -/
theorem checkCleanStack_off {stack : List valtype}
    (off : has flags SCRIPT_VERIFY_CLEANSTACK = false) :
    checkCleanStack flags stack = .ok () := by
  rw [checkCleanStack, off]
  rfl

theorem checkCleanStack_restricts (fewer : Fewer flags more)
    (clean : has flags SCRIPT_VERIFY_CLEANSTACK = true → has flags SCRIPT_VERIFY_P2SH = true)
    (stack : List valtype) :
    Restricts (checkCleanStack more stack) (checkCleanStack flags stack) := by
  cases on : has flags SCRIPT_VERIFY_CLEANSTACK with
  | false =>
    rw [checkCleanStack_off on]
    intro _ _
    rfl
  | true =>
    have p2sh := clean on
    simp only [checkCleanStack, on, p2sh, fewer.subset.has on, fewer.subset.has p2sh]
    exact .refl _

/-- A script that is accepted under a set of flags is accepted under each smaller set, as long as
`CLEANSTACK` comes with `P2SH` there and `CHECKLOCKTIMEVERIFY` was not added to a set with
`DISCOURAGE_UPGRADABLE_NOPS`. -/
theorem verifyScript_accepts_under_fewer_flags (crypto : Crypto) (checker : BaseSignatureChecker)
    (consensusBranchId : UInt32) (scriptSig scriptPubKey : CScript) (flags more : Flags)
    (subset : flags &&& more = flags)
    (clean : has flags SCRIPT_VERIFY_CLEANSTACK = true → has flags SCRIPT_VERIFY_P2SH = true)
    (lockTime : has flags SCRIPT_VERIFY_DISCOURAGE_UPGRADABLE_NOPS = true →
      has flags SCRIPT_VERIFY_CHECKLOCKTIMEVERIFY = false →
      has more SCRIPT_VERIFY_CHECKLOCKTIMEVERIFY = false)
    (accepted : verifyScript crypto more checker consensusBranchId scriptSig
      scriptPubKey = .ok ()) :
    verifyScript crypto flags checker consensusBranchId scriptSig scriptPubKey = .ok () := by
  have fewer : Fewer flags more := by
    refine ⟨subset, fun nops enabled => ?_⟩
    by_contra off
    rw [lockTime nops (by simpa using off)] at enabled
    cases enabled
  revert accepted
  apply (?_ : Restricts _ _)
  unfold verifyScript
  apply flag_check fewer
  apply Restricts.bind (evaluate_restricts fewer _ _)
  intro _
  apply Restricts.bind (evaluate_restricts fewer _ _)
  intro stack
  apply Restricts.bind (.refl _)
  intro _
  cases p2sh : has flags SCRIPT_VERIFY_P2SH with
  | true =>
    rw [fewer.subset.has p2sh]
    apply Restricts.ite (fun _ => ?_) (fun _ => checkCleanStack_restricts fewer clean stack)
    apply Restricts.bind (evaluateSubscript_restricts fewer _ _)
    exact fun stack => checkCleanStack_restricts fewer clean stack
  | false =>
    -- Nothing is left to check: there is no clean stack without P2SH.
    have off : has flags SCRIPT_VERIFY_CLEANSTACK = false := by
      by_contra on
      rw [clean (by simpa using on)] at p2sh
      cases p2sh
    simp only [Bool.false_and, Bool.false_eq_true, if_false, checkCleanStack_off off]
    intro _ _
    rfl

/-- `1` against `1 EQUAL`, with all flags and with `P2SH` alone. -/
theorem verifyScript_accepts_under_fewer_flags_equal :
    ∃ (crypto : Crypto) (checker : BaseSignatureChecker),
      verifyScript crypto 0x3fb checker 0 [OP_1] [OP_1, Script.OP_EQUAL] = .ok () ∧
      verifyScript crypto SCRIPT_VERIFY_P2SH checker 0 [OP_1] [OP_1, Script.OP_EQUAL] = .ok () := by
  refine ⟨⟨id, id, id, id, id, fun _ => true⟩,
    ⟨fun _ _ _ _ => true, fun _ => true⟩, by decide +kernel, ?_⟩
  exact verifyScript_accepts_under_fewer_flags _ _ _ _ _ _ 0x3fb (by decide) (by decide) (by decide)
    (by decide +kernel)

end Zcashd.Guarantees.ScriptFlags
