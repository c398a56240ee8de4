import Zcashd.Source.Interpreter

/-!
The loop of `OP_CHECKMULTISIG` as it stands in the source (`src/script/interpreter.cpp:883-912`),
with places in the stack instead of lists of keys and signatures, and the calls of `CheckSig` it
makes.
-/
namespace Zcashd.Source.Script

/-- `stacktop(-i)`; `none` is the exception of `at`. -/
def stacktop (stack : List valtype) (i : Nat) : Option valtype := stack[i - 1]?

variable (crypto : Crypto) (flags : Flags) (checker : BaseSignatureChecker)
  (consensusBranchId : UInt32) (script : CScript)

/-- The result with the places of the signatures and keys that `CheckSig` was called for. `none` is
a read outside of the stack, or of more keys than there are. -/
def multiSigLoop (stack : List valtype) (isig ikey : Nat) :
    (nKeysCount nSigsCount : Nat) → Option (Result Bool × List (Nat × Nat))
  | _, 0 => some (.ok true, [])
  | 0, _ + 1 => none
  | nKeysCount + 1, nSigsCount + 1 => do
    let vchSig ← stacktop stack isig
    let vchPubKey ← stacktop stack ikey
    match checkSignatureEncoding crypto flags vchSig >>= fun _ =>
      checkPubKeyEncoding flags vchPubKey with
    | .error serror => some (.error serror, [])
    | .ok _ =>
      let fOk := checker.checkSig vchSig vchPubKey script consensusBranchId
      let left := if fOk then nSigsCount else nSigsCount + 1
      if left > nKeysCount then some (.ok false, [(isig, ikey)])
      else do
        let (result, calls) ← multiSigLoop stack (if fOk then isig + 1 else isig)
            (ikey + 1) nKeysCount left
        some (result, (isig, ikey) :: calls)

variable {crypto flags checker consensusBranchId script} {stack keys sigs : List valtype}
  {isig ikey : Nat}

/-- The loop stays inside the keys and signatures and computes what it does on the lists of them. -/
theorem multiSigLoop_eq (inKeys : ∀ j < keys.length, stacktop stack (ikey + j) = keys[j]?)
    (inSigs : ∀ j < sigs.length, stacktop stack (isig + j) = sigs[j]?)
    (fits : sigs.length ≤ keys.length) :
    ∃ calls, multiSigLoop crypto flags checker consensusBranchId script stack isig ikey keys.length
      sigs.length =
        some (checkMultiSigLoop crypto flags checker consensusBranchId script keys sigs, calls) ∧
      ∀ call ∈ calls, (isig ≤ call.1 ∧ call.1 < isig + sigs.length) ∧
        ikey ≤ call.2 ∧ call.2 < ikey + keys.length := by
  induction keys generalizing sigs isig ikey with
  | nil =>
    obtain rfl := List.length_eq_zero_iff.mp (Nat.le_zero.mp fits)
    exact ⟨[], by simp [multiSigLoop, checkMultiSigLoop], by simp⟩
  | cons vchPubKey keys ih =>
    cases sigs with
    | nil => exact ⟨[], by simp [multiSigLoop, checkMultiSigLoop], by simp⟩
    | cons vchSig sigs =>
      have key : stacktop stack ikey = some vchPubKey := inKeys 0 (by simp)
      have sig : stacktop stack isig = some vchSig := inSigs 0 (by simp)
      have keysLeft : ∀ j < keys.length, stacktop stack (ikey + 1 + j) = keys[j]? := by
        intro j inside
        rw [Nat.add_assoc, Nat.add_comm 1]
        exact inKeys (j + 1) (by simpa using inside)
      have sigsLeft : ∀ j < sigs.length, stacktop stack (isig + 1 + j) = sigs[j]? := by
        intro j inside
        rw [Nat.add_assoc, Nat.add_comm 1]
        exact inSigs (j + 1) (by simpa using inside)
      rw [List.length_cons, List.length_cons] at fits
      simp only [List.length_cons, multiSigLoop, checkMultiSigLoop, key, sig, bind, Option.bind,
        Except.bind]
      cases checkSignatureEncoding crypto flags vchSig with
      | error _ => exact ⟨[], by simp⟩
      | ok _ =>
        cases checkPubKeyEncoding flags vchPubKey with
        | error _ => exact ⟨[], by simp⟩
        | ok _ =>
          cases checker.checkSig vchSig vchPubKey script consensusBranchId with
          | true =>
            obtain ⟨calls, ran, _⟩ := ih keysLeft sigsLeft (by omega)
            refine ⟨(isig, ikey) :: calls, ?_, ?_⟩
            · simp [ran, Nat.not_lt.mpr (Nat.le_of_succ_le_succ fits)]
            · grind
          | false =>
            by_cases tooFew : sigs.length + 1 > keys.length
            · exact ⟨[(isig, ikey)], by simp [tooFew], by simp⟩
            · obtain ⟨calls, ran, _⟩ := ih keysLeft inSigs (by simpa using tooFew)
              rw [List.length_cons] at ran
              refine ⟨(isig, ikey) :: calls, ?_, ?_⟩
              · simp [tooFew, ran]
              · grind

end Zcashd.Source.Script
