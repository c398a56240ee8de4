import Zcashd.Abstract.SignedFields

/-!
# What a signature covers

`signature_hash_binds`: two transactions of the Overwinter or Sapling format with the same
signature hash agree on all that the hash type covers. With `SIGHASH_ALL` their serialised forms
are the same but for scripts and signatures. The cache of sub-hashes makes no difference.
-/
namespace Zcashd.Guarantees.SignatureHashes

open Lib Source Source.Wire

theorem signature_hash_binds (H : HashFunctions) (tx₁ tx₂ : CMutableTransaction)
    (overwintered₁ : tx₁.Overwintered) (overwintered₂ : tx₂.Overwintered) (scriptCode : CScript)
    (nIn : UInt32) (nHashType : Int32) (amount : Int64) (consensusBranchId : UInt32) :
    (∀ value calls₁ calls₂,
      (signatureHash H tx₁ scriptCode nIn nHashType amount consensusBranchId none).run [] =
        some (value, calls₁) →
      (signatureHash H tx₂ scriptCode nIn nHashType amount consensusBranchId none).run [] =
        some (value, calls₂) →
      Collisionless H (calls₁ ++ calls₂) →
      Agree nIn nHashType tx₁ tx₂ ∧
      (nHashType = SIGHASH_ALL → tx₁.unsigned.bytes = tx₂.unsigned.bytes)) ∧
    (∀ data calls, (precompute H tx₁).run [] = some (data, calls) →
      (signatureHash H tx₁ scriptCode nIn nHashType amount consensusBranchId (some data)).run' [] =
        (signatureHash H tx₁ scriptCode nIn nHashType amount consensusBranchId none).run' []) := by
  constructor
  · intro _ _ _ run₁ run₂ assumed
    obtain ⟨_, _, signed₁⟩ := signatureHash_signed overwintered₁ run₁
    obtain ⟨_, _, signed₂⟩ := signatureHash_signed overwintered₂ run₂
    have agree := signed₁.agree overwintered₁ overwintered₂ assumed signed₂
    refine ⟨agree, ?_⟩
    intro all
    subst all
    exact agree.unsigned_bytes
  · intro _ _ run
    exact signatureHash_cached run scriptCode nIn nHashType amount consensusBranchId [] []

/-- A Sapling transaction with one input, and a scriptSig for it. -/
def oneInput (scriptSig : CScript) : CMutableTransaction :=
  { CMutableTransaction.fresh with
    fOverwintered := true
    nVersion := SAPLING_TX_VERSION
    nVersionGroupId := SAPLING_VERSION_GROUP_ID
    vin := [⟨⟨7, 0⟩, scriptSig, 0xFFFFFFFF⟩]
    vout := [⟨5, [0x51]⟩] }

theorem oneInput_overwintered (scriptSig : CScript) : (oneInput scriptSig).Overwintered where
  format := Or.inr (by rfl)
  scripts := by simp [oneInput]

/-- A polynomial in the bytes, in place of both hashes. -/
def rollingHash (bytes : Bytes) : Uint256 :=
  bytes.foldl (fun sum byte => 257 * sum + BitVec.ofNat 256 byte.toNat + 1) 0

def rollingHashes : HashFunctions :=
  ⟨fun personalization bytes => rollingHash (personalization ++ bytes), rollingHash⟩

/-- The signature hash of the only input, and the calls of BLAKE2b that are made for it. -/
def oneInputHash (scriptSig : CScript) : Option (Uint256 × List (Bytes × Bytes)) :=
  (signatureHash rollingHashes (oneInput scriptSig) [] 0 SIGHASH_ALL 3 0 none).run []

def oneInputCalls : List (Bytes × Bytes) := (oneInputHash []).elim [] Prod.snd

theorem oneInputCalls_collisionless :
    Collisionless rollingHashes (oneInputCalls ++ oneInputCalls) := by
  have apart : ∀ call ∈ oneInputCalls, ∀ call' ∈ oneInputCalls, call.1 = call'.1 →
      rollingHashes.blake2b call.1 call.2 = rollingHashes.blake2b call'.1 call'.2 →
        call.2 = call'.2 := by decide +kernel
  have notNull : ∀ call ∈ oneInputCalls, rollingHashes.blake2b call.1 call.2 ≠ 0 := by
    decide +kernel
  constructor
  · intro _ _ _ member member'
    rw [List.mem_append, or_self] at member member'
    exact apart _ member _ member' rfl
  · intro _ _ member
    rw [List.mem_append, or_self] at member
    exact notNull _ member

/-- Before and after the input is signed. -/
theorem signature_hash_binds_oneInput : Agree 0 SIGHASH_ALL (oneInput []) (oneInput [1, 2]) := by
  have bound := signature_hash_binds rollingHashes (oneInput []) (oneInput [1, 2])
    (oneInput_overwintered []) (oneInput_overwintered [1, 2]) [] 0 SIGHASH_ALL 3 0
  have unsigned : oneInputHash [] = some ((oneInputHash []).elim 0 Prod.fst, oneInputCalls) := by
    decide +kernel
  have signed : oneInputHash [1, 2] = some ((oneInputHash []).elim 0 Prod.fst, oneInputCalls) := by
    decide +kernel
  exact (bound.1 _ _ _ unsigned signed oneInputCalls_collisionless).1

end Zcashd.Guarantees.SignatureHashes
