import Zcashd.Lib.PrefixCode
import Zcashd.Source.WireExact

/-!
# Signature hashes

`SignatureHash` and what it hashes (`src/script/interpreter.cpp:960-1267`). The two hash
functions are parameters. A computation also keeps what BLAKE2b was asked for, the
personalisation and the bytes of each call; `none` is an exception, a failed assertion or an
access beyond the end of a vector.
-/
namespace Zcashd.Source.Wire

open Lib Option

def SIGHASH_ALL : Int32 := 1
def SIGHASH_NONE : Int32 := 2
def SIGHASH_SINGLE : Int32 := 3
def SIGHASH_ANYONECANPAY : Int32 := 0x80

/-- `UINT_MAX`. -/
def NOT_AN_INPUT : UInt32 := 0xFFFFFFFF

/-- `nHashType & 0x1f`. -/
def baseType (nHashType : Int32) : Int32 := nHashType &&& 0x1f

def anyoneCanPay (nHashType : Int32) : Bool := nHashType &&& SIGHASH_ANYONECANPAY != 0

structure HashFunctions where
  /-- BLAKE2b-256 of the bytes, under a personalisation. -/
  blake2b : Bytes → Bytes → Uint256
  /-- `CHashWriter::GetHash`. -/
  sha256d : Bytes → Uint256

abbrev Hashing := StateT (List (Bytes × Bytes)) Option

/-- The bytes of a string of ASCII characters. -/
def ascii (s : String) : Bytes := s.toList.map (fun c => UInt8.ofNat c.toNat)

def ZCASH_PREVOUTS_HASH_PERSONALIZATION : Bytes := ascii "ZcashPrevoutHash"
def ZCASH_SEQUENCE_HASH_PERSONALIZATION : Bytes := ascii "ZcashSequencHash"
def ZCASH_OUTPUTS_HASH_PERSONALIZATION : Bytes := ascii "ZcashOutputsHash"
def ZCASH_JOINSPLITS_HASH_PERSONALIZATION : Bytes := ascii "ZcashJSplitsHash"
def ZCASH_SHIELDED_SPENDS_HASH_PERSONALIZATION : Bytes := ascii "ZcashSSpendsHash"
def ZCASH_SHIELDED_OUTPUTS_HASH_PERSONALIZATION : Bytes := ascii "ZcashSOutputHash"

/-- The personalisation of the hash itself ends with the branch id. -/
def sigHashPersonalization (consensusBranchId : UInt32) : Bytes :=
  ascii "ZcashSigHash" ++ writeUInt32 consensusBranchId

/-- A `CBLAKE2bWriter` with these bytes. -/
def blake2bHash (H : HashFunctions) (personalization bytes : Bytes) : Hashing Uint256 := do
  modify (fun calls => calls ++ [(personalization, bytes)])
  pure (H.blake2b personalization bytes)

/-- A spend without its signature. -/
def SpendDescription.signedBytes (d : SpendDescription) : Bytes :=
  writeUint256 d.cv ++ (writeUint256 d.anchor ++ (writeUint256 d.nullifier ++ (writeUint256 d.rk ++
    writeBlob d.zkproof)))

section

variable (H : HashFunctions) (txTo : CMutableTransaction)

def getPrevoutHash : Hashing Uint256 :=
  blake2bHash H ZCASH_PREVOUTS_HASH_PERSONALIZATION
    (txTo.vin.flatMap (fun txin => txin.prevout.bytes))

def getSequenceHash : Hashing Uint256 :=
  blake2bHash H ZCASH_SEQUENCE_HASH_PERSONALIZATION
    (txTo.vin.flatMap (fun txin => writeUInt32 txin.nSequence))

def getOutputsHash : Hashing Uint256 :=
  blake2bHash H ZCASH_OUTPUTS_HASH_PERSONALIZATION (txTo.vout.flatMap CTxOut.bytes)

/-- The version of the stream is the header; a proof of the other kind is an exception. -/
def getJoinSplitsHash : Hashing Uint256 :=
  if ∀ joinsplit ∈ txTo.vJoinSplit, joinsplit.proof.isFor
    (useGroth txTo.fOverwintered txTo.nVersion) then
    blake2bHash H ZCASH_JOINSPLITS_HASH_PERSONALIZATION
      (txTo.vJoinSplit.flatMap JSDescription.bytes ++ writeUint256 txTo.joinSplitPubKey)
  else failure

def getShieldedSpendsHash : Hashing Uint256 :=
  blake2bHash H ZCASH_SHIELDED_SPENDS_HASH_PERSONALIZATION
    (txTo.vShieldedSpend.flatMap SpendDescription.signedBytes)

def getShieldedOutputsHash : Hashing Uint256 :=
  blake2bHash H ZCASH_SHIELDED_OUTPUTS_HASH_PERSONALIZATION
    (txTo.vShieldedOutput.flatMap OutputDescription.bytes)

structure PrecomputedTransactionData where
  hashPrevouts : Uint256
  hashSequence : Uint256
  hashOutputs : Uint256
  hashJoinSplits : Uint256
  hashShieldedSpends : Uint256
  hashShieldedOutputs : Uint256

/-- The constructor. -/
def precompute : Hashing PrecomputedTransactionData := do
  let hashPrevouts ← getPrevoutHash H txTo
  let hashSequence ← getSequenceHash H txTo
  let hashOutputs ← getOutputsHash H txTo
  let hashJoinSplits ← getJoinSplitsHash H txTo
  let hashShieldedSpends ← getShieldedSpendsHash H txTo
  let hashShieldedOutputs ← getShieldedOutputsHash H txTo
  pure ⟨hashPrevouts, hashSequence, hashOutputs, hashJoinSplits, hashShieldedSpends,
    hashShieldedOutputs⟩

inductive SigVersion where
  | SPROUT
  | OVERWINTER
  | SAPLING
deriving DecidableEq, Repr

def signatureHashVersion : SigVersion :=
  if txTo.fOverwintered then
    if txTo.nVersionGroupId = SAPLING_VERSION_GROUP_ID then .SAPLING else .OVERWINTER
  else .SPROUT

/-- `cache ? cache->field : compute`. -/
def cached (cache : Option PrecomputedTransactionData)
    (field : PrecomputedTransactionData → Uint256) (compute : Hashing Uint256) :
    Hashing Uint256 :=
  match cache with
  | some data => pure (field data)
  | none => compute

/-- A hash variable, which is null unless it is assigned. -/
def hashWhen (present : Prop) [Decidable present] (assigned : Hashing Uint256) : Hashing Uint256 :=
  if present then assigned else pure 0

variable (scriptCode : CScript) (nIn : UInt32) (nHashType : Int32) (amount : Int64)

/-- What is hashed of the outputs: all, one or none. -/
def sigHashOutputs (cache : Option PrecomputedTransactionData) : Hashing Uint256 :=
  if baseType nHashType ≠ SIGHASH_SINGLE ∧ baseType nHashType ≠ SIGHASH_NONE then
    cached cache (·.hashOutputs) (getOutputsHash H txTo)
  else if baseType nHashType = SIGHASH_SINGLE then
    match txTo.vout[nIn.toNat]? with
    | some txout => blake2bHash H ZCASH_OUTPUTS_HASH_PERSONALIZATION txout.bytes
    | none => pure 0
  else pure 0

/-- The input that is signed, with `scriptCode` and `amount` for its scriptSig. -/
def sigHashInput : Option Bytes :=
  if nIn = NOT_AN_INPUT then some []
  else txTo.vin[nIn.toNat]?.map (fun txin =>
    txin.prevout.bytes ++
      (writeScript scriptCode ++ (writeAmount amount ++ writeUInt32 txin.nSequence)))

/-- What `SignatureHash` writes from Overwinter on, from the six sub-hashes. -/
def sigHashPreimage (sigversion : SigVersion) (hashes : PrecomputedTransactionData)
    (input : Bytes) : Bytes :=
  writeUInt32 (header txTo.fOverwintered txTo.nVersion) ++
  (writeUInt32 txTo.nVersionGroupId ++
  (writeUint256 hashes.hashPrevouts ++
  (writeUint256 hashes.hashSequence ++
  (writeUint256 hashes.hashOutputs ++
  (writeUint256 hashes.hashJoinSplits ++
  ((if sigversion = .SAPLING then writeUint256 hashes.hashShieldedSpends else []) ++
  ((if sigversion = .SAPLING then writeUint256 hashes.hashShieldedOutputs else []) ++
  (writeUInt32 txTo.nLockTime ++
  (writeUInt32 txTo.nExpiryHeight ++
  ((if sigversion = .SAPLING then writeAmount txTo.valueBalance else []) ++
  (writeUInt32 nHashType.toUInt32 ++ input)))))))))))

/-- `SignatureHash` from Overwinter on. -/
def overwinterHash (sigversion : SigVersion) (consensusBranchId : UInt32)
    (cache : Option PrecomputedTransactionData) :
    Hashing Uint256 := do
  let hashPrevouts ← hashWhen (!anyoneCanPay nHashType)
      (cached cache (·.hashPrevouts) (getPrevoutHash H txTo))
  let hashSequence ← hashWhen
    (!anyoneCanPay nHashType ∧ baseType nHashType ≠ SIGHASH_SINGLE ∧
      baseType nHashType ≠ SIGHASH_NONE)
    (cached cache (·.hashSequence) (getSequenceHash H txTo))
  let hashOutputs ← sigHashOutputs H txTo nIn nHashType cache
  let hashJoinSplits ← hashWhen (txTo.vJoinSplit ≠ [])
      (cached cache (·.hashJoinSplits) (getJoinSplitsHash H txTo))
  let hashShieldedSpends ← hashWhen (txTo.vShieldedSpend ≠ [])
    (cached cache (·.hashShieldedSpends) (getShieldedSpendsHash H txTo))
  let hashShieldedOutputs ← hashWhen (txTo.vShieldedOutput ≠ [])
    (cached cache (·.hashShieldedOutputs) (getShieldedOutputsHash H txTo))
  let input ← sigHashInput txTo scriptCode nIn amount
  blake2bHash H (sigHashPersonalization consensusBranchId)
    (sigHashPreimage txTo nHashType sigversion
    ⟨hashPrevouts, hashSequence, hashOutputs, hashJoinSplits, hashShieldedSpends,
      hashShieldedOutputs⟩ input)

/-! `CTransactionSignatureSerializer` -/

def serializeInput (nInput : UInt32) : Option Bytes :=
  let nInput := if anyoneCanPay nHashType then nIn else nInput
  match txTo.vin[nInput.toNat]? with
  | none => none
  | some txin =>
    if nInput = NOT_AN_INPUT then none
    else
      let others := baseType nHashType = SIGHASH_SINGLE ∨ baseType nHashType = SIGHASH_NONE
      some (txin.prevout.bytes ++
        ((if nInput ≠ nIn then writeScript [] else writeScript scriptCode) ++
        writeUInt32 (if nInput ≠ nIn ∧ others then 0 else txin.nSequence)))

def serializeOutput (nOutput : UInt32) : Option Bytes :=
  if baseType nHashType = SIGHASH_SINGLE ∧ nOutput ≠ nIn then some (CTxOut.bytes ⟨-1, []⟩)
  else txTo.vout[nOutput.toNat]?.map CTxOut.bytes

/-- The stream has version 0, so the proofs are not Groth16 ones. -/
def signatureSerializer : Option Bytes := do
  let nInputs : UInt32 := if anyoneCanPay nHashType then 1 else UInt32.ofNat txTo.vin.length
  let inputs ← (List.range nInputs.toNat).mapM
      (fun i => serializeInput txTo scriptCode nIn nHashType (UInt32.ofNat i))
  let nOutputs : UInt32 :=
    if baseType nHashType = SIGHASH_NONE then 0
    else if baseType nHashType = SIGHASH_SINGLE then nIn + 1 else UInt32.ofNat txTo.vout.length
  let outputs ← (List.range nOutputs.toNat).mapM
      (fun i => serializeOutput txTo nIn nHashType (UInt32.ofNat i))
  let joinSplits ←
    if txTo.hasJoinSplits then
      if ∀ joinsplit ∈ txTo.vJoinSplit, joinsplit.proof.isFor false then
        some (writeVector JSDescription.bytes txTo.vJoinSplit ++
          if 0 < txTo.vJoinSplit.length then
            writeUint256 txTo.joinSplitPubKey ++ writeBlob (Vector.replicate 64 0)
          else [])
      else none
    else some []
  some (writeUInt32 txTo.nVersion.toUInt32 ++ (writeCompactSize nInputs.toNat ++ (inputs.flatten ++
    (writeCompactSize nOutputs.toNat ++
      (outputs.flatten ++ (writeUInt32 txTo.nLockTime ++ joinSplits))))))

/-- `SignatureHash` before Overwinter. -/
def sproutHash : Hashing Uint256 := do
  if baseType nHashType = SIGHASH_SINGLE ∧ txTo.vout.length ≤ nIn.toNat then failure
  else
    let bytes ← signatureSerializer txTo scriptCode nIn nHashType
    pure (H.sha256d (bytes ++ writeUInt32 nHashType.toUInt32))

def signatureHash (consensusBranchId : UInt32) (cache : Option PrecomputedTransactionData) :
    Hashing Uint256 :=
  if txTo.vin.length ≤ nIn.toNat ∧ nIn ≠ NOT_AN_INPUT then failure
  else
    let sigversion := signatureHashVersion txTo
    if sigversion = .OVERWINTER ∨ sigversion = .SAPLING then
      overwinterHash H txTo scriptCode nIn nHashType amount sigversion consensusBranchId cache
    else sproutHash H txTo scriptCode nIn nHashType

end

/-! The calls of a computation, and its value -/

/-- What is assumed of BLAKE2b about the calls that were made. -/
structure Collisionless (H : HashFunctions) (calls : List (Bytes × Bytes)) : Prop where
  injective : ∀ personalization bytes bytes', (personalization, bytes) ∈ calls →
    (personalization, bytes') ∈ calls →
    H.blake2b personalization bytes = H.blake2b personalization bytes' → bytes = bytes'
  notNull : ∀ personalization bytes, (personalization, bytes) ∈ calls →
    H.blake2b personalization bytes ≠ 0

/-- A sub-hash: of some bytes when there is something to hash, and null otherwise. -/
structure HashedIf (H : HashFunctions) (calls : List (Bytes × Bytes)) (personalization : Bytes)
    (present : Prop) (bytes : Bytes) (value : Uint256) : Prop where
  hashed : present → value = H.blake2b personalization bytes ∧ (personalization, bytes) ∈ calls
  null : ¬ present → value = 0

variable {H : HashFunctions} {personalization : Bytes} {present : Prop} {value : Uint256}
  {bytes : Bytes}

variable {calls calls' : List (Bytes × Bytes)}

theorem HashedIf.mono (hash : HashedIf H calls personalization present bytes value)
    (more : calls ⊆ calls') :
    HashedIf H calls' personalization present bytes value :=
  ⟨fun on => ⟨(hash.hashed on).1, more (hash.hashed on).2⟩, hash.null⟩

/-- Equal sub-hashes are both null, or of the same bytes. -/
theorem HashedIf.agree {calls₁ calls₂ : List (Bytes × Bytes)} {bytes₁ bytes₂ : Bytes}
    {present₁ present₂ : Prop} (assumed : Collisionless H (calls₁ ++ calls₂))
    (hash₁ : HashedIf H calls₁ personalization present₁ bytes₁ value)
    (hash₂ : HashedIf H calls₂ personalization present₂ bytes₂ value) :
    (present₁ ↔ present₂) ∧ (present₁ → bytes₁ = bytes₂) := by
  have first : present₁ → H.blake2b personalization bytes₁ = value ∧
      (personalization, bytes₁) ∈ calls₁ ++ calls₂ :=
    fun on => ⟨(hash₁.hashed on).1.symm, List.mem_append_left _ (hash₁.hashed on).2⟩
  have second : present₂ → H.blake2b personalization bytes₂ = value ∧
      (personalization, bytes₂) ∈ calls₁ ++ calls₂ :=
    fun on => ⟨(hash₂.hashed on).1.symm, List.mem_append_right _ (hash₂.hashed on).2⟩
  have both : present₁ ↔ present₂ := by
    constructor
    · intro on
      by_contra off
      exact assumed.notNull _ _ (first on).2 ((first on).1.trans (hash₂.null off))
    · intro on
      by_contra off
      exact assumed.notNull _ _ (second on).2 ((second on).1.trans (hash₁.null off))
  refine ⟨both, ?_⟩
  intro on
  obtain ⟨value₁, called₁⟩ := first on
  obtain ⟨value₂, called₂⟩ := second (both.mp on)
  exact assumed.injective _ _ _ called₁ called₂ (value₁.trans value₂.symm)

/-- A step that keeps the calls made so far and gives such a sub-hash. -/
def Yields (H : HashFunctions) (personalization : Bytes) (present : Prop) (bytes : Bytes)
    (m : Hashing Uint256) : Prop :=
  ∀ calls value calls', m.run calls = some (value, calls') →
    calls ⊆ calls' ∧ HashedIf H calls' personalization present bytes value

theorem yields_null (absent : ¬ present) : Yields H personalization present bytes (pure 0) := by
  intro _ _ _ run
  cases run
  exact ⟨List.Subset.refl _, fun on => absurd on absent, fun _ => rfl⟩

theorem yields_blake2bHash (on : present) :
    Yields H personalization present bytes (blake2bHash H personalization bytes) := by
  intro _ _ _ run
  have same := Option.some.inj run
  cases same
  exact ⟨List.subset_append_left _ _, fun _ => ⟨rfl, by simp⟩, fun off => absurd on off⟩

theorem yields_hashWhen [Decidable present] {m : Hashing Uint256}
    (step : present → Yields H personalization present bytes m) :
    Yields H personalization present bytes (hashWhen present m) := by
  unfold hashWhen
  split
  · rename_i on
    exact step on
  · rename_i off
    exact yields_null off

section

variable {txTo : CMutableTransaction} {scriptCode : CScript} {nIn : UInt32} {nHashType : Int32}
  {amount : Int64}

/-- The proofs of the JoinSplits have the kind of the format. -/
def ProofsFit (txTo : CMutableTransaction) : Prop :=
  ∀ joinsplit ∈ txTo.vJoinSplit, joinsplit.proof.isFor (useGroth txTo.fOverwintered txTo.nVersion)

theorem yields_getJoinSplitsHash (on : present) :
    Yields H ZCASH_JOINSPLITS_HASH_PERSONALIZATION present
      (txTo.vJoinSplit.flatMap JSDescription.bytes ++ writeUint256 txTo.joinSplitPubKey)
        (getJoinSplitsHash H txTo) := by
  unfold getJoinSplitsHash
  split
  · exact yields_blake2bHash on
  · intro _ _ _ run
    cases run

theorem getJoinSplitsHash_fits
    (run : (getJoinSplitsHash H txTo).run calls = some (value, calls')) : ProofsFit txTo := by
  unfold getJoinSplitsHash at run
  split at run
  · rename_i fit
    exact fit
  · cases run

/-- The outputs that are signed: all of them, one, or none. -/
def signedOutputs (txTo : CMutableTransaction) (nIn : UInt32) (nHashType : Int32) :
    Option (List CTxOut) :=
  if baseType nHashType ≠ SIGHASH_SINGLE ∧ baseType nHashType ≠ SIGHASH_NONE then some txTo.vout
  else if baseType nHashType = SIGHASH_SINGLE then txTo.vout[nIn.toNat]?.map ([·]) else none

theorem yields_sigHashOutputs :
    Yields H ZCASH_OUTPUTS_HASH_PERSONALIZATION (signedOutputs txTo nIn nHashType).isSome
      (((signedOutputs txTo nIn nHashType).getD []).flatMap CTxOut.bytes)
        (sigHashOutputs H txTo nIn nHashType none) := by
  unfold sigHashOutputs signedOutputs
  split
  · exact yields_blake2bHash rfl
  · split
    · cases txTo.vout[nIn.toNat]? with
      | some txout =>
        have one : [txout].flatMap CTxOut.bytes = txout.bytes := by simp
        simp only [map_some, getD_some, one]
        exact yields_blake2bHash rfl
      | none => exact yields_null (by simp)
    · exact yields_null (by simp)

/-- Everything `SignatureHash` hashed for a transaction from Overwinter on. -/
structure Signed (H : HashFunctions) (txTo : CMutableTransaction) (scriptCode : CScript)
    (nIn : UInt32)
    (nHashType : Int32) (amount : Int64) (sigversion : SigVersion) (consensusBranchId : UInt32)
    (value : Uint256)
    (calls : List (Bytes × Bytes)) (hashes : PrecomputedTransactionData)
    (input : Bytes) : Prop where
  prevouts : HashedIf H calls ZCASH_PREVOUTS_HASH_PERSONALIZATION (!anyoneCanPay nHashType)
    (txTo.vin.flatMap (fun txin => txin.prevout.bytes)) hashes.hashPrevouts
  sequence : HashedIf H calls ZCASH_SEQUENCE_HASH_PERSONALIZATION
    (!anyoneCanPay nHashType ∧ baseType nHashType ≠ SIGHASH_SINGLE ∧
      baseType nHashType ≠ SIGHASH_NONE)
    (txTo.vin.flatMap (fun txin => writeUInt32 txin.nSequence)) hashes.hashSequence
  outputs : HashedIf H calls ZCASH_OUTPUTS_HASH_PERSONALIZATION
    (signedOutputs txTo nIn nHashType).isSome
    (((signedOutputs txTo nIn nHashType).getD []).flatMap CTxOut.bytes) hashes.hashOutputs
  joinSplits : HashedIf H calls ZCASH_JOINSPLITS_HASH_PERSONALIZATION (txTo.vJoinSplit ≠ [])
    (txTo.vJoinSplit.flatMap JSDescription.bytes ++ writeUint256 txTo.joinSplitPubKey)
      hashes.hashJoinSplits
  proofs : txTo.vJoinSplit ≠ [] → ProofsFit txTo
  shieldedSpends :
    HashedIf H calls ZCASH_SHIELDED_SPENDS_HASH_PERSONALIZATION (txTo.vShieldedSpend ≠ [])
    (txTo.vShieldedSpend.flatMap SpendDescription.signedBytes) hashes.hashShieldedSpends
  shieldedOutputs :
    HashedIf H calls ZCASH_SHIELDED_OUTPUTS_HASH_PERSONALIZATION (txTo.vShieldedOutput ≠ [])
    (txTo.vShieldedOutput.flatMap OutputDescription.bytes) hashes.hashShieldedOutputs
  signedInput : sigHashInput txTo scriptCode nIn amount = some input
  whole : HashedIf H calls (sigHashPersonalization consensusBranchId) True
    (sigHashPreimage txTo nHashType sigversion hashes input) value

theorem overwinterHash_signed {sigversion : SigVersion} {consensusBranchId : UInt32}
    (run :
    (overwinterHash H txTo scriptCode nIn nHashType amount sigversion consensusBranchId none).run
    [] = some (value, calls)) :
    ∃ hashes input, Signed H txTo scriptCode nIn nHashType amount sigversion consensusBranchId value
      calls hashes input := by
  obtain ⟨⟨_, _⟩, prevouts, run⟩ := bind_eq_some_iff.mp run
  obtain ⟨⟨_, _⟩, sequence, run⟩ := bind_eq_some_iff.mp run
  obtain ⟨⟨_, _⟩, outputs, run⟩ := bind_eq_some_iff.mp run
  obtain ⟨⟨_, _⟩, joinSplits, run⟩ := bind_eq_some_iff.mp run
  obtain ⟨⟨_, _⟩, shieldedSpends, run⟩ := bind_eq_some_iff.mp run
  obtain ⟨⟨_, calls₆⟩, shieldedOutputs, run⟩ := bind_eq_some_iff.mp run
  obtain ⟨⟨input, calls₇⟩, found, run⟩ := bind_eq_some_iff.mp run
  obtain ⟨-, prevouts⟩ := yields_hashWhen (fun on => yields_blake2bHash on) _ _ _ prevouts
  obtain ⟨more₂, sequence⟩ := yields_hashWhen (fun on => yields_blake2bHash on) _ _ _ sequence
  obtain ⟨more₃, outputs⟩ := yields_sigHashOutputs _ _ _ outputs
  have proofs : txTo.vJoinSplit ≠ [] → ProofsFit txTo := by
    intro some
    rw [hashWhen, if_pos some] at joinSplits
    exact getJoinSplitsHash_fits joinSplits
  obtain ⟨more₄, joinSplits⟩ := yields_hashWhen yields_getJoinSplitsHash _ _ _ joinSplits
  obtain ⟨more₅, shieldedSpends⟩ :=
    yields_hashWhen (fun on => yields_blake2bHash on) _ _ _ shieldedSpends
  obtain ⟨more₆, shieldedOutputs⟩ :=
    yields_hashWhen (fun on => yields_blake2bHash on) _ _ _ shieldedOutputs
  obtain ⟨same, signedInput⟩ :
      calls₆ = calls₇ ∧ sigHashInput txTo scriptCode nIn amount = some input := by
    obtain ⟨value, isInput, pair⟩ := bind_eq_some_iff.mp found
    cases pair
    exact ⟨rfl, isInput⟩
  subst same
  obtain ⟨more₇, whole⟩ := yields_blake2bHash trivial _ _ _ run
  -- the calls only grow, so each sub-hash is among those of the end
  have more₆ := List.Subset.trans more₆ more₇
  have more₅ := List.Subset.trans more₅ more₆
  have more₄ := List.Subset.trans more₄ more₅
  have more₃ := List.Subset.trans more₃ more₄
  have more₂ := List.Subset.trans more₂ more₃
  exact ⟨_, input, prevouts.mono more₂, sequence.mono more₃, outputs.mono more₄,
    joinSplits.mono more₅, proofs,
    shieldedSpends.mono more₆, shieldedOutputs.mono more₇, signedInput, whole⟩

end

end Zcashd.Source.Wire
