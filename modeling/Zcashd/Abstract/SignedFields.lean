import Zcashd.Source.SignatureHash

/-!
# What a signature hash binds

The fields are written one after the other, each in a prefix code, so equal bytes have equal
fields. A vector in memory has fewer than `2 ^ 64` elements; that is all that is asked of the
scripts.
-/
namespace Zcashd.Source

open Lib List SpendDescription

/-- The byte a `CompactSize` starts with. -/
def compactTag (n : Nat) : Nat :=
  if n < 253 then n else if n ≤ 0xFFFF then 253 else if n ≤ 0xFFFFFFFF then 254 else 255

/-- The number of bytes after it. -/
def compactWidth (n : Nat) : Nat :=
  if n < 253 then 0 else if n ≤ 0xFFFF then 2 else if n ≤ 0xFFFFFFFF then 4 else 8

theorem writeCompactSize_eq (n : Nat) :
    writeCompactSize n = writeData 1 (compactTag n) ++ writeData (compactWidth n) n := by
  unfold writeCompactSize compactTag compactWidth
  grind [writeData]

/-- Every size of a vector, not only those that are read back. -/
theorem compactSize_prefixCode : PrefixCode writeCompactSize (fun n => n < 2 ^ 64) := by
  intro n m _ _ validN validM same
  have tag : ∀ k, compactTag k < 256 := by
    intro k
    unfold compactTag
    split_ifs <;> omega
  rw [writeCompactSize_eq, writeCompactSize_eq, append_assoc, append_assoc] at same
  obtain ⟨tags, same⟩ :=
    (readData_exact 1).prefixCode _ _ _ _ (by simpa using tag n) (by simpa using tag m) same
  -- the first byte decides how many follow
  have widths : compactWidth n = compactWidth m := by
    unfold compactTag at tags
    unfold compactWidth
    split_ifs at tags ⊢ <;> omega
  by_cases short : n < 253
  · have same : n = m := by
      unfold compactTag at tags
      split_ifs at tags <;> omega
    subst same
    exact ⟨rfl, append_cancel_left same⟩
  · have room : ∀ k, 253 ≤ k → k < 2 ^ 64 → k < 256 ^ compactWidth k := by
      intro k _ _
      unfold compactWidth
      split_ifs <;> omega
    have long : 253 ≤ m := by
      unfold compactWidth at widths
      split_ifs at widths <;> omega
    have validM := room m long validM
    rw [← widths] at same validM
    exact (readData_exact _).prefixCode _ _ _ _ (room n (by omega) validN) validM same

namespace Wire

theorem writeScript_prefixCode : PrefixCode writeScript (fun script => script.length < 2 ^ 64) := by
  intro _ _ _ _ valid valid' same
  have elements : ∀ l : CScript, l.flatMap (fun b => [b]) = l := fun l => flatMap_singleton' l
  unfold writeScript writeVector at same
  rw [elements, elements, append_assoc, append_assoc] at same
  obtain ⟨lengths, same⟩ := compactSize_prefixCode _ _ _ _ valid valid' same
  exact append_inj same lengths

theorem CTxOut.bytes_prefixCode :
    PrefixCode CTxOut.bytes (fun txout => txout.scriptPubKey.length < 2 ^ 64) := by
  refine (readAmount_exact.prefixCode.pair writeScript_prefixCode).comap
    (f := fun txout => (txout.nValue, txout.scriptPubKey))
    (fun _ => rfl) (fun _ valid => ⟨trivial, valid⟩) ?_
  intro a b _ _ same
  cases a
  cases b
  cases same
  rfl

/-- A spend as it is signed. -/
def SpendDescription.withoutSig (d : SpendDescription) : SpendDescription :=
  { d with spendAuthSig := Vector.replicate 64 0 }

theorem SpendDescription.signedBytes_injective {l m : List SpendDescription}
    (same : l.flatMap signedBytes = m.flatMap signedBytes) :
    l.map withoutSig = m.map withoutSig := by
  have hash := readUint256_exact.prefixCode
  have fields := hash.pair (hash.pair (hash.pair (hash.pair (readBlob_exact 192).prefixCode)))
  have lists : l.map (fun d => (d.cv, d.anchor, d.nullifier, d.rk, d.zkproof)) =
      m.map (fun d => (d.cv, d.anchor, d.nullifier, d.rk, d.zkproof)) := by
    apply fields.flatMap_injective
    · intro p
      simp [writeUint256, writeData]
    · exact fun _ _ => ⟨trivial, trivial, trivial, trivial, trivial⟩
    · exact fun _ _ => ⟨trivial, trivial, trivial, trivial, trivial⟩
    · rw [flatMap_map, flatMap_map]
      exact same
  have rebuilt := congrArg (map (fun p : Uint256 × Uint256 × Uint256 × Uint256 × GrothProof =>
    (⟨p.1, p.2.1, p.2.2.1, p.2.2.2.1, p.2.2.2.2, Vector.replicate 64 0⟩ : SpendDescription))) lists
  rw [map_map, map_map] at rebuilt
  exact rebuilt

namespace CMutableTransaction

/-- A transaction of one of the two formats that have these hashes, as it can be in memory. -/
structure Overwintered (tx : CMutableTransaction) : Prop where
  format : tx.v3 = true ∨ tx.v4 = true
  scripts : ∀ txout ∈ tx.vout, txout.scriptPubKey.length < 2 ^ 64

variable {tx tx₁ tx₂ : CMutableTransaction}

theorem v3_fields (format : tx.v3 = true) :
    tx.fOverwintered = true ∧ tx.nVersionGroupId = OVERWINTER_VERSION_GROUP_ID ∧
    tx.nVersion = OVERWINTER_TX_VERSION := by
  simpa [v3, isOverwinterV3, and_assoc] using format

theorem v4_fields (format : tx.v4 = true) :
    tx.fOverwintered = true ∧ tx.nVersionGroupId = SAPLING_VERSION_GROUP_ID ∧
    tx.nVersion = SAPLING_TX_VERSION := by
  simpa [v4, isSaplingV4, and_assoc] using format

theorem v3_not_v4 (format : tx.v3 = true) : tx.v4 = false := by
  obtain ⟨-, group, -⟩ := v3_fields format
  simp [v4, isSaplingV4, group, OVERWINTER_VERSION_GROUP_ID, SAPLING_VERSION_GROUP_ID]

theorem Overwintered.sigversion (overwintered : tx.Overwintered) :
    signatureHashVersion tx = if tx.v4 then .SAPLING else .OVERWINTER := by
  unfold signatureHashVersion
  rcases overwintered.format with format | format
  · obtain ⟨flag, group, -⟩ := v3_fields format
    rw [v3_not_v4 format, flag, group]
    decide
  · obtain ⟨flag, group, -⟩ := v4_fields format
    rw [format, flag, group]
    decide

/-- The version group decides the version. -/
theorem Overwintered.same_version (first : tx₁.Overwintered) (second : tx₂.Overwintered)
    (groups : tx₁.nVersionGroupId = tx₂.nVersionGroupId) :
    tx₁.fOverwintered = tx₂.fOverwintered ∧ tx₁.nVersion = tx₂.nVersion ∧ tx₁.v4 = tx₂.v4 := by
  have distinct : OVERWINTER_VERSION_GROUP_ID ≠ SAPLING_VERSION_GROUP_ID := by decide
  rcases first.format with format₁ | format₁ <;> rcases second.format with format₂ | format₂ <;>
    grind [v3_fields, v4_fields, v3_not_v4]

end CMutableTransaction

/-- What two transactions with the same signature hash have in common. -/
structure Agree (nIn : UInt32) (nHashType : Int32) (tx₁ tx₂ : CMutableTransaction) : Prop where
  fOverwintered : tx₁.fOverwintered = tx₂.fOverwintered
  nVersion : tx₁.nVersion = tx₂.nVersion
  nVersionGroupId : tx₁.nVersionGroupId = tx₂.nVersionGroupId
  nLockTime : tx₁.nLockTime = tx₂.nLockTime
  nExpiryHeight : tx₁.nExpiryHeight = tx₂.nExpiryHeight
  vJoinSplit : tx₁.vJoinSplit = tx₂.vJoinSplit
  /-- The key is written only with a JoinSplit. -/
  joinSplitPubKey : tx₁.vJoinSplit ≠ [] → tx₁.joinSplitPubKey = tx₂.joinSplitPubKey
  /-- Only the Sapling format has these. -/
  sapling : tx₁.v4 → tx₁.valueBalance = tx₂.valueBalance ∧
    tx₁.vShieldedSpend.map SpendDescription.withoutSig =
      tx₂.vShieldedSpend.map SpendDescription.withoutSig ∧
    tx₁.vShieldedOutput = tx₂.vShieldedOutput
  input : nIn ≠ NOT_AN_INPUT →
    ∃ txin₁ txin₂, tx₁.vin[nIn.toNat]? = some txin₁ ∧ tx₂.vin[nIn.toNat]? = some txin₂ ∧
    txin₁.prevout = txin₂.prevout ∧ txin₁.nSequence = txin₂.nSequence
  prevouts : anyoneCanPay nHashType = false → tx₁.vin.map CTxIn.prevout = tx₂.vin.map CTxIn.prevout
  sequences : anyoneCanPay nHashType = false → baseType nHashType ≠ SIGHASH_SINGLE →
    baseType nHashType ≠ SIGHASH_NONE → tx₁.vin.map CTxIn.nSequence = tx₂.vin.map CTxIn.nSequence
  outputs : baseType nHashType ≠ SIGHASH_SINGLE → baseType nHashType ≠ SIGHASH_NONE →
    tx₁.vout = tx₂.vout
  single : baseType nHashType = SIGHASH_SINGLE → tx₁.vout[nIn.toNat]? = tx₂.vout[nIn.toNat]?

section

variable {H : HashFunctions} {tx₁ tx₂ : CMutableTransaction} {scriptCode : CScript} {nIn : UInt32}
  {nHashType : Int32}
  {amount : Int64}

variable {hashes₁ hashes₂ : PrecomputedTransactionData}

/-- The fields of the preimage, one by one. -/
theorem sigHashPreimage_injective (first : tx₁.Overwintered) (second : tx₂.Overwintered)
    {input₁ input₂ : Bytes}
    (same : sigHashPreimage tx₁ nHashType (signatureHashVersion tx₁) hashes₁ input₁ =
      sigHashPreimage tx₂ nHashType (signatureHashVersion tx₂) hashes₂ input₂) :
    tx₁.nVersionGroupId = tx₂.nVersionGroupId ∧
    hashes₁.hashPrevouts = hashes₂.hashPrevouts ∧ hashes₁.hashSequence = hashes₂.hashSequence ∧
    hashes₁.hashOutputs = hashes₂.hashOutputs ∧ hashes₁.hashJoinSplits = hashes₂.hashJoinSplits ∧
    (tx₁.v4 → hashes₁.hashShieldedSpends = hashes₂.hashShieldedSpends ∧
      hashes₁.hashShieldedOutputs = hashes₂.hashShieldedOutputs ∧
      tx₁.valueBalance = tx₂.valueBalance) ∧
    tx₁.nLockTime = tx₂.nLockTime ∧ tx₁.nExpiryHeight = tx₂.nExpiryHeight ∧ input₁ = input₂ := by
  have word := readUInt32_exact.prefixCode
  have hash := readUint256_exact.prefixCode
  have money := readAmount_exact.prefixCode
  obtain ⟨-, same⟩ := word _ _ _ _ trivial trivial same
  obtain ⟨groups, same⟩ := word _ _ _ _ trivial trivial same
  obtain ⟨-, -, formats⟩ := first.same_version second groups
  rw [first.sigversion, second.sigversion, ← formats] at same
  obtain ⟨prevouts, same⟩ := hash _ _ _ _ trivial trivial same
  obtain ⟨sequence, same⟩ := hash _ _ _ _ trivial trivial same
  obtain ⟨outputs, same⟩ := hash _ _ _ _ trivial trivial same
  obtain ⟨joinSplits, same⟩ := hash _ _ _ _ trivial trivial same
  cases sapling : tx₁.v4 with
  | true =>
    simp only [sapling, if_true] at same
    obtain ⟨spends, same⟩ := hash _ _ _ _ trivial trivial same
    obtain ⟨shieldedOutputs, same⟩ := hash _ _ _ _ trivial trivial same
    obtain ⟨lockTime, same⟩ := word _ _ _ _ trivial trivial same
    obtain ⟨expiryHeight, same⟩ := word _ _ _ _ trivial trivial same
    obtain ⟨valueBalance, same⟩ := money _ _ _ _ trivial trivial same
    obtain ⟨-, same⟩ := word _ _ _ _ trivial trivial same
    exact ⟨groups, prevouts, sequence, outputs, joinSplits,
      fun _ => ⟨spends, shieldedOutputs, valueBalance⟩, lockTime, expiryHeight, same⟩
  | false =>
    simp only [sapling, Bool.false_eq_true, if_false, reduceCtorEq, nil_append] at same
    obtain ⟨lockTime, same⟩ := word _ _ _ _ trivial trivial same
    obtain ⟨expiryHeight, same⟩ := word _ _ _ _ trivial trivial same
    obtain ⟨-, same⟩ := word _ _ _ _ trivial trivial same
    exact ⟨groups, prevouts, sequence, outputs, joinSplits, nofun, lockTime, expiryHeight, same⟩

theorem sigHashInput_injective {input : Bytes}
    (first : sigHashInput tx₁ scriptCode nIn amount = some input)
    (second : sigHashInput tx₂ scriptCode nIn amount = some input) (isInput : nIn ≠ NOT_AN_INPUT) :
    ∃ txin₁ txin₂, tx₁.vin[nIn.toNat]? = some txin₁ ∧ tx₂.vin[nIn.toNat]? = some txin₂ ∧
      txin₁.prevout = txin₂.prevout ∧ txin₁.nSequence = txin₂.nSequence := by
  rw [sigHashInput, if_neg isInput, Option.map_eq_some_iff] at first second
  obtain ⟨txin₁, found₁, bytes₁⟩ := first
  obtain ⟨txin₂, found₂, bytes₂⟩ := second
  have same := bytes₁.trans bytes₂.symm
  obtain ⟨prevouts, same⟩ := COutPoint.unserialize_exact.prefixCode _ _ _ _ trivial trivial same
  have sequences := append_cancel_left (append_cancel_left same)
  exact ⟨txin₁, txin₂, found₁, found₂, prevouts,
    readUInt32_exact.prefixCode.injective trivial trivial sequences⟩

theorem JSDescription.bytes_ne_nil (d : JSDescription) : d.bytes ≠ [] := by
  simp [JSDescription.bytes, writeAmount, writeData]

theorem CTxOut.bytes_ne_nil (txout : CTxOut) : txout.bytes ≠ [] := by
  simp [CTxOut.bytes, writeAmount, writeData]

theorem OutputDescription.bytes_ne_nil (d : OutputDescription) : d.bytes ≠ [] := by
  simp [OutputDescription.bytes, writeUint256, writeData]

theorem signedOutputs_sized (overwintered : tx.Overwintered) (nIn : UInt32)
    (nHashType : Int32) :
    ∀ txout ∈ (signedOutputs tx nIn nHashType).getD [], txout.scriptPubKey.length < 2 ^ 64 := by
  intro _ member
  apply overwintered.scripts
  unfold signedOutputs at member
  grind

theorem signedOutputs_injective (first : tx₁.Overwintered) (second : tx₂.Overwintered)
    (present : (signedOutputs tx₁ nIn nHashType).isSome ↔ (signedOutputs tx₂ nIn nHashType).isSome)
    (bytes : (signedOutputs tx₁ nIn nHashType).isSome →
      ((signedOutputs tx₁ nIn nHashType).getD []).flatMap CTxOut.bytes =
        ((signedOutputs tx₂ nIn nHashType).getD []).flatMap CTxOut.bytes) :
    signedOutputs tx₁ nIn nHashType = signedOutputs tx₂ nIn nHashType := by
  have sized₁ := signedOutputs_sized first nIn nHashType
  have sized₂ := signedOutputs_sized second nIn nHashType
  cases outputs₁ : signedOutputs tx₁ nIn nHashType with
  | none =>
    cases outputs₂ : signedOutputs tx₂ nIn nHashType with
    | none => rfl
    | some _ => simp [outputs₁, outputs₂] at present
  | some _ =>
    cases outputs₂ : signedOutputs tx₂ nIn nHashType with
    | none => simp [outputs₁, outputs₂] at present
    | some _ =>
      simp only [outputs₁, outputs₂, Option.isSome_some, Option.getD_some,
        true_implies] at bytes sized₁ sized₂
      rw [CTxOut.bytes_prefixCode.flatMap_injective CTxOut.bytes_ne_nil sized₁ sized₂ bytes]

theorem joinSplits_injective (flags : tx₁.fOverwintered = tx₂.fOverwintered)
    (versions : tx₁.nVersion = tx₂.nVersion) (proofs₁ : ProofsFit tx₁) (proofs₂ : ProofsFit tx₂)
    (bytes : tx₁.vJoinSplit.flatMap JSDescription.bytes ++ writeUint256 tx₁.joinSplitPubKey =
      tx₂.vJoinSplit.flatMap JSDescription.bytes ++ writeUint256 tx₂.joinSplitPubKey) :
    tx₁.vJoinSplit = tx₂.vJoinSplit ∧ tx₁.joinSplitPubKey = tx₂.joinSplitPubKey := by
  have code :=
    (JSDescription.unserialize_exact (useGroth tx₁.fOverwintered tx₁.nVersion)).prefixCode
  have lengths :
      (writeUint256 tx₁.joinSplitPubKey).length = (writeUint256 tx₂.joinSplitPubKey).length := by
    simp [writeUint256, writeData]
  unfold ProofsFit at proofs₂
  rw [← flags, ← versions] at proofs₂
  obtain ⟨lists, keys⟩ :=
    code.flatMap_append JSDescription.bytes_ne_nil proofs₁ proofs₂ lengths bytes
  exact ⟨lists, readUint256_exact.prefixCode.injective trivial trivial keys⟩

/-- Lists that are hashed only when they are not empty. -/
theorem eq_of_hashed {α : Type} {l m : List α} (present : l ≠ [] ↔ m ≠ [])
    (same : l ≠ [] → l = m) : l = m := by
  grind

/-- Equal hashes over two transactions of these formats. -/
theorem Signed.agree (first : tx₁.Overwintered) (second : tx₂.Overwintered)
    {consensusBranchId : UInt32} {value : Uint256} {calls₁ calls₂ : List (Bytes × Bytes)}
    {input₁ input₂ : Bytes} (assumed : Collisionless H (calls₁ ++ calls₂))
    (signed₁ : Signed H tx₁ scriptCode nIn nHashType amount
      (signatureHashVersion tx₁) consensusBranchId value calls₁ hashes₁ input₁)
    (signed₂ : Signed H tx₂ scriptCode nIn nHashType amount
      (signatureHashVersion tx₂) consensusBranchId value calls₂
      hashes₂ input₂) : Agree nIn nHashType tx₁ tx₂ := by
  obtain ⟨groups, prevouts, sequence, outputs, joinSplits, sapling, lockTime,
      expiryHeight, inputs⟩ :=
    sigHashPreimage_injective first second ((signed₁.whole.agree assumed signed₂.whole).2 trivial)
  obtain ⟨flags, versions, _⟩ := first.same_version second groups
  obtain ⟨-, prevouts⟩ := signed₁.prevouts.agree assumed (prevouts ▸ signed₂.prevouts)
  obtain ⟨-, sequence⟩ := signed₁.sequence.agree assumed (sequence ▸ signed₂.sequence)
  obtain ⟨someOutputs, outputs⟩ := signed₁.outputs.agree assumed (outputs ▸ signed₂.outputs)
  obtain ⟨someJoinSplits, joinSplits⟩ :=
    signed₁.joinSplits.agree assumed (joinSplits ▸ signed₂.joinSplits)
  have outputs := signedOutputs_injective first second someOutputs outputs
  have joinSplits : tx₁.vJoinSplit ≠ [] → tx₁.vJoinSplit = tx₂.vJoinSplit ∧
      tx₁.joinSplitPubKey = tx₂.joinSplitPubKey := by
    intro present
    exact joinSplits_injective flags versions (signed₁.proofs present)
      (signed₂.proofs (someJoinSplits.mp present)) (joinSplits present)
  constructor
  case fOverwintered => exact flags
  case nVersion => exact versions
  case nVersionGroupId => exact groups
  case nLockTime => exact lockTime
  case nExpiryHeight => exact expiryHeight
  case vJoinSplit => exact eq_of_hashed someJoinSplits (fun present => (joinSplits present).1)
  case joinSplitPubKey => exact fun present => (joinSplits present).2
  case sapling =>
    intro isSapling
    obtain ⟨spendHashes, outputHashes, valueBalance⟩ := sapling isSapling
    obtain ⟨someSpends, spends⟩ :=
      signed₁.shieldedSpends.agree assumed (spendHashes ▸ signed₂.shieldedSpends)
    obtain ⟨someShielded, shielded⟩ :=
      signed₁.shieldedOutputs.agree assumed (outputHashes ▸ signed₂.shieldedOutputs)
    refine ⟨valueBalance, ?_, ?_⟩
    · apply eq_of_hashed
      · simpa using someSpends
      · intro present
        exact SpendDescription.signedBytes_injective (spends (by simpa using present))
    · apply eq_of_hashed someShielded
      intro present
      exact OutputDescription.unserialize_exact.prefixCode.flatMap_injective
        OutputDescription.bytes_ne_nil (fun _ _ => trivial) (fun _ _ => trivial) (shielded present)
  case input =>
    intro isInput
    exact sigHashInput_injective signed₁.signedInput (inputs ▸ signed₂.signedInput) isInput
  case prevouts =>
    intro all
    have bytes := prevouts (by rw [all]; rfl)
    apply COutPoint.unserialize_exact.prefixCode.flatMap_injective
    · intro _
      simp [COutPoint.bytes, writeUint256, writeData]
    · exact fun _ _ => trivial
    · exact fun _ _ => trivial
    · rw [flatMap_map, flatMap_map]
      exact bytes
  case sequences =>
    intro all notSingle notNone
    have bytes := sequence ⟨by rw [all]; rfl, notSingle, notNone⟩
    apply readUInt32_exact.prefixCode.flatMap_injective
    · intro n
      simp [writeUInt32, writeData]
    · exact fun _ _ => trivial
    · exact fun _ _ => trivial
    · rw [flatMap_map, flatMap_map]
      exact bytes
  case outputs =>
    intro notSingle notNone
    rw [signedOutputs, signedOutputs, if_pos ⟨notSingle, notNone⟩,
      if_pos ⟨notSingle, notNone⟩] at outputs
    exact Option.some.inj outputs
  case single =>
    intro isSingle
    have other : ¬ (baseType nHashType ≠ SIGHASH_SINGLE ∧ baseType nHashType ≠ SIGHASH_NONE) :=
      fun both => both.1 isSingle
    rw [signedOutputs, signedOutputs, if_neg other, if_neg other, if_pos isSingle,
      if_pos isSingle] at outputs
    exact Option.map_injective (fun _ _ same => singleton_injective same) outputs

end

theorem signatureHash_signed (overwintered : tx.Overwintered) {consensusBranchId : UInt32}
    {value : Uint256} {calls : List (Bytes × Bytes)}
    (run : (signatureHash H tx scriptCode nIn nHashType amount consensusBranchId none).run [] =
      some (value, calls)) :
    ∃ hashes input, Signed H tx scriptCode nIn nHashType amount
      (signatureHashVersion tx) consensusBranchId value calls hashes input := by
  have modern : signatureHashVersion tx = .OVERWINTER ∨ signatureHashVersion tx = .SAPLING := by
    rw [overwintered.sigversion]
    split <;> simp
  unfold signatureHash at run
  split at run
  · cases run
  · rw [if_pos modern] at run
    exact overwinterHash_signed run

/-! The serialised transaction -/

namespace CMutableTransaction

/-- Without the scripts and signatures that are added after signing. -/
def unsigned (tx : CMutableTransaction) : CMutableTransaction :=
  { tx with
    vin := tx.vin.map (fun txin => { txin with scriptSig := [] })
    vShieldedSpend := tx.vShieldedSpend.map SpendDescription.withoutSig
    joinSplitSig := Vector.replicate 64 0
    bindingSig := Vector.replicate 64 0 }

variable {tx₁ tx₂ : CMutableTransaction}

/-- Two transactions are written alike when they agree on what their format carries. -/
theorem bytes_congr (flags : tx₁.fOverwintered = tx₂.fOverwintered)
    (versions : tx₁.nVersion = tx₂.nVersion) (groups : tx₁.nVersionGroupId = tx₂.nVersionGroupId)
    (vin : tx₁.vin = tx₂.vin) (vout : tx₁.vout = tx₂.vout)
    (lockTime : tx₁.nLockTime = tx₂.nLockTime)
    (expiryHeight : tx₁.nExpiryHeight = tx₂.nExpiryHeight)
    (sapling : tx₁.v4 → tx₁.valueBalance = tx₂.valueBalance ∧
      tx₁.vShieldedSpend = tx₂.vShieldedSpend ∧
      tx₁.vShieldedOutput = tx₂.vShieldedOutput ∧ tx₁.bindingSig = tx₂.bindingSig)
    (joinSplits : tx₁.vJoinSplit = tx₂.vJoinSplit)
    (joinSplitSig : tx₁.vJoinSplit ≠ [] → tx₁.joinSplitPubKey = tx₂.joinSplitPubKey ∧
      tx₁.joinSplitSig = tx₂.joinSplitSig) :
    tx₁.bytes = tx₂.bytes := by
  have v3 : tx₁.v3 = tx₂.v3 := by simp [CMutableTransaction.v3, flags, versions, groups]
  have v4 : tx₁.v4 = tx₂.v4 := by simp [CMutableTransaction.v4, flags, versions, groups]
  -- what only the Sapling format carries
  have amounts : (if tx₁.v4 then writeAmount tx₁.valueBalance else []) =
      if tx₂.v4 then writeAmount tx₂.valueBalance else [] := by grind
  have spends : (if tx₁.v4 then writeVector SpendDescription.bytes tx₁.vShieldedSpend else []) =
      if tx₂.v4 then writeVector SpendDescription.bytes tx₂.vShieldedSpend else [] := by grind
  have outputs : (if tx₁.v4 then writeVector OutputDescription.bytes tx₁.vShieldedOutput else []) =
      if tx₂.v4 then writeVector OutputDescription.bytes tx₂.vShieldedOutput else [] := by grind
  have binding : (if tx₁.hasBindingSig then writeBlob tx₁.bindingSig else []) =
      if tx₂.hasBindingSig then writeBlob tx₂.bindingSig else [] := by grind [hasBindingSig]
  have splits : tx₁.hasJoinSplits ↔ tx₂.hasJoinSplits := by
    rw [hasJoinSplits, hasJoinSplits, versions]
  have splitSig : tx₁.hasJoinSplitSig ↔ tx₂.hasJoinSplitSig := by
    rw [hasJoinSplitSig, hasJoinSplitSig, splits, joinSplits]
  have keys : (if tx₁.hasJoinSplitSig then writeUint256 tx₁.joinSplitPubKey else []) =
      if tx₂.hasJoinSplitSig then writeUint256 tx₂.joinSplitPubKey else [] := by
    grind [hasJoinSplitSig]
  have sigs : (if tx₁.hasJoinSplitSig then writeBlob tx₁.joinSplitSig else []) =
      if tx₂.hasJoinSplitSig then writeBlob tx₂.joinSplitSig else [] := by
    simp only [← splitSig]
    split
    · rename_i present
      rw [(joinSplitSig (length_pos_iff.mp present.2)).2]
    · rfl
  unfold bytes
  rw [amounts, spends, outputs, keys, sigs, binding]
  simp [flags, versions, groups, vin, vout, lockTime, expiryHeight, v3, v4, splits, joinSplits]

end CMutableTransaction

theorem map_prevout_nSequence {l m : List CTxIn}
    (prevouts : l.map CTxIn.prevout = m.map CTxIn.prevout)
    (sequences : l.map CTxIn.nSequence = m.map CTxIn.nSequence) :
    l.map (fun txin => { txin with scriptSig := [] }) =
      m.map (fun txin => { txin with scriptSig := [] }) := by
  have zipped := congrArg₂ (zipWith (fun prevout nSequence => (⟨prevout, [], nSequence⟩ : CTxIn)))
    prevouts sequences
  rw [zipWith_map, zipWith_map, zipWith_self, zipWith_self] at zipped
  exact zipped

/-- With `SIGHASH_ALL` nothing is left out but what is added by signing. -/
theorem Agree.unsigned_bytes (agree : Agree nIn SIGHASH_ALL tx₁ tx₂) :
    tx₁.unsigned.bytes = tx₂.unsigned.bytes := by
  have vin := map_prevout_nSequence (agree.prevouts (by decide))
    (agree.sequences (by decide) (by decide) (by decide))
  apply CMutableTransaction.bytes_congr
  case flags => exact agree.fOverwintered
  case versions => exact agree.nVersion
  case groups => exact agree.nVersionGroupId
  case vin => exact vin
  case vout => exact agree.outputs (by decide) (by decide)
  case lockTime => exact agree.nLockTime
  case expiryHeight => exact agree.nExpiryHeight
  case sapling =>
    intro isSapling
    obtain ⟨valueBalance, spends, outputs⟩ := agree.sapling isSapling
    exact ⟨valueBalance, spends, outputs, rfl⟩
  case joinSplits => exact agree.vJoinSplit
  case joinSplitSig =>
    intro present
    exact ⟨agree.joinSplitPubKey present, rfl⟩

/-! With and without a cache -/

/-- Two computations with the same value, whatever was hashed before. -/
def SameValue {α : Type} (m m' : Hashing α) : Prop := ∀ calls calls', m.run' calls = m'.run' calls'

namespace SameValue

variable {α β : Type} {H : HashFunctions}

protected theorem pure (a : α) : SameValue (pure a : Hashing α) (pure a) := fun _ _ => rfl

protected theorem lift (a : Option α) : SameValue (liftM a : Hashing α) (liftM a) := by
  intro calls calls'
  cases a <;> rfl

protected theorem bind {m m' : Hashing α} {next next' : α → Hashing β} (first : SameValue m m')
    (rest : ∀ a, SameValue (next a) (next' a)) : SameValue (m >>= next) (m' >>= next') := by
  intro calls calls'
  have values := first calls calls'
  change (m.run calls).map Prod.fst = (m'.run calls').map Prod.fst at values
  change ((m.run calls).bind fun p => (next p.1).run p.2).map Prod.fst =
    ((m'.run calls').bind fun p => (next' p.1).run p.2).map Prod.fst
  cases run : m.run calls with
  | none =>
    rw [run, Option.map_none, eq_comm, Option.map_eq_none_iff] at values
    rw [values]
    rfl
  | some p =>
    rw [run, Option.map_some, eq_comm, Option.map_eq_some_iff] at values
    obtain ⟨p', run', same⟩ := values
    rw [run', Option.bind_some, Option.bind_some, same]
    exact rest p.1 p.2 p'.2

protected theorem blake2bHash (personalization bytes : Bytes) :
    SameValue (blake2bHash H personalization bytes) (blake2bHash H personalization bytes) :=
  fun _ _ => rfl

protected theorem hashWhen {present : Prop} [Decidable present] {m m' : Hashing Uint256}
    (same : present → SameValue m m') :
    SameValue (hashWhen present m) (hashWhen present m') := by
  unfold hashWhen
  split
  · rename_i on
    exact same on
  · exact .pure 0

theorem cached {data : PrecomputedTransactionData} {field : PrecomputedTransactionData → Uint256}
    {m : Hashing Uint256} (value : ∀ calls, m.run' calls = some (field data)) :
    SameValue (Wire.cached (some data) field m) (Wire.cached none field m) :=
  fun _ calls' => (value calls').symm

end SameValue

section

variable {H : HashFunctions} {txTo : CMutableTransaction} {data : PrecomputedTransactionData}

variable {calls calls' : List (Bytes × Bytes)}

section

variable (run : (precompute H txTo).run calls = some (data, calls'))
include run

theorem precompute_eq :
    ProofsFit txTo ∧ data =
      { hashPrevouts := H.blake2b ZCASH_PREVOUTS_HASH_PERSONALIZATION
          (txTo.vin.flatMap (fun txin => txin.prevout.bytes))
        hashSequence := H.blake2b ZCASH_SEQUENCE_HASH_PERSONALIZATION
          (txTo.vin.flatMap (fun txin => writeUInt32 txin.nSequence))
        hashOutputs := H.blake2b ZCASH_OUTPUTS_HASH_PERSONALIZATION (txTo.vout.flatMap CTxOut.bytes)
        hashJoinSplits := H.blake2b ZCASH_JOINSPLITS_HASH_PERSONALIZATION
          (txTo.vJoinSplit.flatMap JSDescription.bytes ++ writeUint256 txTo.joinSplitPubKey)
        hashShieldedSpends := H.blake2b ZCASH_SHIELDED_SPENDS_HASH_PERSONALIZATION
          (txTo.vShieldedSpend.flatMap SpendDescription.signedBytes)
        hashShieldedOutputs := H.blake2b ZCASH_SHIELDED_OUTPUTS_HASH_PERSONALIZATION
          (txTo.vShieldedOutput.flatMap OutputDescription.bytes) } := by
  unfold precompute getJoinSplitsHash at run
  split at run
  · cases run
    exact ⟨‹_›, rfl⟩
  · cases run

/-- The cache of the same transaction does not change the value. -/
theorem signatureHash_cached
    (scriptCode : CScript) (nIn : UInt32)
    (nHashType : Int32) (amount : Int64) (consensusBranchId : UInt32) :
    SameValue (signatureHash H txTo scriptCode nIn nHashType amount consensusBranchId (some data))
      (signatureHash H txTo scriptCode nIn nHashType amount consensusBranchId none) := by
  obtain ⟨fit, same⟩ := precompute_eq run
  have joinSplits : ∀ calls, (getJoinSplitsHash H txTo).run' calls = some data.hashJoinSplits := by
    intro _
    unfold ProofsFit at fit
    rw [getJoinSplitsHash, if_pos fit, same]
    rfl
  have outputs : SameValue (sigHashOutputs H txTo nIn nHashType (some data))
      (sigHashOutputs H txTo nIn nHashType none) := by
    unfold sigHashOutputs
    split
    · exact .cached (fun _ => by rw [same]; rfl)
    · grind [SameValue.blake2bHash, SameValue.pure]
  unfold signatureHash
  dsimp only
  split
  · exact fun _ _ => rfl
  · split
    · unfold overwinterHash
      apply SameValue.bind (.hashWhen (fun _ => .cached (fun _ => by rw [same]; rfl)))
      intro _
      apply SameValue.bind (.hashWhen (fun _ => .cached (fun _ => by rw [same]; rfl)))
      intro _
      apply SameValue.bind outputs
      intro _
      apply SameValue.bind (.hashWhen (fun _ => .cached joinSplits))
      intro _
      apply SameValue.bind (.hashWhen (fun _ => .cached (fun _ => by rw [same]; rfl)))
      intro _
      apply SameValue.bind (.hashWhen (fun _ => .cached (fun _ => by rw [same]; rfl)))
      intro _
      apply SameValue.bind (.lift _)
      intro _
      exact .blake2bHash _ _
    · unfold sproutHash
      split
      · exact fun _ _ => rfl
      · apply SameValue.bind (.lift _)
        intro _
        exact .pure _

end

end

end Wire

end Zcashd.Source
