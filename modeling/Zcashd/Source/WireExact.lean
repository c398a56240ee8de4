import Zcashd.Source.Wire

/-!
The wire format is exact: what is read is what was written, and each transaction that can be
read has one encoding. Field by field along `SerializationOp`, for each part and then for the
transaction.
-/
namespace Zcashd.Source.Wire

open Lib Wire.SpendDescription Wire.JSDescription Decoder

theorem readUInt32_exact : Exact readUInt32 writeUInt32 (fun _ => True) := by
  refine (readData_exact 4).map UInt32.ofNat UInt32.toNat (fun n bound => ?_)
    (fun n _ => ⟨n.toNat_lt, ?_⟩)
  · have value : (UInt32.ofNat n).toNat = n := UInt32.toNat_ofNat_of_lt bound
    exact ⟨trivial, value, by rw [writeUInt32, value]⟩
  · exact UInt32.ofNat_toNat

theorem readAmount_exact : Exact readAmount writeAmount (fun _ => True) := by
  refine (readData_exact 8).map (fun n => (UInt64.ofNat n).toInt64) (fun n => n.toUInt64.toNat)
    (fun n bound => ?_) (fun n _ => ⟨n.toUInt64.toNat_lt, ?_⟩)
  · have value : (UInt64.ofNat n).toInt64.toUInt64.toNat = n := UInt64.toNat_ofNat_of_lt bound
    exact ⟨trivial, value, by rw [writeAmount, value]⟩
  · rw [UInt64.ofNat_toNat]
    rfl

section

variable {α : Type} {read : Decoder α} {write : α → Bytes} {valid : α → Prop}

theorem toList_succ {n : Nat} (v : Vector α (n + 1)) : v.toList = v.pop.toList ++ [v.back] := by
  have split : v.pop.push v.back = v := Vector.push_pop_back v
  rw [← Vector.toList_push, split]

theorem readArray_exact (each : Exact read write valid) (n : Nat) :
    Exact (readArray read n) (writeArray write) (fun v => ∀ a ∈ v.toList, valid a) := by
  induction n with
  | zero =>
    intro _ v _
    rw [readArray, pure_eq_some]
    obtain rfl : v = #v[] := Vector.eq_empty
    simp [writeArray]
  | succ n ih =>
    have all : ∀ last (v : Vector α (n + 1)) (init : Vector α n),
        v.back = last ∧ v.pop = init ∧ True ↔ v = init.push last := by
      intro _ v _
      constructor
      · rintro ⟨rfl, rfl, -⟩
        exact (Vector.push_pop_back v).symm
      · rintro rfl
        exact ⟨by simp [Vector.back], Vector.pop_push, trivial⟩
    have whole : Continues (fun _ => True) (readArray read (n + 1)) _ _ :=
      .field ih (fun v : Vector α (n + 1) => v.pop)
        (fun init => .last each Vector.back (fun last v => all last v init))
    refine whole.exact.congr (fun v => ?_) (fun v _ => ?_)
    · rw [toList_succ v, List.forall_mem_append, List.forall_mem_singleton]
    · rw [writeArray, toList_succ v, List.flatMap_append, List.flatMap_singleton]
      rfl

theorem readBlob_exact (n : Nat) : Exact (readBlob n) writeBlob (fun _ => True) :=
  (readArray_exact Exact.byte n).congr (fun _ => by simp) (fun _ _ => rfl)

theorem readHashes_exact (n : Nat) :
    Exact (readArray readUint256 n) (writeArray writeUint256) (fun _ => True) :=
  (readArray_exact readUint256_exact n).congr (fun _ => by simp) (fun _ _ => rfl)

theorem readScript_exact : Exact readScript writeScript (fun script => script.length ≤ MAX_SIZE) :=
  (readVector_exact Exact.byte).congr (fun _ => by simp) (fun _ _ => rfl)

end

/-! Proofs -/

/-- A leading byte other than the mask and the mask with its last bit set is refused. -/
theorem readLeadingByte_exact {mask : UInt8}
    (isMask : mask = G1_PREFIX_MASK ∨ mask = G2_PREFIX_MASK) :
    Exact (readLeadingByte mask) (writeLeadingByte mask) (fun _ => True) := by
  have out : ∀ byte : UInt8, byte &&& 0xFE = mask →
      [byte] = writeLeadingByte mask (byte &&& 1 == 1) := by
    rintro ⟨⟨i⟩⟩
    obtain rfl | rfl := isMask
    · revert i
      decide +kernel
    · revert i
      decide +kernel
  have read : ∀ sign : Bool, (if sign then mask ||| 1 else mask) &&& 0xFE = mask ∧
      ((if sign then mask ||| 1 else mask) &&& 1 == 1) = sign := by
    obtain rfl | rfl := isMask
    · decide
    · decide
  apply Exact.of_decodes
  · intro sign _ rest
    obtain ⟨masked, last⟩ := read sign
    refine bind_eq_some.mpr ⟨if sign then mask ||| 1 else mask, rest, rfl, ?_⟩
    rw [if_neg (not_not_intro masked), last]
    rfl
  · intro _ _ _ reads
    obtain ⟨byte, _, first, body⟩ := bind_eq_some.mp reads
    obtain ⟨-, rfl⟩ := (Exact.byte _ _ _).mp first
    split at body
    · cases body
    · rename_i masked
      obtain ⟨rfl, rfl⟩ := pure_eq_some.mp body
      exact ⟨trivial, by rw [← out byte (not_not.mp masked)]⟩

theorem CompressedG1.unserialize_exact :
    Exact CompressedG1.unserialize CompressedG1.bytes (fun _ => True) := by
  have whole : Continues (fun _ => True) CompressedG1.unserialize _ _ :=
    .field (readLeadingByte_exact (.inl rfl)) CompressedG1.y_lsb (fun _ =>
    .last readUint256_exact CompressedG1.x (fun _ p => by cases p; grind))
  exact whole.exact.congr (fun _ => by simp) (fun _ _ => rfl)

theorem CompressedG2.unserialize_exact :
    Exact CompressedG2.unserialize CompressedG2.bytes (fun _ => True) := by
  have whole : Continues (fun _ => True) CompressedG2.unserialize _ _ :=
    .field (readLeadingByte_exact (.inr rfl)) CompressedG2.y_gt (fun _ =>
    .last (readBlob_exact 64) CompressedG2.x (fun _ p => by cases p; grind))
  exact whole.exact.congr (fun _ => by simp) (fun _ _ => rfl)

theorem PHGRProof.unserialize_exact :
    Exact PHGRProof.unserialize PHGRProof.bytes (fun _ => True) := by
  have g1 := CompressedG1.unserialize_exact
  have whole : Continues (fun _ => True) PHGRProof.unserialize _ _ :=
    .field g1 PHGRProof.g_A (fun _ =>
    .field g1 PHGRProof.g_A_prime (fun _ =>
    .field CompressedG2.unserialize_exact PHGRProof.g_B (fun _ =>
    .field g1 PHGRProof.g_B_prime (fun _ =>
    .field g1 PHGRProof.g_C (fun _ =>
    .field g1 PHGRProof.g_C_prime (fun _ =>
    .field g1 PHGRProof.g_K (fun _ =>
    .last g1 PHGRProof.g_H (fun _ p => by cases p; grind))))))))
  exact whole.exact.congr (fun _ => by simp) (fun _ _ => rfl)

theorem SproutProof.unserialize_exact (useGroth : Bool) :
    Exact (SproutProof.unserialize useGroth) SproutProof.bytes
      (fun proof => proof.isFor useGroth) := by
  apply Exact.of_decodes
  · rintro (proof | proof) kind
    · cases useGroth with
      | true => cases kind
      | false => exact (PHGRProof.unserialize_exact.decodes trivial).last SproutProof.phgr
    · cases useGroth with
      | true => exact ((readBlob_exact 192).decodes trivial).last SproutProof.groth
      | false => cases kind
  · intro _ _ _ reads
    cases useGroth with
    | true =>
      obtain ⟨_, _, first, last⟩ := bind_eq_some.mp reads
      obtain ⟨rfl, rfl⟩ := pure_eq_some.mp last
      obtain ⟨-, rfl⟩ := (readBlob_exact 192 _ _ _).mp first
      exact ⟨rfl, rfl⟩
    | false =>
      obtain ⟨_, _, first, last⟩ := bind_eq_some.mp reads
      obtain ⟨rfl, rfl⟩ := pure_eq_some.mp last
      obtain ⟨-, rfl⟩ := (PHGRProof.unserialize_exact _ _ _).mp first
      exact ⟨rfl, rfl⟩

/-! The parts of a transaction -/

theorem SpendDescription.unserialize_exact :
    Exact unserialize SpendDescription.bytes (fun _ => True) := by
  have hash := readUint256_exact
  have whole : Continues (fun _ => True) unserialize _ _ :=
    .field hash cv (fun _ =>
    .field hash anchor (fun _ =>
    .field hash nullifier (fun _ =>
    .field hash rk (fun _ =>
    .field (readBlob_exact 192) zkproof (fun _ =>
    .last (readBlob_exact 64) spendAuthSig (fun _ d => by cases d; grind))))))
  exact whole.exact.congr (fun _ => by simp) (fun _ _ => rfl)

theorem OutputDescription.unserialize_exact :
    Exact OutputDescription.unserialize OutputDescription.bytes (fun _ => True) := by
  have hash := readUint256_exact
  have whole : Continues (fun _ => True) OutputDescription.unserialize _ _ :=
    .field hash OutputDescription.cv (fun _ =>
    .field hash OutputDescription.cmu (fun _ =>
    .field hash OutputDescription.ephemeralKey (fun _ =>
    .field (readBlob_exact 580) OutputDescription.encCiphertext (fun _ =>
    .field (readBlob_exact 80) OutputDescription.outCiphertext (fun _ =>
    .last (readBlob_exact 192) OutputDescription.zkproof (fun _ d => by cases d; grind))))))
  exact whole.exact.congr (fun _ => by simp) (fun _ _ => rfl)

theorem JSDescription.unserialize_exact (useGroth : Bool) :
    Exact (JSDescription.unserialize useGroth) JSDescription.bytes
      (fun d => d.proof.isFor useGroth) := by
  have hash := readUint256_exact
  have hashes := readHashes_exact 2
  have ciphertexts : Exact (readArray (readBlob 601) 2) (writeArray writeBlob) (fun _ => True) :=
    (readArray_exact (readBlob_exact 601) 2).congr (fun _ => by simp) (fun _ _ => rfl)
  have whole : Continues (fun _ => True) (JSDescription.unserialize useGroth) _ _ :=
    .field readAmount_exact vpub_old (fun _ =>
    .field readAmount_exact vpub_new (fun _ =>
    .field hash JSDescription.anchor (fun _ =>
    .field hashes nullifiers (fun _ =>
    .field hashes commitments (fun _ =>
    .field hash ephemeralKey (fun _ =>
    .field hash randomSeed (fun _ =>
    .field hashes macs (fun _ =>
    .field (SproutProof.unserialize_exact useGroth) JSDescription.proof (fun _ =>
    .last ciphertexts JSDescription.ciphertexts (fun _ d => by cases d; grind))))))))))
  exact whole.exact.congr (fun _ => by simp) (fun _ _ => rfl)

theorem COutPoint.unserialize_exact :
    Exact COutPoint.unserialize COutPoint.bytes (fun _ => True) := by
  have whole : Continues (fun _ => True) COutPoint.unserialize _ _ :=
    .field readUint256_exact COutPoint.hash (fun _ =>
    .last readUInt32_exact COutPoint.n (fun _ o => by cases o; grind))
  exact whole.exact.congr (fun _ => by simp) (fun _ _ => rfl)

theorem CTxIn.unserialize_exact :
    Exact CTxIn.unserialize CTxIn.bytes (fun txin => txin.scriptSig.length ≤ MAX_SIZE) := by
  have whole : Continues (fun _ => True) CTxIn.unserialize _ _ :=
    .field COutPoint.unserialize_exact CTxIn.prevout (fun _ =>
    .field readScript_exact CTxIn.scriptSig (fun _ =>
    .last readUInt32_exact CTxIn.nSequence (fun _ txin => by cases txin; grind)))
  exact whole.exact.congr (fun _ => by simp) (fun _ _ => rfl)

theorem CTxOut.unserialize_exact :
    Exact CTxOut.unserialize CTxOut.bytes (fun txout => txout.scriptPubKey.length ≤ MAX_SIZE) := by
  have whole : Continues (fun _ => True) CTxOut.unserialize _ _ :=
    .field readAmount_exact CTxOut.nValue (fun _ =>
    .last readScript_exact CTxOut.scriptPubKey (fun _ txout => by cases txout; grind))
  exact whole.exact.congr (fun _ => by simp) (fun _ _ => rfl)

/-! The header -/

theorem nonneg_iff (v : Int32) : 0 ≤ v ↔ v.toUInt32.toNat < 2 ^ 31 := by
  have value : v.toInt = v.toUInt32.toBitVec.toInt := rfl
  have same : v.toUInt32.toBitVec.toNat = v.toUInt32.toNat := rfl
  rw [Int32.le_iff_toInt_le, value, BitVec.toInt_eq_toNat_cond, same]
  split <;> simp <;> omega

theorem toNat_or_top {x : UInt32} (low : x.toNat < 2 ^ 31) :
    (x ||| 0x80000000).toNat = x.toNat + 2 ^ 31 := by
  have sum := Nat.two_pow_add_eq_or_of_lt low 1
  rw [Nat.mul_one] at sum
  rw [UInt32.toNat_or, Nat.add_comm, sum, Nat.or_comm]
  rfl

theorem toNat_and_low (h : UInt32) : (h &&& 0x7FFFFFFF).toNat = h.toNat % 2 ^ 31 := by
  rw [UInt32.toNat_and]
  exact Nat.and_two_pow_sub_one_eq_mod h.toNat 31

theorem top_bit (h : UInt32) : (h >>> 31 != 0) = decide (2 ^ 31 ≤ h.toNat) := by
  have shifted : (h >>> 31).toNat = h.toNat / 2 ^ 31 := by
    rw [UInt32.toNat_shiftRight]
    simp [Nat.shiftRight_eq_div_pow]
  rw [Bool.eq_iff_iff, bne_iff_ne, ne_eq, ← UInt32.toNat_inj, shifted]
  simp

theorem toNat_header {fOverwintered : Bool} {nVersion : Int32}
    (low : nVersion.toUInt32.toNat < 2 ^ 31) :
    (header fOverwintered nVersion).toNat = nVersion.toUInt32.toNat + if fOverwintered then 2 ^ 31
      else 0 := by
  cases fOverwintered with
  | true => exact toNat_or_top low
  | false => rfl

/-- The header of a version that is not negative. -/
theorem readHeader_exact :
    Exact readHeader (fun p => writeUInt32 (header p.1 p.2)) (fun p => 0 ≤ p.2) := by
  refine readUInt32_exact.map (fun h => (h >>> 31 != 0, (h &&& 0x7FFFFFFF).toInt32))
    (fun p => header p.1 p.2) (fun h _ => ?_) (fun p nonneg => ⟨trivial, ?_⟩)
  · have masked : ((h &&& 0x7FFFFFFF).toInt32).toUInt32.toNat = h.toNat % 2 ^ 31 := toNat_and_low h
    have low : ((h &&& 0x7FFFFFFF).toInt32).toUInt32.toNat < 2 ^ 31 := by omega
    have whole : header (h >>> 31 != 0) (h &&& 0x7FFFFFFF).toInt32 = h := by
      apply UInt32.toNat_inj.mp
      rw [toNat_header low, masked, top_bit]
      have bound := h.toNat_lt
      split
      · rename_i top
        rw [decide_eq_true_iff] at top
        omega
      · rename_i top
        rw [decide_eq_true_iff] at top
        omega
    exact ⟨(nonneg_iff _).mpr low, whole, by rw [whole]⟩
  · obtain ⟨fOverwintered, nVersion⟩ := p
    have low := (nonneg_iff nVersion).mp nonneg
    have value : (header fOverwintered nVersion).toNat = _ := toNat_header low
    have version : header fOverwintered nVersion &&& 0x7FFFFFFF = nVersion.toUInt32 := by
      apply UInt32.toNat_inj.mp
      rw [toNat_and_low, value]
      split <;> omega
    have flag : (header fOverwintered nVersion >>> 31 != 0) = fOverwintered := by
      rw [top_bit, value]
      cases fOverwintered <;> simp
      omega
    simp only [version, flag]
    rfl

/-! The transaction -/

namespace CMutableTransaction

/-- A transaction that can be written and read again: a header that keeps its version, vectors
and scripts within the limit of `ReadCompactSize`, proofs of the right kind. -/
structure Fits (tx : CMutableTransaction) : Prop where
  version : 0 ≤ tx.nVersion
  format : tx.unknownFormat = false
  vin : tx.vin.length ≤ MAX_SIZE ∧ ∀ txin ∈ tx.vin, txin.scriptSig.length ≤ MAX_SIZE
  vout : tx.vout.length ≤ MAX_SIZE ∧ ∀ txout ∈ tx.vout, txout.scriptPubKey.length ≤ MAX_SIZE
  shieldedSpends : tx.v4 → tx.vShieldedSpend.length ≤ MAX_SIZE
  shieldedOutputs : tx.v4 → tx.vShieldedOutput.length ≤ MAX_SIZE
  joinSplits : tx.hasJoinSplits → tx.vJoinSplit.length ≤ MAX_SIZE
  proofs : tx.proofsFit

/-- The fields that the format of `tx` does not carry are those of `o`. -/
structure Keeps (o tx : CMutableTransaction) : Prop where
  nVersionGroupId : ¬ tx.fOverwintered → tx.nVersionGroupId = o.nVersionGroupId
  nExpiryHeight : ¬ (tx.v3 || tx.v4) → tx.nExpiryHeight = o.nExpiryHeight
  valueBalance : ¬ tx.v4 → tx.valueBalance = o.valueBalance
  vShieldedSpend : ¬ tx.v4 → tx.vShieldedSpend = o.vShieldedSpend
  vShieldedOutput : ¬ tx.v4 → tx.vShieldedOutput = o.vShieldedOutput
  vJoinSplit : ¬ tx.hasJoinSplits → tx.vJoinSplit = o.vJoinSplit
  joinSplitPubKey : ¬ tx.hasJoinSplitSig → tx.joinSplitPubKey = o.joinSplitPubKey
  joinSplitSig : ¬ tx.hasJoinSplitSig → tx.joinSplitSig = o.joinSplitSig
  bindingSig : ¬ tx.hasBindingSig → tx.bindingSig = o.bindingSig

end CMutableTransaction

namespace CMutableTransaction

/-- `Fits` and `Keeps` in the order of the fields. -/
def ReadInto (o tx : CMutableTransaction) : Prop :=
  0 ≤ tx.nVersion ∧
  (if tx.fOverwintered then True else tx.nVersionGroupId = o.nVersionGroupId) ∧
  ¬ tx.unknownFormat ∧
  (tx.vin.length ≤ MAX_SIZE ∧ ∀ txin ∈ tx.vin, txin.scriptSig.length ≤ MAX_SIZE) ∧
  (tx.vout.length ≤ MAX_SIZE ∧ ∀ txout ∈ tx.vout, txout.scriptPubKey.length ≤ MAX_SIZE) ∧
  True ∧
  (if tx.v3 || tx.v4 then True else tx.nExpiryHeight = o.nExpiryHeight) ∧
  (if tx.v4 then True else tx.valueBalance = o.valueBalance) ∧
  (if tx.v4 then tx.vShieldedSpend.length ≤ MAX_SIZE ∧ ∀ spend ∈ tx.vShieldedSpend, True
    else tx.vShieldedSpend = o.vShieldedSpend) ∧
  (if tx.v4 then tx.vShieldedOutput.length ≤ MAX_SIZE ∧ ∀ output ∈ tx.vShieldedOutput, True
    else tx.vShieldedOutput = o.vShieldedOutput) ∧
  (if tx.hasJoinSplits then tx.vJoinSplit.length ≤ MAX_SIZE ∧
      ∀ joinsplit ∈ tx.vJoinSplit, joinsplit.proof.isFor (useGroth tx.fOverwintered tx.nVersion)
    else tx.vJoinSplit = o.vJoinSplit) ∧
  (if tx.hasJoinSplitSig then True else tx.joinSplitPubKey = o.joinSplitPubKey) ∧
  (if tx.hasJoinSplitSig then True else tx.joinSplitSig = o.joinSplitSig) ∧
  (if tx.hasBindingSig then True else tx.bindingSig = o.bindingSig)

/-- Field by field along `SerializationOp`. The conditions are on fields that were read before. -/
theorem unserializeInto_continues (o : CMutableTransaction) :
    Continues (fun _ => True) (unserializeInto o) bytes o.ReadInto := by
  refine .field readHeader_exact
    (fun tx : CMutableTransaction => (tx.fOverwintered, tx.nVersion)) ?_
  rintro ⟨fOverwintered, nVersion⟩
  refine .fieldIf readUInt32_exact _ nVersionGroupId (fun tx => tx.fOverwintered) ?_
    (fun nVersionGroupId => ?_)
  · rintro _ ⟨⟨⟩, -⟩
    exact ⟨Iff.rfl, Iff.rfl⟩
  refine .refuse (fun tx : CMutableTransaction => tx.unknownFormat) ?_ ?_
  · rintro _ ⟨rfl, ⟨⟩, -⟩
    rfl
  refine .field (readVector_exact CTxIn.unserialize_exact) CMutableTransaction.vin (fun _ => ?_)
  refine .field (readVector_exact CTxOut.unserialize_exact) CMutableTransaction.vout (fun _ => ?_)
  refine .field readUInt32_exact nLockTime (fun _ => ?_)
  refine .fieldIf readUInt32_exact _ nExpiryHeight (fun tx => tx.v3 || tx.v4) ?_ (fun _ => ?_)
  · rintro _ ⟨-, -, -, rfl, ⟨⟩, -⟩
    exact ⟨Iff.rfl, Iff.rfl⟩
  refine .fieldIf readAmount_exact _ valueBalance (fun tx => tx.v4) ?_ (fun _ => ?_)
  · rintro _ ⟨-, -, -, -, rfl, ⟨⟩, -⟩
    exact ⟨Iff.rfl, Iff.rfl⟩
  refine .fieldIf (readVector_exact unserialize_exact) _ vShieldedSpend (fun tx => tx.v4) ?_
    (fun _ => ?_)
  · rintro _ ⟨-, -, -, -, -, rfl, ⟨⟩, -⟩
    exact ⟨Iff.rfl, Iff.rfl⟩
  refine .fieldIf (readVector_exact OutputDescription.unserialize_exact) _ vShieldedOutput
    (fun tx => tx.v4) ?_ (fun _ => ?_)
  · rintro _ ⟨-, -, -, -, -, -, rfl, ⟨⟩, -⟩
    exact ⟨Iff.rfl, Iff.rfl⟩
  refine .fieldIf
    (readVector_exact (JSDescription.unserialize_exact (useGroth fOverwintered nVersion)))
    _ vJoinSplit (fun tx => tx.hasJoinSplits) ?_ (fun _ => ?_)
  · rintro _ ⟨-, -, -, -, -, -, -, -, ⟨⟩, -⟩
    exact ⟨Iff.rfl, Iff.rfl⟩
  refine .fieldIf readUint256_exact _ joinSplitPubKey (fun tx => tx.hasJoinSplitSig) ?_
    (fun _ => ?_)
  · rintro _ ⟨rfl, -, -, -, -, -, -, -, -, ⟨⟩, -⟩
    exact ⟨Iff.rfl, Iff.rfl⟩
  refine .fieldIf (readBlob_exact 64) _ joinSplitSig (fun tx => tx.hasJoinSplitSig) ?_ (fun _ => ?_)
  · rintro _ ⟨-, rfl, -, -, -, -, -, -, -, -, ⟨⟩, -⟩
    exact ⟨Iff.rfl, Iff.rfl⟩
  refine .lastIf (readBlob_exact 64) _ bindingSig (fun tx => tx.hasBindingSig) ?_ ?_
  · rintro _ ⟨-, -, -, rfl, rfl, -, -, -, -, -, rfl, ⟨⟩, -⟩
    exact ⟨Iff.rfl, Iff.rfl⟩
  · rintro _ ⟨⟩
    grind

theorem readInto_iff {o tx : CMutableTransaction} : o.ReadInto tx ↔ tx.Fits ∧ o.Keeps tx := by
  simp only [ReadInto, ite_prop_iff_and]
  constructor
  · rintro ⟨version, ⟨-, groupId⟩, format, vin, vout, -, ⟨-, expiry⟩, ⟨-, balance⟩,
      ⟨spends, noSpends⟩,
      ⟨outputs, noOutputs⟩, ⟨joinSplits, noJoinSplits⟩, ⟨-, pubKey⟩, ⟨-, sig⟩, ⟨-, binding⟩⟩
    refine ⟨⟨version, by simpa using format, vin, vout, fun v4 => (spends v4).1,
      fun v4 => (outputs v4).1, fun has => (joinSplits has).1, fun has => (joinSplits has).2⟩, ?_⟩
    exact ⟨groupId, expiry, balance, noSpends, noOutputs, noJoinSplits, pubKey, sig, binding⟩
  · rintro ⟨⟨version, format, vin, vout, spends, outputs, joinSplits, proofs⟩,
      ⟨groupId, expiry, balance, noSpends, noOutputs, noJoinSplits, pubKey, sig, binding⟩⟩
    have yes : ∀ {p : Prop}, p → True := fun _ => trivial
    refine ⟨version, ⟨yes, groupId⟩, by simp [format], vin, vout, trivial, ⟨yes, expiry⟩,
      ⟨yes, balance⟩, ?_, ?_, ?_, ⟨yes, pubKey⟩, ⟨yes, sig⟩, ⟨yes, binding⟩⟩
    · exact ⟨fun v4 => ⟨spends v4, fun _ _ => trivial⟩, noSpends⟩
    · exact ⟨fun v4 => ⟨outputs v4, fun _ _ => trivial⟩, noOutputs⟩
    · exact ⟨fun has => ⟨joinSplits has, proofs has⟩, noJoinSplits⟩

/-- What reading into an object accepts, and what it makes of it. -/
theorem unserializeInto_exact (o : CMutableTransaction) :
    Exact (unserializeInto o) bytes (fun tx => tx.Fits ∧ o.Keeps tx) :=
  (unserializeInto_continues o).exact.congr (fun _ => readInto_iff.symm) (fun _ _ => rfl)

theorem Fits.serialize {tx : CMutableTransaction} (fits : tx.Fits) :
    tx.serialize = some tx.bytes := by
  rw [CMutableTransaction.serialize, if_pos]
  exact ⟨by simp [fits.format], fits.proofs⟩

end CMutableTransaction

end Zcashd.Source.Wire
