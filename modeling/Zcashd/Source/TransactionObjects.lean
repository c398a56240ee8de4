import Zcashd.Source.WireExact

/-!
Transaction objects: `CTransaction` keeps its hash beside the members, which are copied by hand
in each constructor and in `operator=`; the deserialiser writes the members that the format
carries and leaves the others as they were.
-/
namespace Zcashd.Source.Wire

open Lib

namespace CMutableTransaction

/-- The members of `o` after those that the format of `tx` carries were taken from `tx`. -/
def onto (tx o : CMutableTransaction) : CMutableTransaction where
  fOverwintered := tx.fOverwintered
  nVersion := tx.nVersion
  nVersionGroupId := if tx.fOverwintered then tx.nVersionGroupId else o.nVersionGroupId
  vin := tx.vin
  vout := tx.vout
  nLockTime := tx.nLockTime
  nExpiryHeight := if tx.v3 || tx.v4 then tx.nExpiryHeight else o.nExpiryHeight
  valueBalance := if tx.v4 then tx.valueBalance else o.valueBalance
  vShieldedSpend := if tx.v4 then tx.vShieldedSpend else o.vShieldedSpend
  vShieldedOutput := if tx.v4 then tx.vShieldedOutput else o.vShieldedOutput
  vJoinSplit := if tx.hasJoinSplits then tx.vJoinSplit else o.vJoinSplit
  joinSplitPubKey := if tx.hasJoinSplitSig then tx.joinSplitPubKey else o.joinSplitPubKey
  joinSplitSig := if tx.hasJoinSplitSig then tx.joinSplitSig else o.joinSplitSig
  bindingSig := if tx.hasBindingSig then tx.bindingSig else o.bindingSig

/-- The serialised fields; the others have their defaults. -/
def carried (tx : CMutableTransaction) : CMutableTransaction := tx.onto fresh

section

variable (tx o : CMutableTransaction)

@[simp]
theorem onto_fOverwintered : (tx.onto o).fOverwintered = tx.fOverwintered := rfl

@[simp]
theorem onto_v3 : (tx.onto o).v3 = tx.v3 := by
  cases overwintered : tx.fOverwintered <;> simp [v3, isOverwinterV3, onto, overwintered]

@[simp]
theorem onto_v4 : (tx.onto o).v4 = tx.v4 := by
  cases overwintered : tx.fOverwintered <;> simp [v4, isSaplingV4, onto, overwintered]

@[simp]
theorem onto_unknownFormat : (tx.onto o).unknownFormat = tx.unknownFormat := by
  rw [unknownFormat, onto_v3, onto_v4]
  rfl

@[simp]
theorem onto_hasJoinSplits : (tx.onto o).hasJoinSplits ↔ tx.hasJoinSplits := Iff.rfl

@[simp]
theorem onto_hasJoinSplitSig : (tx.onto o).hasJoinSplitSig ↔ tx.hasJoinSplitSig := by
  simp only [hasJoinSplitSig, onto_hasJoinSplits]
  refine and_congr_right fun has => ?_
  simp [onto, has]

@[simp]
theorem onto_hasBindingSig : (tx.onto o).hasBindingSig = tx.hasBindingSig := by
  rw [hasBindingSig, onto_v4, hasBindingSig]
  cases v4 : tx.v4 <;> simp [onto, v4]

@[simp]
theorem onto_proofsFit : (tx.onto o).proofsFit ↔ tx.proofsFit := by
  simp only [proofsFit, onto_hasJoinSplits]
  refine imp_congr_right fun has => ?_
  simp [onto, has]

/-- What is not carried does not matter to the bytes. -/
theorem onto_bytes : (tx.onto o).bytes = tx.bytes := by
  simp only [bytes, onto_fOverwintered, onto_v3, onto_v4, onto_hasJoinSplits, onto_hasJoinSplitSig,
    onto_hasBindingSig]
  by_cases overwintered :
    tx.fOverwintered <;> simp +contextual only [onto, overwintered, ↓reduceIte]

theorem onto_fits : (tx.onto o).Fits ↔ tx.Fits := by
  constructor
  · intro fits
    obtain ⟨version, format, vin, vout, spends, outputs, joinSplits, proofs⟩ := fits
    simp only [onto_unknownFormat, onto_v4, onto_hasJoinSplits,
      onto_proofsFit] at format spends outputs joinSplits proofs
    refine ⟨version, format, vin, vout, fun v4 => ?_, fun v4 => ?_, fun has => ?_, proofs⟩
    · simpa [onto, v4] using spends v4
    · simpa [onto, v4] using outputs v4
    · simpa [onto, has] using joinSplits has
  · rintro ⟨version, format, vin, vout, spends, outputs, joinSplits, proofs⟩
    refine ⟨version, by simpa using format, vin, vout, ?_, ?_, ?_, by simpa using proofs⟩
    · intro v4
      rw [onto_v4] at v4
      simpa [onto, v4] using spends v4
    · intro v4
      rw [onto_v4] at v4
      simpa [onto, v4] using outputs v4
    · intro has
      rw [onto_hasJoinSplits] at has
      simpa [onto, has] using joinSplits has

theorem keeps_onto : o.Keeps (tx.onto o) where
  nVersionGroupId := fun without => if_neg without
  nExpiryHeight := fun without => if_neg (by rwa [onto_v3, onto_v4] at without)
  valueBalance := fun without => if_neg (by rwa [onto_v4] at without)
  vShieldedSpend := fun without => if_neg (by rwa [onto_v4] at without)
  vShieldedOutput := fun without => if_neg (by rwa [onto_v4] at without)
  vJoinSplit := fun without => if_neg without
  joinSplitPubKey := fun without => if_neg (by rwa [onto_hasJoinSplitSig] at without)
  joinSplitSig := fun without => if_neg (by rwa [onto_hasJoinSplitSig] at without)
  bindingSig := fun without => if_neg (by rwa [onto_hasBindingSig] at without)

end

/-- Reading what `tx` writes into `o` leaves what the format does not carry. -/
theorem Fits.unserializeInto {tx : CMutableTransaction} (fits : tx.Fits) (o : CMutableTransaction) :
    Decodes (unserializeInto o) tx.bytes (tx.onto o) := by
  have read := (unserializeInto_exact o).decodes ⟨(onto_fits tx o).mpr fits, keeps_onto tx o⟩
  rwa [onto_bytes] at read

/-- The members that `CTransaction(CMutableTransaction &&tx)` takes from `tx`: `bindingSig` is
not in its list and stays as it is initialised. -/
def moved (tx : CMutableTransaction) : CMutableTransaction where
  fOverwintered := tx.fOverwintered
  nVersion := tx.nVersion
  nVersionGroupId := tx.nVersionGroupId
  vin := tx.vin
  vout := tx.vout
  nLockTime := tx.nLockTime
  nExpiryHeight := tx.nExpiryHeight
  valueBalance := tx.valueBalance
  vShieldedSpend := tx.vShieldedSpend
  vShieldedOutput := tx.vShieldedOutput
  vJoinSplit := tx.vJoinSplit
  joinSplitPubKey := tx.joinSplitPubKey
  joinSplitSig := tx.joinSplitSig
  bindingSig := Vector.replicate 64 0

/-- A member that the format carries, or that is the one of `m` or the default. -/
def Own {α : Type} (carried : Prop) (own default got : α) : Prop :=
  carried ∨ got = own ∨ got = default

/-- Of the members that the format of `m` does not carry, `tx` shows nothing but those of `m` and
defaults. -/
def OnlyOf (m tx : CMutableTransaction) : Prop :=
  Own m.fOverwintered m.nVersionGroupId fresh.nVersionGroupId tx.nVersionGroupId ∧
  Own (m.v3 || m.v4) m.nExpiryHeight fresh.nExpiryHeight tx.nExpiryHeight ∧
  Own m.v4 m.valueBalance fresh.valueBalance tx.valueBalance ∧
  Own m.v4 m.vShieldedSpend fresh.vShieldedSpend tx.vShieldedSpend ∧
  Own m.v4 m.vShieldedOutput fresh.vShieldedOutput tx.vShieldedOutput ∧
  Own m.hasJoinSplits m.vJoinSplit fresh.vJoinSplit tx.vJoinSplit ∧
  Own m.hasJoinSplitSig m.joinSplitPubKey fresh.joinSplitPubKey tx.joinSplitPubKey ∧
  Own m.hasJoinSplitSig m.joinSplitSig fresh.joinSplitSig tx.joinSplitSig ∧
  Own m.hasBindingSig m.bindingSig fresh.bindingSig tx.bindingSig

theorem OnlyOf.moved {m tx : CMutableTransaction} (only : OnlyOf m tx) : OnlyOf m tx.moved := by
  obtain ⟨h₁, h₂, h₃, h₄, h₅, h₆, h₇, h₈, -⟩ := only
  exact ⟨h₁, h₂, h₃, h₄, h₅, h₆, h₇, h₈, .inr (.inr rfl)⟩

variable (tx : CMutableTransaction)
include tx

end CMutableTransaction

/-- A `CTransaction`: the members and the hash. -/
structure CTransaction extends CMutableTransaction where
  hash : Uint256
deriving DecidableEq

namespace CTransaction

section

variable (hashBytes : Bytes → Uint256)

/-- `UpdateHash()`, at the end of a constructor or of reading; `none` if writing throws. -/
def updateHash (tx : CMutableTransaction) : Option CTransaction := do
  let hash ← tx.getHash hashBytes
  pure ⟨tx, hash⟩

/-- `CTransaction(const CMutableTransaction &tx)`. -/
def ofMutable (tx : CMutableTransaction) : Option CTransaction := updateHash hashBytes tx

/-- `CTransaction(CMutableTransaction &&tx)`. -/
def ofMoved (tx : CMutableTransaction) : Option CTransaction := updateHash hashBytes tx.moved

/-- `CTransaction(deserialize, s)`, through the moving constructor. -/
def deserialize : Decoder CTransaction := do
  let tx ← Wire.unserializeInto .fresh
  ofMoved hashBytes tx

/-- Reading into a `CTransaction`. -/
def unserializeInto (o : CTransaction) : Decoder CTransaction := do
  let tx ← Wire.unserializeInto o.toCMutableTransaction
  updateHash hashBytes tx

variable {hashBytes} {made : CTransaction}

end

/-- `operator=`: every member of `o` is written, and the hash. -/
def assign (_o tx : CTransaction) : CTransaction where
  fOverwintered := tx.fOverwintered
  nVersion := tx.nVersion
  nVersionGroupId := tx.nVersionGroupId
  vin := tx.vin
  vout := tx.vout
  nLockTime := tx.nLockTime
  nExpiryHeight := tx.nExpiryHeight
  valueBalance := tx.valueBalance
  vShieldedSpend := tx.vShieldedSpend
  vShieldedOutput := tx.vShieldedOutput
  vJoinSplit := tx.vJoinSplit
  joinSplitPubKey := tx.joinSplitPubKey
  joinSplitSig := tx.joinSplitSig
  bindingSig := tx.bindingSig
  hash := tx.hash

end CTransaction

/-- `CMutableTransaction(const CTransaction &tx)`. -/
def CMutableTransaction.ofTransaction (tx : CTransaction) : CMutableTransaction where
  fOverwintered := tx.fOverwintered
  nVersion := tx.nVersion
  nVersionGroupId := tx.nVersionGroupId
  vin := tx.vin
  vout := tx.vout
  nLockTime := tx.nLockTime
  nExpiryHeight := tx.nExpiryHeight
  valueBalance := tx.valueBalance
  vShieldedSpend := tx.vShieldedSpend
  vShieldedOutput := tx.vShieldedOutput
  vJoinSplit := tx.vJoinSplit
  joinSplitPubKey := tx.joinSplitPubKey
  joinSplitSig := tx.joinSplitSig
  bindingSig := tx.bindingSig

end Zcashd.Source.Wire
