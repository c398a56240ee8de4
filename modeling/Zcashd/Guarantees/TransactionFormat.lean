import Zcashd.Source.WireExact

/-!
# The transaction format is unambiguous

`SerializationOp` decides by the overwintered bit, the version, the version group id and the
lengths of earlier vectors which fields follow. `format_unambiguous` says that nothing is lost
or added on the way: what is written is read back, and what is read was written that way, so
the hash of a transaction is the hash of the bytes that were received.
-/
namespace Zcashd.Guarantees.TransactionFormat

open Lib Source Source.Wire Source.Wire.CMutableTransaction

/-- The transactions the node makes: Sprout versions 1 and 2, Overwinter version 3, Sapling
version 4, with defaults in the fields the version does not use. -/
structure Written (tx : CMutableTransaction) : Prop where
  header : (tx.fOverwintered = false ∧ (tx.nVersion = 1 ∨ tx.nVersion = 2)) ∨ tx.v3 ∨ tx.v4
  defaults : fresh.Keeps tx
  vin : tx.vin.length ≤ MAX_SIZE ∧ ∀ txin ∈ tx.vin, txin.scriptSig.length ≤ MAX_SIZE
  vout : tx.vout.length ≤ MAX_SIZE ∧ ∀ txout ∈ tx.vout, txout.scriptPubKey.length ≤ MAX_SIZE
  shieldedSpends : tx.vShieldedSpend.length ≤ MAX_SIZE
  shieldedOutputs : tx.vShieldedOutput.length ≤ MAX_SIZE
  joinSplits : tx.vJoinSplit.length ≤ MAX_SIZE
  proofs : tx.proofsFit

variable {tx : CMutableTransaction}

theorem version_of_v3 (v3 : tx.v3) : tx.nVersion = 3 := by
  simp only [CMutableTransaction.v3, isOverwinterV3, Bool.and_eq_true, beq_iff_eq] at v3
  exact v3.2

theorem version_of_v4 (v4 : tx.v4) : tx.nVersion = 4 := by
  simp only [CMutableTransaction.v4, isSaplingV4, Bool.and_eq_true, beq_iff_eq] at v4
  exact v4.2

theorem Written.fits (out : Written tx) : tx.Fits where
  version := by
    obtain ⟨-, one | two⟩ | v3 | v4 := out.header
    · rw [one]
      decide
    · rw [two]
      decide
    · rw [version_of_v3 v3]
      decide
    · rw [version_of_v4 v4]
      decide
  format := by
    obtain ⟨sprout, -⟩ | v3 | v4 := out.header
    · simp [unknownFormat, sprout]
    · simp [unknownFormat, v3]
    · simp [unknownFormat, v4]
  vin := out.vin
  vout := out.vout
  shieldedSpends _ := out.shieldedSpends
  shieldedOutputs _ := out.shieldedOutputs
  joinSplits _ := out.joinSplits
  proofs := out.proofs

/-- **The format.** A transaction the node makes is read back from its bytes, whatever follows
them. A transaction that is read from some input writes exactly the bytes that were consumed.
So two inputs that are read as the same transaction have the same bytes of it, and the hash
is that of the received bytes. -/
theorem format_unambiguous (hash : Bytes → Uint256) :
    (∀ tx, Written tx → ∃ bytes, tx.serialize = some bytes ∧
      ∀ rest, unserializeInto fresh (bytes ++ rest) = some (tx, rest)) ∧
    (∀ input tx rest, unserializeInto fresh input = some (tx, rest) →
      ∃ consumed, input = consumed ++ rest ∧ tx.serialize = some consumed ∧
        tx.getHash hash = some (hash consumed)) ∧
    (∀ input input' tx rest rest', unserializeInto fresh input = some (tx, rest) →
      unserializeInto fresh input' = some (tx, rest') →
      ∃ consumed, input = consumed ++ rest ∧ input' = consumed ++ rest') := by
  have exact := unserializeInto_exact fresh
  refine ⟨fun tx written => ?_, fun input tx rest read => ?_,
    fun input input' tx rest rest' read read' => ?_⟩
  · exact ⟨tx.bytes, written.fits.serialize, exact.decodes ⟨written.fits, written.defaults⟩⟩
  · obtain ⟨⟨fits, -⟩, consumed⟩ := (exact _ _ _).mp read
    exact ⟨tx.bytes, consumed, fits.serialize, by rw [getHash, fits.serialize]; rfl⟩
  · obtain ⟨-, consumed⟩ := (exact _ _ _).mp read
    obtain ⟨-, consumed'⟩ := (exact _ _ _).mp read'
    exact ⟨tx.bytes, consumed, consumed'⟩

end Zcashd.Guarantees.TransactionFormat
