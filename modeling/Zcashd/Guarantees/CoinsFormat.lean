import Zcashd.Source.CoinsFormat

/-!
# Formats of the coins database and of undo data

Entries that come from transactions read back as they were written, from exactly the bytes
written, and so do compact outputs and undo data. An entry with no unspent output is not
written at all: `Serialize` asserts that there is one. Undo data at height 0 keeps no version,
and a script above the size limit is not read back.
-/
namespace Zcashd.Guarantees.CoinsFormat

open Lib Source

theorem formats_round_trip (lib : PubKeyLibrary) :
    (∀ coins : CCoins, coins.Produced → coins.isPruned = false → coins.vout.length + 6 ≤ 2 ^ 32 →
      (∃ bytes, coins.serialize lib = some bytes ∧ Decodes (CCoins.unserialize lib) bytes coins) ∧
      coins.calcMaskSize = (coins.mask.length, coins.mask.countP (· != 0))) ∧
    (∀ coins : CCoins, coins.isPruned = true → coins.serialize lib = none) ∧
    (∀ txout : CTxOut, moneyRange txout.nValue = true →
      txout.scriptPubKey.length ≤ MAX_SCRIPT_SIZE →
      Decodes (readTxOut lib) (writeTxOut lib txout) txout) ∧
    (∀ undo : CTxInUndo, undo.Storable →
      Decodes (CTxInUndo.unserialize lib) (undo.serialize lib) undo) ∧
    (∀ undo : CTxUndo, undo.vprevout.length ≤ MAX_SIZE → (∀ input ∈ undo.vprevout, input.Storable) →
      Decodes (CTxUndo.unserialize lib) (undo.serialize lib) undo) ∧
    (∀ undo : CBlockUndo, undo.Storable →
      Decodes (CBlockUndo.unserialize lib) (undo.serialize lib) undo) := by
  refine ⟨fun coins produced unspent fits => ?_, fun _ => CCoins.serialize_pruned lib,
    fun _ => readTxOut_writeTxOut lib, fun _ => CTxInUndo.unserialize_serialize,
    fun _ => CTxUndo.unserialize_serialize lib, fun _ => CBlockUndo.unserialize_serialize⟩
  have storable := produced.storable
  have size : coins.mask.length = coins.maskRounds := by
    rw [storable.clean.mask_eq, List.length_map, List.length_range]
  constructor
  · exact CCoins.unserialize_serialize storable unspent fits
  · rw [storable.clean.calcMaskSize_eq, size]

/-- Ten outputs that cannot be spent and one that can: the mask has a byte of zeros in front of the
one with the bit. -/
theorem formats_round_trip_masked :
    ∃ coins bytes, coins.mask = [0, 1] ∧ coins.serialize .none = some bytes ∧
      CCoins.unserialize .none bytes = some (coins, []) := by
  have created : CCoins.Produced
      (.fromTx ⟨1, false, 1, 0, [], List.replicate 10 ⟨0, [0x6a]⟩ ++ [⟨1, [0x51]⟩], 0, 0, [], [],
        []⟩ 1) := by
    apply CCoins.Produced.fromTx
    · decide
    · decide
    · decide
  obtain ⟨⟨bytes, written, decodes⟩, _⟩ :=
    (formats_round_trip .none).1 _ created (by decide) (by decide)
  have whole := decodes []
  rw [List.append_nil] at whole
  exact ⟨_, bytes, by decide, written, whole⟩

/-- A transaction with one output, which is spent. -/
theorem spent_entry_not_written :
    ∃ coins : CCoins, coins.Produced ∧ coins.serialize .none = none := by
  have created :
      CCoins.Produced (.fromTx ⟨1, false, 1, 0, [], [⟨1, [0x51]⟩], 0, 0, [], [], []⟩ 1) := by
    apply CCoins.Produced.fromTx
    · decide
    · decide
    · decide
  have spends : (CCoins.fromTx ⟨1, false, 1, 0, [], [⟨1, [0x51]⟩], 0, 0, [], [], []⟩ 1).spend 0 =
      some ⟨false, [], 1, 1⟩ := by decide
  exact ⟨_, created.spend spends, by decide⟩

end Zcashd.Guarantees.CoinsFormat
