import Zcashd.Source.CoinsUndo

/-!
The entries of the coins database (`src/coins.h:157-218`, `src/coins.cpp:19-35`): a header code
with the first two outputs, a mask with a bit for each later one, and the unspent outputs in
their compact form. The reader knows how many mask bytes are not zero, not how many there are.
-/
namespace Zcashd.Source

open Lib CTxOut List

namespace CCoins

/-- `chAvail` of mask byte `b`. -/
def chAvail (coins : CCoins) (b : Nat) : UInt8 :=
  (List.range 8).foldl
    (fun ch i => if coins.isAvailable (2 + b * 8 + i) then ch ||| (1 <<< UInt8.ofNat i) else ch) 0

/-- The test of `CalcMaskSize`, which looks at the outputs again. -/
def fZero (coins : CCoins) (b : Nat) : Bool :=
  (List.range 8).all (fun i => !coins.isAvailable (2 + b * 8 + i))

/-- Mask bytes that have an output: the `b` with `2 + b * 8 < vout.size()`. -/
def maskRounds (coins : CCoins) : Nat := (coins.vout.length - 2 + 7) / 8

/-- `nLastUsedByte` and `nNonzeroBytes` after some rounds of `CalcMaskSize`. -/
def maskLoop (coins : CCoins) : Nat → Nat × Nat
  | 0 => (0, 0)
  | b + 1 => if coins.fZero b then coins.maskLoop b else (b + 1, (coins.maskLoop b).2 + 1)

def calcMaskSize (coins : CCoins) : Nat × Nat := coins.maskLoop coins.maskRounds

/-- The spentness bitmask as it is written. -/
def mask (coins : CCoins) : Bytes := (List.range coins.calcMaskSize.1).map coins.chAvail

def headerCode (coins : CCoins) : Nat :=
  let fFirst := coins.isAvailable 0
  let fSecond := coins.isAvailable 1
  (8 * (coins.calcMaskSize.2 - (if fFirst || fSecond then 0 else 1)) +
    (if coins.fCoinBase then 1 else 0) +
    (if fFirst then 2 else 0) + (if fSecond then 4 else 0)) % 2 ^ 32

def writeOutputs (lib : PubKeyLibrary) (vout : List CTxOut) : Bytes :=
  vout.flatMap (fun out => if out.isNull then [] else writeTxOut lib out)

/-- `Serialize`; `none` is a failed assertion. -/
def serialize (lib : PubKeyLibrary) (coins : CCoins) : Option Bytes :=
  if coins.isAvailable 0 || coins.isAvailable 1 || coins.calcMaskSize.2 != 0 then
    some (writeVarSigned coins.nVersion ++ (writeVarInt 32 coins.headerCode ++
      (coins.mask ++ (writeOutputs lib coins.vout ++ writeVarSigned coins.nHeight))))
  else none

def maskBits (chAvail : UInt8) : List Bool :=
  (List.range 8).map (fun p => chAvail &&& (1 <<< UInt8.ofNat p) != 0)

/-- `while (nMaskCode > 0)`: only a byte that is not zero counts. -/
def readMask : Nat → Decoder (List Bool)
  | 0, input => some ([], input)
  | _ + 1, [] => none
  | nMaskCode + 1, chAvail :: input =>
    (readMask (if chAvail != 0 then nMaskCode else nMaskCode + 1) input).map
      (Prod.map (maskBits chAvail ++ ·) id)

def readOutputs (lib : PubKeyLibrary) : List Bool → Decoder (List CTxOut)
  | [] => pure []
  | available :: vAvail => do
    let out ← if available then readTxOut lib else pure .null
    let vout ← readOutputs lib vAvail
    pure (out :: vout)

/-- `Unserialize`. No entry has a negative height; one that is read counts as 0 here. -/
def unserialize (lib : PubKeyLibrary) : Decoder CCoins := do
  let nVersion ← readVarSigned
  let nCode ← readVarInt 32
  let vAvail ← readMask (nCode / 8 + if nCode.testBit 1 || nCode.testBit 2 then 0 else 1)
  let vout ← readOutputs lib (nCode.testBit 1 :: nCode.testBit 2 :: vAvail)
  let nHeight ← readVarSigned
  pure (cleanup ⟨nCode.testBit 0, vout, nHeight.toNat, nVersion⟩)

/-- What `FromTx`, `Spend` and `Cleanup` make of transactions. -/
inductive Produced : CCoins → Prop where
  | fromTx {tx : CTransaction} {nHeight : Nat}
      (amounts : ∀ out ∈ tx.vout, moneyRange out.nValue = true)
      (height : nHeight < 2 ^ 31) (version : 0 ≤ tx.nVersion ∧ tx.nVersion < 2 ^ 31) :
        Produced (fromTx tx nHeight)
  | spend {coins spent : CCoins} {nPos : Nat} (before : Produced coins)
      (spends : coins.spend nPos = some spent) :
      Produced spent
  | cleanup {coins : CCoins} (before : Produced coins) : Produced coins.cleanup

/-- An entry whose parts fit the format. -/
structure Storable (coins : CCoins) : Prop where
  clean : coins.Clean
  outputs : ∀ out ∈ coins.vout, out = .null ∨
    moneyRange out.nValue = true ∧ out.scriptPubKey.length ≤ MAX_SCRIPT_SIZE
  height : coins.nHeight < 2 ^ 31
  version : 0 ≤ coins.nVersion ∧ coins.nVersion < 2 ^ 31

variable {coins : CCoins} {lib : PubKeyLibrary}

theorem Produced.storable (produced : Produced coins) : coins.Storable := by
  induction produced with
  | fromTx amounts height version =>
    refine ⟨cleanup_clean _, fun out mem => ?_, height, version⟩
    rcases mem_clearUnspendable mem with null | ⟨original, spendable⟩
    · exact .inl null
    · simp only [CScript.isUnspendable, Bool.or_eq_false_iff, decide_eq_false_iff_not] at spendable
      exact .inr ⟨amounts out original, by omega⟩
  | spend _ spends ih =>
    unfold CCoins.spend at spends
    split at spends
    · cases spends
      refine ⟨cleanup_clean _, fun out mem => ?_, ih.height, ih.version⟩
      rcases mem_or_eq_of_mem_set (mem_rdropWhile mem) with kept | null
      · exact ih.outputs out kept
      · exact .inl null
    · cases spends
  | cleanup _ ih =>
    have same := ih.clean
    rwa [same]

/-! The mask -/

/-- A mask byte for any eight outputs, by evaluation. -/
theorem chAvail_spec (coins : CCoins) (b : Nat) :
    maskBits (coins.chAvail b) = (range 8).map (fun i => coins.isAvailable (2 + b * 8 + i)) ∧
      (coins.chAvail b != 0) = !coins.fZero b := by
  have bytes : ∀ b₀ b₁ b₂ b₃ b₄ b₅ b₆ b₇ : Bool,
      let ch := [(b₀, 0), (b₁, 1), (b₂, 2), (b₃, 3), (b₄, 4), (b₅, 5), (b₆, 6), (b₇, 7)].foldl
        (fun ch p => if p.1 then ch ||| (1 <<< UInt8.ofNat p.2) else ch) 0
      maskBits ch = [b₀, b₁, b₂, b₃, b₄, b₅, b₆, b₇] ∧
        (ch != 0) = !([b₀, b₁, b₂, b₃, b₄, b₅, b₆, b₇].all (!·)) := by
    decide +kernel
  exact bytes _ _ _ _ _ _ _ _

theorem maskLoop_snd (rounds : Nat) :
    (coins.maskLoop rounds).2 = ((range rounds).map coins.chAvail).countP (· != 0) := by
  induction rounds with
  | zero => rfl
  | succ b ih =>
    simp only [maskLoop, range_succ, map_append, countP_append, map_cons, map_nil,
      countP_singleton, (chAvail_spec coins b).2]
    cases coins.fZero b <;> simp [ih]

namespace Clean

variable (clean : coins.Clean)
include clean

theorem isAvailable_last (outputs : coins.vout ≠ []) :
    coins.isAvailable (coins.vout.length - 1) = true := by
  have kept := congrArg CCoins.vout clean
  have last := rdropWhile_eq_self_iff.mp kept outputs
  rw [isAvailable, ← getLast?_eq_getElem?, getLast?_eq_some_getLast outputs]
  simpa using last

theorem fZero_last {b : Nat} (rounds : coins.maskRounds = b + 1) : coins.fZero b = false := by
  unfold maskRounds at rounds
  have last := clean.isAvailable_last (by grind)
  by_contra zero
  rw [Bool.not_eq_false] at zero
  have spent := all_eq_true.mp zero (coins.vout.length - 1 - (2 + b * 8)) (by simp; omega)
  rw [show 2 + b * 8 + (coins.vout.length - 1 - (2 + b * 8)) = coins.vout.length - 1 by omega,
    last] at spent
  cases spent

theorem calcMaskSize_eq : coins.calcMaskSize = (coins.maskRounds, coins.mask.countP (· != 0)) := by
  have size : coins.calcMaskSize.1 = coins.maskRounds := by
    unfold calcMaskSize
    cases rounds : coins.maskRounds with
    | zero => rfl
    | succ b => simp [maskLoop, clean.fZero_last rounds]
  rw [mask, size, ← maskLoop_snd]
  exact Prod.ext size rfl

theorem mask_eq : coins.mask = (range coins.maskRounds).map coins.chAvail := by
  rw [mask, clean.calcMaskSize_eq]

/-- The reader goes on until the last byte of the mask. -/
theorem mask_last : ∀ b ∈ coins.mask.getLast?, b ≠ 0 := by
  rw [clean.mask_eq]
  cases rounds : coins.maskRounds with
  | zero => simp
  | succ b =>
    have last := (chAvail_spec coins b).2
    rw [clean.fZero_last rounds] at last
    simpa [range_succ] using last

theorem assertion_holds (unspent : coins.isPruned = false) :
    (coins.isAvailable 0 || coins.isAvailable 1 || coins.calcMaskSize.2 != 0) = true := by
  have outputs : coins.vout ≠ [] := by
    intro none
    simp [isPruned, none] at unspent
  have last := clean.isAvailable_last outputs
  cases rounds : coins.maskRounds with
  | zero =>
    unfold maskRounds at rounds
    have few : coins.vout.length - 1 = 0 ∨ coins.vout.length - 1 = 1 := by omega
    rcases few with _ | _ <;> simp_all
  | succ b => simp [calcMaskSize, rounds, maskLoop, clean.fZero_last rounds]

end Clean

theorem maskBits_rounds (rounds : Nat) : ((range rounds).map coins.chAvail).flatMap maskBits =
    (range (rounds * 8)).map (fun j => coins.isAvailable (2 + j)) := by
  induction rounds with
  | zero => rfl
  | succ b ih =>
    rw [range_succ, map_append, flatMap_append, ih, Nat.succ_mul, range_add, map_append]
    simp [(chAvail_spec coins b).1, Nat.add_assoc, Function.comp_def]

/-- The bits that are read are those of the outputs, and of spent outputs behind them. -/
theorem Clean.padded (clean : coins.Clean) (lib : PubKeyLibrary) : ∃ padded : List CTxOut,
    coins.isAvailable 0 :: coins.isAvailable 1 :: coins.mask.flatMap maskBits =
      padded.map (fun out => !out.isNull) ∧
      (∀ out ∈ padded, out = .null ∨ out ∈ coins.vout) ∧
        writeOutputs lib padded = writeOutputs lib coins.vout ∧
      padded.rdropWhile isNull = coins.vout := by
  have whole : coins.vout.length ≤ 2 + coins.maskRounds * 8 := by
    unfold maskRounds
    omega
  have kept := congrArg CCoins.vout clean
  refine ⟨coins.vout ++ replicate (2 + coins.maskRounds * 8 - coins.vout.length) .null,
    ?_, ?_, ?_, ?_⟩
  · rw [clean.mask_eq, maskBits_rounds]
    trans (range (2 + coins.maskRounds * 8)).map coins.isAvailable
    · rw [range_add, map_append, map_map]
      rfl
    · apply ext_getElem?
      grind [isAvailable, isNull, null]
  · grind
  · simp [writeOutputs, isNull, null]
  · rw [rdropWhile, reverse_append, dropWhile_append_of_pos (by simp [isNull, null])]
    exact kept

theorem readMask_decodes {bytes : Bytes} (last : ∀ b ∈ bytes.getLast?, b ≠ 0) :
    Decodes (readMask (bytes.countP (· != 0))) bytes (bytes.flatMap maskBits) := by
  induction bytes with
  | nil =>
    intro _
    simp [readMask]
  | cons ch bytes ih =>
    have tail : ∀ b ∈ bytes.getLast?, b ≠ 0 := by
      cases bytes with
      | nil => simp
      | cons _ _ => rwa [getLast?_cons_cons] at last
    have pos : 0 < (ch :: bytes).countP (· != 0) := by
      rw [countP_pos_iff]
      exact ⟨_, getLast_mem (cons_ne_nil ch bytes),
        by simpa using last _ (getLast?_eq_some_getLast _)⟩
    obtain ⟨count, whole⟩ := Nat.exists_eq_succ_of_ne_zero pos.ne'
    have left : (if ch != 0 then count else count + 1) = bytes.countP (· != 0) := by
      rw [countP_cons] at whole
      split at whole <;> simp_all
    intro rest
    rw [whole, cons_append, readMask, left, ih tail rest]
    rfl

theorem readOutputs_writeOutputs {vout : List CTxOut} (outputs : ∀ out ∈ vout, out = .null ∨
      moneyRange out.nValue = true ∧ out.scriptPubKey.length ≤ MAX_SCRIPT_SIZE) :
    Decodes (readOutputs lib (vout.map (fun out => !out.isNull))) (writeOutputs lib vout) vout := by
  induction vout with
  | nil => exact Decodes.pure []
  | cons out _ ih =>
    have rest := (ih (fun out mem => outputs out (by simp [mem]))).last (out :: ·)
    rcases outputs out (by simp) with rfl | ⟨range, short⟩
    · exact (Decodes.pure null).bind rest
    · have unspent : out.isNull = false := by
        grind [isNull, moneyRange_iff]
      simp only [writeOutputs, flatMap_cons, map_cons, unspent]
      exact (readTxOut_writeTxOut lib range short).bind rest

theorem headerCode_spec (fits : coins.vout.length + 6 ≤ 2 ^ 32)
    (asserted : (coins.isAvailable 0 || coins.isAvailable 1 || coins.calcMaskSize.2 != 0) = true) :
    coins.headerCode < 2 ^ 32 ∧ coins.headerCode.testBit 0 = coins.fCoinBase ∧
      coins.headerCode.testBit 1 = coins.isAvailable 0 ∧
      coins.headerCode.testBit 2 = coins.isAvailable 1 ∧
      coins.headerCode / 8 + (if coins.isAvailable 0 || coins.isAvailable 1 then 0 else 1) =
        coins.calcMaskSize.2 := by
  have bound : coins.calcMaskSize.2 ≤ coins.maskRounds := by
    rw [calcMaskSize, maskLoop_snd]
    exact countP_le_length.trans (by simp)
  unfold maskRounds at bound
  unfold headerCode
  generalize coins.calcMaskSize.2 = nMaskCode at *
  revert asserted
  cases coins.isAvailable 0 <;> cases coins.isAvailable 1 <;> cases coins.fCoinBase <;>
    simp [Nat.testBit_eq_decide_div_mod_eq] <;> omega

theorem unserialize_serialize (storable : coins.Storable) (unspent : coins.isPruned = false)
    (fits : coins.vout.length + 6 ≤ 2 ^ 32) :
    ∃ bytes, coins.serialize lib = some bytes ∧ Decodes (unserialize lib) bytes coins := by
  have asserted := storable.clean.assertion_holds unspent
  obtain ⟨small, coinBase, first, second, count⟩ := headerCode_spec fits asserted
  obtain ⟨padded, available, members, written, restored⟩ := storable.clean.padded lib
  have outputs : Decodes (readOutputs lib _) (writeOutputs lib padded) padded :=
    readOutputs_writeOutputs (fun out mem => (members out mem).elim .inl (storable.outputs out))
  refine ⟨_, if_pos asserted,
    (readVarSigned_writeVarSigned storable.version.1 storable.version.2).bind
    ((readVarInt_writeVarInt small (by decide)).bind ?_)⟩
  rw [first, second, count, coinBase, storable.clean.calcMaskSize_eq]
  refine (readMask_decodes storable.clean.mask_last).bind ?_
  rw [available, ← written]
  have height := readVarSigned_writeVarSigned (by omega) (Int.ofNat_lt.mpr storable.height)
  have last := height.last
    (fun nHeight => (⟨coins.fCoinBase, padded, nHeight.toNat, coins.nVersion⟩ : CCoins).cleanup)
  rw [cleanup, restored, Int.toNat_natCast] at last
  exact outputs.bind last

/-- Without an unspent output there is no byte of the mask that is not zero, and the assertion
fails. -/
theorem serialize_pruned (lib : PubKeyLibrary) (pruned : coins.isPruned = true) :
    coins.serialize lib = none := by
  have spent : ∀ nPos, coins.isAvailable nPos = false := by
    intro nPos
    unfold isAvailable
    split
    · simpa using all_eq_true.mp pruned _ (mem_of_getElem? ‹_›)
    · rfl
  have zero : ∀ rounds, coins.maskLoop rounds = (0, 0) := by
    intro rounds
    induction rounds with
    | zero => rfl
    | succ b ih => simp [maskLoop, fZero, spent, ih]
  simp [serialize, calcMaskSize, spent, zero]

end CCoins

end Zcashd.Source
