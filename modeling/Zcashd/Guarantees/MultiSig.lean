import Zcashd.Source.MultiSig

/-!
`OP_CHECKMULTISIG` tries the keys in order and takes each signature with the first key it verifies
under. That is enough: where the signatures can be matched with keys in their order, the first of
them can also be matched with the first key it fits.

`multiSigLoop` is the loop of the source on indexes into the stack, with a list of the checks it
makes. Its answer is that of the interpreter, which works on the keys and signatures as lists, and
each of its checks is of a signature and a key of this call.
-/
namespace Zcashd.Guarantees.MultiSig

open Source Script

section

open List (SublistForall₂)

variable {α β : Type} {r : α → β → Prop} {a : α} {b : β} {l : List α} {l' : List β}

theorem length_le (inOrder : SublistForall₂ r l l') : l.length ≤ l'.length := by
  obtain ⟨_, related, sublist⟩ := List.sublistForall₂_iff.mp inOrder
  exact related.length_eq.trans_le sublist.length_le

theorem cons_of_not (apart : ¬ r a b) : SublistForall₂ r (a :: l) (b :: l') ↔
    SublistForall₂ r (a :: l) l' := by
  refine ⟨fun inOrder => ?_, .cons_right⟩
  cases inOrder with
  | cons first _ => exact absurd first apart
  | cons_right inOrder => exact inOrder

/-- The first partner that fits can be taken. -/
theorem cons_of (fits : r a b) : SublistForall₂ r (a :: l) (b :: l') ↔ SublistForall₂ r l l' := by
  refine ⟨fun inOrder => ?_, .cons fits⟩
  obtain ⟨_, related, sublist⟩ := List.sublistForall₂_iff.mp inOrder
  cases related with
  | cons _ others => exact List.sublistForall₂_iff.mpr ⟨_, others, sublist.tail⟩

theorem inOrder_iff : SublistForall₂ r l l' ↔
    ∃ f : Fin l.length → Fin l'.length, StrictMono f ∧ ∀ i, r (l.get i) (l'.get (f i)) := by
  rw [List.sublistForall₂_iff]
  constructor
  · rintro ⟨_, related, sublist⟩
    obtain ⟨f, same⟩ := List.sublist_iff_exists_fin_orderEmbedding_get_eq.mp sublist
    obtain ⟨size, each⟩ := List.forall₂_iff_get.mp related
    refine ⟨fun i => f (i.cast size), fun i j less => f.strictMono less, fun i => ?_⟩
    rw [← same]
    exact each i.val i.isLt _
  · rintro ⟨f, increasing, each⟩
    refine ⟨((List.finRange l.length).map f).map (fun i => l'[i]), ?_, List.map_getElem_sublist ?_⟩
    · refine List.forall₂_iff_get.mpr ⟨by simp, fun i inside _ => ?_⟩
      simpa using each ⟨i, inside⟩
    · exact List.pairwise_map.mpr ((List.pairwise_lt_finRange _).imp fun less => increasing less)

end

variable {crypto : Crypto} {flags : Flags} {checker : BaseSignatureChecker}
  {consensusBranchId : UInt32} {script : CScript}

/-- By induction over the keys. -/
theorem checkMultiSigLoop_inOrder {keys sigs : List valtype}
    (sigsEncoded : ∀ sig ∈ sigs, checkSignatureEncoding crypto flags sig = .ok ())
    (keysEncoded : ∀ key ∈ keys, checkPubKeyEncoding flags key = .ok ())
    (fits : sigs.length ≤ keys.length) :
    ∃ fSuccess, checkMultiSigLoop crypto flags checker consensusBranchId script keys sigs =
      .ok fSuccess ∧
      (fSuccess = true ↔
        List.SublistForall₂ (fun sig key => checker.checkSig sig key script consensusBranchId =
          true) sigs keys) := by
  induction keys generalizing sigs with
  | nil =>
    obtain rfl := List.length_eq_zero_iff.mp (Nat.le_zero.mp fits)
    exact ⟨true, by simp [checkMultiSigLoop], by simpa using .nil⟩
  | cons key keys ih =>
    cases sigs with
    | nil => exact ⟨true, by simp [checkMultiSigLoop], by simpa using .nil⟩
    | cons sig sigs =>
      have others : ∀ key ∈ keys, checkPubKeyEncoding flags key = .ok () :=
        fun key mem => keysEncoded key (.tail _ mem)
      simp only [checkMultiSigLoop, sigsEncoded sig (.head _), keysEncoded key (.head _), bind,
        Except.bind]
      cases verified : checker.checkSig sig key script consensusBranchId with
      | true =>
        obtain ⟨fSuccess, ran, decides⟩ := ih (fun sig mem => sigsEncoded sig (.tail _ mem)) others
          (Nat.le_of_succ_le_succ fits)
        refine ⟨fSuccess, ?_, decides.trans (cons_of (by simpa using verified)).symm⟩
        simpa [Nat.not_lt.mpr (Nat.le_of_succ_le_succ fits)] using ran
      | false =>
        by_cases tooFew : sigs.length + 1 > keys.length
        · refine ⟨false, by simp [tooFew], ?_⟩
          rw [cons_of_not (by simp [verified])]
          simpa using fun inOrder => absurd (length_le inOrder) (by simpa using tooFew)
        · obtain ⟨fSuccess, ran, decides⟩ := ih sigsEncoded others (by simpa using tooFew)
          refine ⟨fSuccess, ?_, decides.trans (cons_of_not (by simp [verified])).symm⟩
          simpa [tooFew] using ran

/-- With signatures and keys that pass the encoding checks the loop leaves true if and only if the
signatures verify under keys in their order. It calls `CheckSig` for places of the two lists only,
and the opcode takes the two numbers, the lists and one more element off the stack. -/
theorem multisig_decides_matching (crypto : Crypto) (flags : Flags) (checker : BaseSignatureChecker)
    (consensusBranchId : UInt32) (script : CScript) (verify : Bool) (s : EvalState)
    (keyCount sigCount dummy : valtype) (keys sigs rest : List valtype)
    (stack : s.stack = keyCount :: keys ++ sigCount :: sigs ++ dummy :: rest)
    (most : keys.length ≤ 20) (fits : sigs.length ≤ keys.length)
    (keyNumber : readNum flags keyCount nDefaultMaxNumSize = .ok keys.length)
    (sigNumber : readNum flags sigCount nDefaultMaxNumSize = .ok sigs.length)
    (sigsEncoded : ∀ sig ∈ sigs, checkSignatureEncoding crypto flags sig = .ok ())
    (keysEncoded : ∀ key ∈ keys, checkPubKeyEncoding flags key = .ok ()) :
    ∃ fSuccess calls,
      multiSigLoop crypto flags checker consensusBranchId script s.stack
        (keys.length + 3) 2 keys.length sigs.length = some (.ok fSuccess, calls) ∧
      (fSuccess = true ↔ ∃ f : Fin sigs.length → Fin keys.length, StrictMono f ∧
        ∀ i, checker.checkSig (sigs.get i) (keys.get (f i)) script consensusBranchId = true) ∧
      (∀ call ∈ calls, (keys.length + 3 ≤ call.1 ∧ call.1 < keys.length + 3 + sigs.length) ∧
        2 ≤ call.2 ∧ call.2 < 2 + keys.length) ∧
      s.stack.length = rest.length + (keys.length + sigs.length + 3) ∧
      checkMultiSig crypto flags checker consensusBranchId script verify s =
        if s.nOpCount + keys.length > 201 then .error .OP_COUNT
        else if has flags SCRIPT_VERIFY_NULLDUMMY && dummy.length != 0 then .error .SIG_NULLDUMMY
        else finish verify fSuccess .CHECKMULTISIGVERIFY (vchBool fSuccess)
          { s with nOpCount := s.nOpCount + keys.length } rest := by
  have inKeys : ∀ j < keys.length, stacktop s.stack (2 + j) = keys[j]? := by
    intro j inside
    rw [stacktop, stack, Nat.add_comm]
    simp [List.getElem?_append_left, inside]
  have inSigs : ∀ j < sigs.length, stacktop s.stack (keys.length + 3 + j) = sigs[j]? := by
    intro j inside
    have behind : s.stack = (keyCount :: keys ++ [sigCount]) ++ (sigs ++ dummy :: rest) := by
      simp [stack]
    rw [stacktop, behind, List.getElem?_append_right (by simp),
      List.getElem?_append_left (by simp; omega)]
    congr 1
    simp
  obtain ⟨fSuccess, ran, decides⟩ :=
    @checkMultiSigLoop_inOrder crypto flags checker consensusBranchId script _ _ sigsEncoded
    keysEncoded fits
  obtain ⟨calls, indexed, inside⟩ :=
    @multiSigLoop_eq crypto flags checker consensusBranchId script _ _ _ _ _ inKeys inSigs fits
  refine ⟨fSuccess, calls, by rw [indexed, ran], decides.trans inOrder_iff, inside, ?_, ?_⟩
  · simp [stack]
    omega
  · have small : ∀ n : Nat, n ≤ 20 → getint n = n := fun n bound => by
      rw [getint, if_neg (by omega), if_neg (by omega)]
    have keysCounted : ¬ ((keys.length : Int) < 0 ∨ (keys.length : Int) > 20) := by omega
    have sigsCounted : ¬ ((sigs.length : Int) < 0 ∨ (sigs.length : Int) > keys.length) := by omega
    have keysThere : ¬ (keys ++ sigCount :: (sigs ++ dummy :: rest)).length < keys.length + 1 := by
      simp
    have sigsThere : ¬ (sigs ++ dummy :: rest).length < sigs.length + 1 := by simp
    rw [checkMultiSig, stack, List.append_assoc]
    simp only [List.cons_append, keyNumber, bind, Except.bind, small _ most, if_neg keysCounted,
      Int.toNat_natCast,
      if_neg keysThere, List.drop_left, List.take_left, checkMultiSigSigs, sigNumber,
      small _ (fits.trans most), if_neg sigsCounted, if_neg sigsThere, ran, finishMultiSig]

/-- One signature that verifies under the second of two keys. -/
theorem multisig_decides_matching_second : ∃ (crypto : Crypto) (checker : BaseSignatureChecker),
    checkMultiSig crypto 0 checker 0 [] false ⟨[[2], [5], [7], [1], [], []], [], [], 0⟩ =
      .ok ⟨[vchTrue], [], [], 2⟩ := by
  refine ⟨⟨id, id, id, id, id, fun _ => true⟩, ⟨fun _ key _ _ => key == [7], fun _ => true⟩, ?_⟩
  obtain ⟨_, _, -, decides, -, -, result⟩ :=
    multisig_decides_matching ⟨id, id, id, id, id, fun _ => true⟩ 0
    ⟨fun _ key _ _ => key == [7], fun _ => true⟩ 0 [] false
      ⟨[[2], [5], [7], [1], [], []], [], [], 0⟩ [2] [1] [] [[5], [7]] [[]] []
    rfl (by decide) (by decide) rfl rfl (by decide) (by decide)
  obtain rfl :=
    decides.mpr ⟨fun _ => 1, fun i j less => absurd less (by revert i j; decide), by decide⟩
  exact result

end Zcashd.Guarantees.MultiSig
