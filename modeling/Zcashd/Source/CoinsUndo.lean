import Zcashd.Source.DisconnectBlock

/-!
Spending an output of a `CCoins` and restoring it from its undo data. `Cleanup` trims the
trailing spent outputs and `ApplyTxInUndo` grows them back as default outputs, so the entry
comes back only if its spent outputs are default ones; `Sound` is what an entry of a
connected block satisfies.
-/
namespace Zcashd.Source

open List

namespace CCoins

/-- An unspent entry as blocks create it. -/
structure Sound (c : CCoins) : Prop where
  clean : c.Clean
  unspent : c.isPruned = false
  nulls : ∀ out ∈ c.vout, out.isNull = true → out = .null
  outputs : ∀ out ∈ c.vout, out.isNull = false →
    moneyRange out.nValue = true ∧ CScript.isUnspendable out.scriptPubKey = false
  height : 0 < c.nHeight ∧ c.nHeight < 2 ^ 31
  version : 0 ≤ c.nVersion ∧ c.nVersion < 2 ^ 31

variable {c : CCoins} {n : Nat}

theorem output_eq_some {out : CTxOut} :
    c.output n = some out ↔ c.vout[n]? = some out ∧ out.isNull = false := by
  simp [output, Option.filter_eq_some_iff]

theorem isAvailable_eq : c.isAvailable n = (c.output n).isSome := by
  unfold isAvailable output
  cases c.vout[n]? with
  | none => rfl
  | some out => cases h : out.isNull <;> simp [h]

theorem mem_rdropWhile {α : Type} {p : α → Bool} {l : List α} {a : α}
    (mem : a ∈ l.rdropWhile p) : a ∈ l :=
  ( rdropWhile_prefix p l).subset mem

private theorem rdropWhile_append {α : Type} (p : α → Bool) (l : List α) :
    ∃ dropped, l = l.rdropWhile p ++ dropped ∧ ∀ a ∈ dropped, p a = true := by
  refine ⟨(l.reverse.takeWhile p).reverse, ?_, ?_⟩
  · rw [rdropWhile, ← reverse_append, takeWhile_append_dropWhile, reverse_reverse]
  · intro a mem
    exact mem_takeWhile_imp (mem_reverse.mp mem)

theorem output_of_pruned (pruned : c.isPruned = true) (n : Nat) : c.output n = none := by
  by_contra some
  obtain ⟨out, hit⟩ := Option.ne_none_iff_exists'.mp some
  obtain ⟨at_n, notNull⟩ := output_eq_some.mp hit
  have null := all_eq_true.mp pruned out (mem_of_getElem? at_n)
  rw [notNull] at null
  cases null

/-- Readers of outputs do not tell a pruned entry from none. -/
theorem bind_output_visible (c : CCoins) (n : Nat) :
    c.visible.bind (fun c => c.output n) = c.output n := by
  cases pruned : c.isPruned with
  | true =>
    rw [visible_eq_none.mpr pruned, output_of_pruned pruned]
    rfl
  | false =>
    rw [visible_of_not_pruned pruned]
    rfl

theorem output_cleanup (c : CCoins) (n : Nat) : c.cleanup.output n = c.output n := by
  obtain ⟨_, whole, _⟩ := rdropWhile_append CTxOut.isNull c.vout
  have trimmed : c.cleanup.vout = c.vout.rdropWhile CTxOut.isNull := rfl
  unfold output
  rw [trimmed]
  conv_rhs => rw [whole]
  by_cases kept : n < (c.vout.rdropWhile CTxOut.isNull).length
  · rw [getElem?_append_left kept]
  · grind

variable {spent : CCoins}

theorem output_spend (spends : c.spend n = some spent) (m : Nat) :
    spent.output m = if m = n then none else c.output m := by
  unfold spend at spends
  split at spends
  · cases spends
    rw [output_cleanup]
    unfold output
    by_cases same : m = n
    · subst same
      rw [if_pos rfl]
      by_cases bound : m < c.vout.length
      · rw [getElem?_set_self bound]
        rfl
      · rw [getElem?_eq_none (by simpa using bound)]
        rfl
    · rw [if_neg same, getElem?_set_ne (fun equal => same equal.symm)]
  · cases spends

theorem spend_of_output {out : CTxOut} (hit : c.output n = some out) :
    c.spend n = some (cleanup { c with vout := c.vout.set n .null }) := by
  rw [spend, isAvailable_eq, hit]
  rfl

/-- The last output of a clean entry is unspent. -/
theorem Clean.getLast (clean : c.Clean) (ne : c.vout ≠ []) :
    (c.vout.getLast ne).isNull = false := by
  have kept : c.vout.rdropWhile CTxOut.isNull = c.vout := congrArg CCoins.vout clean
  have last := rdropWhile_last_not CTxOut.isNull c.vout (by rwa [kept])
  simp only [kept] at last
  simpa using last

namespace Sound

variable {c : CCoins} {n : Nat} {out : CTxOut}

/-- Growing the trimmed outputs back gives the outputs with the one spent. -/
theorem growTo_trimmed (sound : c.Sound) (hit : c.output n = some out) :
    growTo (n + 1) ((c.vout.set n .null).rdropWhile CTxOut.isNull) = c.vout.set n .null := by
  obtain ⟨at_n, -⟩ := output_eq_some.mp hit
  have bound : n < c.vout.length := (List.getElem?_eq_some_iff.mp at_n).1
  obtain ⟨dropped, whole, spent⟩ := rdropWhile_append CTxOut.isNull (c.vout.set n .null)
  have sizes := congrArg length whole
  rw [length_append, length_set] at sizes
  have allNull : dropped = replicate dropped.length .null := by
    refine eq_replicate_of_mem (fun o mem => ?_)
    have inSet : o ∈ c.vout.set n .null := by
      rw [whole]
      exact mem_append_right _ mem
    rcases mem_or_eq_of_mem_set inSet with old | new
    · exact sound.nulls o old (spent o mem)
    · exact new
  -- something was trimmed only if the output spent was the last one
  have size : dropped.length = n + 1 - ((c.vout.set n .null).rdropWhile CTxOut.isNull).length := by
    cases shape : dropped with
    | nil =>
      rw [shape] at sizes
      simp only [length_nil] at sizes ⊢
      omega
    | cons first rest =>
      have ne : c.vout ≠ [] := by
        intro nil
        simp [nil] at bound
      have last_n : n + 1 = c.vout.length := by
        by_contra inner
        have kept : (c.vout.set n .null).getLast? = c.vout.getLast? := by
          rw [getLast?_eq_getElem?, getLast?_eq_getElem?, length_set,
            getElem?_set_ne (by omega)]
        have isNull : (c.vout.getLast ne).isNull = true := by
          apply spent
          have : (c.vout.set n .null).getLast? = dropped.getLast? := by
            rw [whole]
            exact getLast?_append_of_ne_nil _ (by simp [shape])
          rw [kept, getLast?_eq_some_getLast ne] at this
          exact mem_of_getLast? this.symm
        rw [sound.clean.getLast ne] at isNull
        cases isNull
      rw [← shape]
      omega
  rw [growTo, ← size, ← allNull]
  exact whole.symm

theorem set_back (hit : c.output n = some out) : (c.vout.set n .null).set n out = c.vout := by
  obtain ⟨at_n, -⟩ := output_eq_some.mp hit
  obtain ⟨_, value⟩ := List.getElem?_eq_some_iff.mp at_n
  rw [List.set_set, ← value, List.set_getElem_self]

/-- `ApplyTxInUndo` takes back `Spend`. -/
theorem restoredCoins_spend (sound : c.Sound) (hit : c.output n = some out)
    (spends : c.spend n = some spent) :
    restoredCoins (undoFor spent out) n (spent.visible.getD CCoins.clear) = (true, c) := by
  have grown := sound.growTo_trimmed hit
  have back := set_back hit
  rw [spend_of_output hit] at spends
  cases spends
  have trimmed : (cleanup { c with vout := c.vout.set n .null }).vout =
    (c.vout.set n .null).rdropWhile CTxOut.isNull := rfl
  have clean := cleanup_clean { c with vout := c.vout.set n .null }
  have pruned := clean.vout_isEmpty
  by_cases last : (cleanup { c with vout := c.vout.set n .null }).vout.isEmpty = true
  · -- the entry is gone and comes back from the metadata of the undo data
    rw [visible_eq_none.mpr (pruned.symm.trans last)]
    have empty := List.isEmpty_iff.mp (trimmed ▸ last)
    rw [empty] at grown
    have height : c.nHeight ≠ 0 := Nat.pos_iff_ne_zero.mp sound.height.1
    unfold restoredCoins undoFor
    rw [if_pos last]
    simp only [cleanup, ne_eq, height, not_false_eq_true, ↓reduceIte, Option.getD_none,
      isPruned_clear, Bool.true_and, Prod.mk.injEq]
    refine ⟨by simp [isAvailable], ?_⟩
    rw [grown, back]
  · have unspent : (cleanup { c with vout := c.vout.set n .null }).isPruned = false := by
      rw [← pruned]
      simpa using last
    rw [visible_of_not_pruned unspent]
    unfold restoredCoins undoFor
    rw [if_neg last]
    simp only [ne_eq, not_true_eq_false, ↓reduceIte, Option.getD_some, unspent, Bool.not_false,
      Bool.true_and, Prod.mk.injEq, trimmed]
    refine ⟨?_, ?_⟩
    · rw [isAvailable_eq, Bool.not_eq_true', Option.isSome_eq_false_iff, Option.isNone_iff_eq_none]
      by_contra available
      obtain ⟨o, available⟩ := Option.ne_none_iff_exists'.mp available
      obtain ⟨at_n, notNull⟩ := output_eq_some.mp available
      have spentNull : (c.vout.set n .null)[n]? = some o := by
        obtain ⟨_, whole, -⟩ := rdropWhile_append CTxOut.isNull (c.vout.set n .null)
        rw [trimmed] at at_n
        rw [whole, List.getElem?_append_left (List.getElem?_eq_some_iff.mp at_n).1]
        exact at_n
      obtain ⟨_, value⟩ := List.getElem?_eq_some_iff.mp spentNull
      rw [List.getElem_set_self] at value
      rw [← value] at notNull
      cases notNull
    · rw [grown, back]
      rfl

/-- What is left of a sound entry is sound. -/
protected theorem spend (sound : c.Sound) (spends : c.spend n = some spent)
    (unspent : spent.isPruned = false) : spent.Sound := by
  unfold CCoins.spend at spends
  split at spends
  · cases spends
    have old : ∀ o ∈ (cleanup { c with vout := c.vout.set n .null }).vout, o ∈ c.vout ∨ o = .null :=
      fun o mem => mem_or_eq_of_mem_set (mem_rdropWhile mem)
    refine ⟨cleanup_clean _, unspent, ?_, ?_, sound.height, sound.version⟩
    · intro o mem isNull
      rcases old o mem with kept | spent
      · exact sound.nulls o kept isNull
      · exact spent
    · intro o mem notNull
      rcases old o mem with kept | rfl
      · exact sound.outputs o kept notNull
      · cases notNull
  · cases spends

/-- Undo data of a sound entry fits the record format. -/
theorem undoFor_storable (sound : c.Sound) (hit : c.output n = some out)
    (spends : c.spend n = some spent) : (undoFor spent out).Storable := by
  obtain ⟨at_n, notNull⟩ := output_eq_some.mp hit
  obtain ⟨value, spendable⟩ := sound.outputs out (mem_of_getElem? at_n) notNull
  have short : out.scriptPubKey.length ≤ MAX_SCRIPT_SIZE := by
    simp only [CScript.isUnspendable, Bool.or_eq_false_iff, decide_eq_false_iff_not] at spendable
    omega
  rw [spend_of_output hit] at spends
  cases spends
  unfold undoFor
  split
  · refine ⟨value, short, sound.height.2, sound.version, fun zero => ?_⟩
    exact absurd zero (Nat.pos_iff_ne_zero.mp sound.height.1)
  · exact ⟨value, short, Nat.two_pow_pos 31, ⟨Int.le_refl 0, Int.pow_pos (by decide)⟩, fun _ => rfl⟩

end Sound

/-! Entries of new transactions -/

/-- An output as `ClearUnspendable` leaves it. -/
theorem mem_clearUnspendable {o : CTxOut} (mem : o ∈ c.clearUnspendable.vout) :
    o = .null ∨ (o ∈ c.vout ∧ CScript.isUnspendable o.scriptPubKey = false) := by
  obtain ⟨out, original, rfl⟩ := mem_map.mp (mem_rdropWhile mem)
  by_cases unspendable : CScript.isUnspendable out.scriptPubKey = true
  · left
    rw [if_pos unspendable]
  · right
    rw [if_neg unspendable]
    exact ⟨original, by simpa using unspendable⟩

theorem clearUnspendable_clearUnspendable (c : CCoins) :
    c.clearUnspendable.clearUnspendable = c.clearUnspendable := by
  have kept : c.clearUnspendable.vout.map
      (fun out => if CScript.isUnspendable out.scriptPubKey then .null else out) =
        c.clearUnspendable.vout := by
    have each : ∀ o ∈ c.clearUnspendable.vout,
        (if CScript.isUnspendable o.scriptPubKey then CTxOut.null else o) = id o := by
      intro o mem
      rcases mem_clearUnspendable mem with rfl | ⟨-, spendable⟩
      · rfl
      · rw [spendable]
        rfl
    rw [map_congr_left each, map_id]
  have clean : c.clearUnspendable.Clean := cleanup_clean _
  conv_lhs => rw [clearUnspendable, kept]
  exact clean

theorem fromTx_sound {tx : CTransaction} {nHeight : Nat}
    (values : ∀ out ∈ tx.vout, moneyRange out.nValue = true)
    (height : 0 < nHeight ∧ nHeight < 2 ^ 31) (version : 0 ≤ tx.nVersion ∧ tx.nVersion < 2 ^ 31)
    (unspent : (fromTx tx nHeight).isPruned = false) :
    (fromTx tx nHeight).Sound := by
  refine ⟨cleanup_clean _, unspent, ?_, ?_, height, version⟩
  · intro o mem isNull
    rcases mem_clearUnspendable mem with rfl | ⟨original, -⟩
    · rfl
    · have range := moneyRange_iff.mp (values o original)
      simp only [CTxOut.isNull, beq_iff_eq] at isNull
      rw [isNull] at range
      omega
  · intro o mem notNull
    rcases mem_clearUnspendable mem with rfl | ⟨original, spendable⟩
    · cases notNull
    · exact ⟨values o original, spendable⟩

end CCoins

end Zcashd.Source
