import Mathlib

/-!
Loops over the entries of a finite map that write into another one. When the body
of the loop only reads and writes the key of the entry at hand, the order of the
entries does not matter and the result can be read key by key.
-/
namespace Zcashd.Lib

open List

universe u v w

variable {K : Type u} [DecidableEq K] {V : Type v} {W : Type w} (m : AList (fun _ : K => V))

/-- What an insertion leaves to be found. -/
@[grind =]
theorem lookup_insert_eq (key other : K) (value : V) :
    (m.insert key value).lookup other = if other = key then some value else m.lookup other := by
  split
  · rename_i same
    rw [same, AList.lookup_insert]
  · rename_i ne
    exact AList.lookup_insert_ne ne

@[grind =]
theorem lookup_erase_eq (key other : K) :
    (m.erase key).lookup other = if other = key then none else m.lookup other := by
  split
  · rename_i same
    rw [same, AList.lookup_erase]
  · rename_i ne
    exact AList.lookup_erase_ne ne

/-- The loop body `step` touches only the key it is given, where it stores `out`. -/
structure KeyLocal (step : AList (fun _ : K => W) → K → V → AList (fun _ : K => W))
    (out : K → V → Option W → Option W) : Prop where
  here : ∀ m k v, (step m k v).lookup k = out k v (m.lookup k)
  elsewhere : ∀ m k v k', k' ≠ k → (step m k v).lookup k' = m.lookup k'

/-- The loop body may stop; where `ok` holds it goes on and touches only its key. -/
structure KeyLocalM (step : AList (fun _ : K => W) → K → V → Option (AList (fun _ : K => W)))
    (ok : V → Option W → Prop) (out : K → V → Option W → Option W) : Prop where
  defined : ∀ m k v, ok v (m.lookup k) → ∃ m', step m k v = some m' ∧
    m'.lookup k = out k v (m.lookup k) ∧ ∀ k', k' ≠ k → m'.lookup k' = m.lookup k'

/-- What the loop leaves under a key: `out` of the source entry, if there is one. -/
def mergedLookup (out : K → V → Option W → Option W) (source : AList (fun _ : K => V))
    (target : AList (fun _ : K => W)) (k : K) : Option W :=
  match source.lookup k with
  | some v => out k v (target.lookup k)
  | none => target.lookup k

variable {out : K → V → Option W → Option W} {source : AList (fun _ : K => V)}
  {target : AList (fun _ : K => W)}

theorem mergedLookup_some {k : K} {v : V} (hit : source.lookup k = some v) :
    mergedLookup out source target k = out k v (target.lookup k) := by
  simp [mergedLookup, hit]

theorem mergedLookup_none {k : K} (absent : source.lookup k = none) :
    mergedLookup out source target k = target.lookup k := by
  simp [mergedLookup, absent]

private theorem lookup_mk_cons_self (k : K) (v : V) (rest : List (Σ _ : K, V)) (nodup) :
    (AList.mk (⟨k, v⟩ :: rest) nodup).lookup k = some v := by
  simp [AList.lookup]

private theorem lookup_mk_cons_ne {k k' : K} (ne : k ≠ k') (v : V)
    (rest : List (Σ _ : K, V)) (nodup) :
    (AList.mk (⟨k', v⟩ :: rest) nodup).lookup k =
      (AList.mk rest (nodupKeys_cons.mp nodup).2).lookup k := by
  simp [AList.lookup, dlookup_cons_ne, ne]

private theorem lookup_mk_rest_self (k : K) (v : V) (rest : List (Σ _ : K, V))
    (nodup : (⟨k, v⟩ :: rest : List (Σ _ : K, V)).NodupKeys) :
    (AList.mk rest (nodupKeys_cons.mp nodup).2).lookup k = none := by
  have absent := (nodupKeys_cons.mp nodup).1
  simpa [AList.lookup, dlookup_eq_none] using absent

/-- The loop that may stop runs to its end when the body may go on at every entry. -/
theorem KeyLocalM.lookup_foldlM
    {step : AList (fun _ : K => W) → K → V → Option (AList (fun _ : K => W))}
    {ok : V → Option W → Prop} (body : KeyLocalM step ok out) (source : AList (fun _ : K => V))
    (target : AList (fun _ : K => W))
    (admissible : ∀ k v, source.lookup k = some v → ok v (target.lookup k)) :
    ∃ result, source.entries.foldlM (fun m e => step m e.1 e.2) target = some result ∧
      ∀ k, result.lookup k = mergedLookup out source target k := by
  obtain ⟨entries, nodup⟩ := source
  induction entries generalizing target with
  | nil => exact ⟨target, rfl, fun k => rfl⟩
  | cons entry rest ih =>
    obtain ⟨key, v⟩ := entry
    obtain ⟨next, stepped, here, elsewhere⟩ :=
      body.defined target key v (admissible key v (lookup_mk_cons_self key v rest nodup))
    have keyAbsent := lookup_mk_rest_self key v rest nodup
    obtain ⟨result, folded, merged⟩ := ih next (nodupKeys_cons.mp nodup).2 (by
      intro k v' hit
      have ne : k ≠ key := by
        rintro rfl
        rw [keyAbsent] at hit
        cases hit
      rw [elsewhere k ne]
      exact admissible k v' (by rw [lookup_mk_cons_ne ne]; exact hit))
    refine ⟨result, by simp [foldlM_cons, stepped, folded], fun k => ?_⟩
    rw [merged]
    by_cases same : k = key
    · subst same
      rw [mergedLookup_none keyAbsent, here, mergedLookup_some (lookup_mk_cons_self k v rest nodup)]
    · simp [mergedLookup, lookup_mk_cons_ne same, elsewhere k same]

/-- The loop that cannot stop. -/
theorem KeyLocal.lookup_foldl {step : AList (fun _ : K => W) → K → V → AList (fun _ : K => W)}
    (body : KeyLocal step out) (source : AList (fun _ : K => V)) (target : AList (fun _ : K => W))
    (k : K) :
    (source.entries.foldl (fun m e => step m e.1 e.2) target).lookup k =
      mergedLookup out source target k := by
  have bodyM : KeyLocalM (fun m k v => some (step m k v)) (fun _ _ => True) out :=
    ⟨fun m k v _ => ⟨step m k v, rfl, body.here m k v, body.elsewhere m k v⟩⟩
  obtain ⟨_, folded, merged⟩ := bodyM.lookup_foldlM source target (fun _ _ _ => trivial)
  have total : source.entries.foldlM (fun m e => some (step m e.1 e.2)) target =
      some (source.entries.foldl (fun m e => step m e.1 e.2) target) := by
    simpa using foldlM_pure (m := Option) (f := fun m (e : Σ _ : K, V) => step m e.1 e.2)
      (b := target) (l := source.entries)
  rw [total] at folded
  rw [Option.some.inj folded]
  exact merged k

/-- A loop whose body writes a whole region of the target at a time: `region` tells which
source key a target key belongs to. -/
theorem lookup_foldl_region {K' : Type*} [DecidableEq K'] (region : K' → K)
    (step : AList (fun _ : K' => W) → K → V → AList (fun _ : K' => W))
    (out : K' → V → Option W → Option W)
    (inside : ∀ m v k', (step m (region k') v).lookup k' = out k' v (m.lookup k'))
    (outside : ∀ m k v k', region k' ≠ k → (step m k v).lookup k' = m.lookup k')
    (source : AList (fun _ : K => V)) (target : AList (fun _ : K' => W)) (k' : K') :
    (source.entries.foldl (fun m e => step m e.1 e.2) target).lookup k' =
      match source.lookup (region k') with
      | some v => out k' v (target.lookup k')
      | none => target.lookup k' := by
  obtain ⟨entries, nodup⟩ := source
  induction entries generalizing target with
  | nil => rfl
  | cons entry rest ih =>
    obtain ⟨key, v⟩ := entry
    have rest' := ih (step target key v) (nodupKeys_cons.mp nodup).2
    refine Eq.trans rest' ?_
    by_cases same : region k' = key
    · subst same
      rw [lookup_mk_rest_self _ v rest nodup, lookup_mk_cons_self]
      exact inside target v k'
    · rw [lookup_mk_cons_ne same, outside target key v k' same]

end Zcashd.Lib
