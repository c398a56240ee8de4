import Zcashd.Lib.AListFold

/-!
A store of documents and the redundant data kept beside it: inverted indexes, which tell for a
term the document that has it, and totals over the documents. Both are kept up to date by
changes of one document at a time.
-/
namespace Zcashd.Lib

open List AList

universe u v w

variable {K : Type u} {D : Type v} {T : Type w} [DecidableEq K]

/-- The answers of `find` are exactly the pairs of a term and the key of a document that has it. -/
def IsIndex (terms : D → List T) (store : AList (fun _ : K => D)) (find : T → Option K) : Prop :=
  ∀ t k, find t = some k ↔ ∃ d, store.lookup k = some d ∧ t ∈ terms d

namespace IsIndex

variable {terms : D → List T} {store : AList (fun _ : K => D)} {find find' : T → Option K} {key : K}
  {document : D}

theorem empty (terms : D → List T) :
    IsIndex terms (∅ : AList (fun _ : K => D)) (fun _ => none) := by
  intro t k
  simp

variable (index : IsIndex terms store find)
include index

/-- A term that no document has is not found. -/
theorem find_eq_none {t : T} (absent : ∀ k d, store.lookup k = some d → t ∉ terms d) :
    find t = none := by
  rw [Option.eq_none_iff_forall_ne_some]
  intro k hit
  obtain ⟨d, held, mem⟩ := (index t k).mp hit
  exact absent k d held mem

theorem mem_store {t : T} (hit : find t = some key) : key ∈ store := by
  obtain ⟨d, held, -⟩ := (index t key).mp hit
  exact lookup_isSome.mp (by rw [held]; rfl)

/-- A new document none of whose terms is in use. -/
theorem insert (new : store.lookup key = none)
    (unused : ∀ t ∈ terms document, find t = none) (here : ∀ t ∈ terms document, find' t = some key)
    (elsewhere : ∀ t ∉ terms document, find' t = find t) :
    IsIndex terms (store.insert key document) find' := by
  intro t k
  have old := index t k
  by_cases mem : t ∈ terms document
  · rw [here t mem]
    grind
  · rw [elsewhere t mem]
    grind

/-- A document is replaced by one with the same terms. -/
theorem replace {document' : D} (held : store.lookup key = some document)
    (same : terms document' = terms document) :
    IsIndex terms (store.insert key document') find := by
  intro t k
  rw [index t k, lookup_insert_eq]
  grind

/-- A document is dropped, and all its terms. -/
theorem erase (held : store.lookup key = some document)
    (here : ∀ t ∈ terms document, find' t = none)
    (elsewhere : ∀ t ∉ terms document, find' t = find t) :
    IsIndex terms (store.erase key) find' := by
  intro t k
  have old := index t k
  -- a term of this document belongs to no other one
  have only := index t key
  by_cases mem : t ∈ terms document
  · rw [here t mem]
    grind
  · rw [elsewhere t mem]
    grind

end IsIndex

section

variable {V : Type w} {A : Type v}

/-- A loop that writes one key for each element leaves the other keys. -/
theorem lookup_foldl_insert_of_notMem {key : A → K} {value : A → V} {l : List A} {k : K}
    (other : k ∉ l.map key) (m : AList (fun _ : K => V)) :
    (l.foldl (fun m a => m.insert (key a) (value a)) m).lookup k = m.lookup k := by
  induction l generalizing m with
  | nil => rfl
  | cons _ _ ih =>
    rw [map_cons, mem_cons, not_or] at other
    rw [foldl_cons, ih other.2, lookup_insert_ne other.1]

/-- A key that it writes has the value of an element. -/
theorem lookup_foldl_insert_of_mem {key : A → K} {value : A → V} {l : List A} {k : K}
    (mem : k ∈ l.map key) (m : AList (fun _ : K => V)) :
    ∃ a ∈ l, key a = k ∧ (l.foldl (fun m a => m.insert (key a) (value a)) m).lookup k =
      some (value a) := by
  induction l generalizing m with
  | nil => cases mem
  | cons head tail ih =>
    by_cases later : k ∈ tail.map key
    · obtain ⟨a, inside, same, out⟩ := ih later (m.insert (key head) (value head))
      exact ⟨a, mem_cons_of_mem _ inside, same, out⟩
    · have first : k = key head := by
        rw [map_cons, mem_cons] at mem
        exact mem.resolve_right later
      refine ⟨head, mem_cons_self, first.symm, ?_⟩
      rw [foldl_cons, lookup_foldl_insert_of_notMem later, first, lookup_insert]

theorem lookup_foldl_erase (key : A → K) (l : List A) (m : AList (fun _ : K => V)) (k : K) :
    (l.foldl (fun m a => m.erase (key a)) m).lookup k = if k ∈ l.map key then none
      else m.lookup k := by
  induction l generalizing m with
  | nil => simp
  | cons _ _ _ =>
    grind

end

/-- The sum of a weight over the documents. -/
def weightSum (weight : D → Nat) (store : AList (fun _ : K => D)) : Nat :=
  (store.entries.map (fun entry => weight entry.2)).sum

section

variable {weight : D → Nat} {store : AList (fun _ : K => D)} {key : K} {document : D}

theorem weightSum_insert (new : store.lookup key = none) :
    weightSum weight (store.insert key document) = weight document + weightSum weight store := by
  have absent : key ∉ store := lookup_eq_none.mp new
  rw [weightSum, entries_insert_of_notMem absent, map_cons, sum_cons, weightSum]

theorem weightSum_erase (held : store.lookup key = some document) :
    weightSum weight store = weight document + weightSum weight (store.erase key) := by
  have mem : key ∈ store.entries.keys := lookup_isSome.mp (by rw [held]; rfl)
  obtain ⟨other, front, back, _, split, erased⟩ := exists_of_kerase mem
  have same : other = document := by
    have entry : (⟨key, other⟩ : Σ _ : K, D) ∈ store.entries := by
      rw [split]
      simp
    have hit := mem_dlookup store.nodupKeys entry
    exact Option.some.inj (hit.symm.trans held)
  have entries : (store.erase key).entries = front ++ back := erased
  rw [weightSum, weightSum, entries, split, same]
  simp only [map_append, map_cons, sum_append, sum_cons]
  omega

/-- The document of a key is replaced. -/
theorem weightSum_replace {document' : D} (held : store.lookup key = some document) :
    weightSum weight (store.insert key document') + weight document =
      weightSum weight store + weight document' := by
  have absent : (store.erase key).lookup key = none := lookup_erase _ _
  have same : (store.erase key).insert key document' = store.insert key document' := by
    apply ext
    rw [entries_insert_of_notMem (lookup_eq_none.mp absent), entries_insert]
    rfl
  rw [weightSum_erase held, ← same, weightSum_insert absent]
  omega

end

/-- `pos` tells the position of every key of the list, in which no key is twice. -/
def Locates (pos : K → Option Nat) (l : List K) : Prop := ∀ k i, pos k = some i ↔ l[i]? = some k

namespace Locates

variable {pos pos' : K → Option Nat} {l : List K} {a b k : K} {i j : Nat}

omit [DecidableEq K] in
theorem isSome_iff (locates : Locates pos l) : (pos k).isSome ↔ k ∈ l := by
  rw [Option.isSome_iff_exists, mem_iff_getElem?]
  exact exists_congr fun i => locates k i

omit [DecidableEq K] in
theorem nodup (locates : Locates pos l) : l.Nodup := by
  rw [nodup_iff_getElem?_ne_getElem?]
  intro i j _ inside same
  have there : l[j]? = some l[j] := getElem?_eq_getElem inside
  have second := (locates _ j).mpr there
  have first := (locates _ i).mpr (same.trans there)
  rw [first] at second
  cases second
  omega

theorem append (locates : Locates pos l) (new : k ∉ l) (here : pos' k = some l.length)
    (elsewhere : ∀ o, o ≠ k → pos' o = pos o) : Locates pos' (l ++ [k]) := by
  intro other j
  have old := locates other j
  rw [getElem?_append]
  by_cases same : other = k
  · rw [same, here]
    grind
  · rw [elsewhere other same, old]
    grind

theorem pop (locates : Locates pos (l ++ [k])) (here : pos' k = none)
    (elsewhere : ∀ o, o ≠ k → pos' o = pos o) :
    Locates pos' l := by
  have atEnd : pos k = some l.length := (locates _ _).mpr (by simp)
  intro other j
  have old := locates other j
  rw [getElem?_append] at old
  by_cases same : other = k
  · rw [same, here]
    grind
  · rw [elsewhere other same, old]
    grind

theorem swap (locates : Locates pos l) (first : l[i]? = some a) (second : l[j]? = some b)
    (herea : pos' a = some j) (hereb : pos' b = some i)
    (elsewhere : ∀ o, o ≠ a → o ≠ b → pos' o = pos o) :
    Locates pos' ((l.set i b).set j a) := by
  have foundi := (locates a i).mpr first
  have foundj := (locates b j).mpr second
  intro other n
  have old := locates other n
  rw [getElem?_set, getElem?_set, length_set]
  by_cases isa : other = a
  · rw [isa, herea]
    grind
  · by_cases isb : other = b
    · rw [isb, hereb]
      grind
    · rw [elsewhere other isa isb, old]
      grind

end Locates

/-- The map tells the position of every key of the list, in which no key is twice. -/
def Positions (find : AList (fun _ : K => Nat)) (l : List K) : Prop :=
  ∀ k i, find.lookup k = some i ↔ l[i]? = some k

namespace Positions

variable {find : AList (fun _ : K => Nat)} {l : List K} {k last : K} {i : Nat}

theorem locates (positions : Positions find l) : Locates find.lookup l := positions

theorem mem_iff (positions : Positions find l) : k ∈ find ↔ k ∈ l :=
  lookup_isSome.symm.trans positions.locates.isSome_iff

theorem nil : Positions (∅ : AList (fun _ : K => Nat)) [] := by
  intro k i
  simp

theorem append (positions : Positions find l) (new : k ∉ l) :
    Positions (find.insert k l.length) (l ++ [k]) :=
  positions.locates.append new (lookup_insert _) fun _ other => lookup_insert_ne other

theorem pop (positions : Positions find (l ++ [last])) : Positions (find.erase last) l :=
  positions.locates.pop (lookup_erase _ _) fun _ other => lookup_erase_ne other

/-- A key leaves the list and the last one takes its place. -/
theorem swapPop (positions : Positions find (l ++ [last])) (here : l[i]? = some k) :
    Positions ((find.insert last i).erase k) (l.set i last) := by
  have inside := (List.getElem?_eq_some_iff.mp here).1
  have atEnd : find.lookup last = some l.length := (positions _ _).mpr (by simp)
  have hit : find.lookup k = some i :=
    (positions k i).mpr (by rw [getElem?_append_left inside, here])
  have ne : last ≠ k := by
    rintro rfl
    rw [atEnd] at hit
    cases hit
    omega
  -- they change places, and then the key is at the end
  have swapped : Locates ((find.insert last i).insert k l.length).lookup
      (((l ++ [last]).set i last).set l.length k) := by
    apply positions.locates.swap (by rw [getElem?_append_left inside, here]) (by simp)
    · exact lookup_insert _
    · rw [lookup_insert_ne ne, lookup_insert]
    · intro o notKey notLast
      rw [lookup_insert_ne notKey, lookup_insert_ne notLast]
  rw [set_append_left _ _ inside, set_append_right _ _ (by simp)] at swapped
  simp only [length_set, Nat.sub_self, set_cons_zero] at swapped
  apply swapped.pop (lookup_erase _ _)
  intro o other
  rw [lookup_erase_ne other, lookup_insert_ne other]

end Positions

end Zcashd.Lib
