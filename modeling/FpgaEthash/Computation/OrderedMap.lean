import Mathlib.Data.List.Basic
import Mathlib.Order.Lattice

/-!
# Maps that are kept in the order of their keys

A map is the list of its entries, in the strict order of their keys, so that every key is
there once and an entry also has a position.  `insert` gives a key its value, new or not;
`mapIdx` changes the values, by position, and no key.
-/

namespace FpgaEthash

/-- A map with its entries in the order of the keys. -/
structure OrderedMap (κ ν : Type*) [LinearOrder κ] where
  entries : List (κ × ν)
  sorted : (entries.map Prod.fst).Pairwise (· < ·)

namespace OrderedMap

variable {κ ν : Type*} [LinearOrder κ]

/-- The map without entries. -/
def empty : OrderedMap κ ν := ⟨[], .nil⟩

/-- The keys, in order. -/
def keys (m : OrderedMap κ ν) : List κ := m.entries.map Prod.fst

/-- The values, in the order of the keys. -/
def values (m : OrderedMap κ ν) : List ν := m.entries.map Prod.snd

/-- The value of a key. -/
def find? (m : OrderedMap κ ν) (k : κ) : Option ν := m.entries.lookup k

/-! ## Inserting -/

/-- Put an entry where its key belongs, in the place of an entry with that key. -/
def insertEntry (k : κ) (v : ν) : List (κ × ν) → List (κ × ν)
  | [] => [(k, v)]
  | e :: es =>
    if k < e.1 then (k, v) :: e :: es
    else if k = e.1 then (k, v) :: es
    else e :: insertEntry k v es

theorem fst_mem_insertEntry {k : κ} {v : ν} {es : List (κ × ν)} {j : κ}
    (h : j ∈ (insertEntry k v es).map Prod.fst) : j = k ∨ j ∈ es.map Prod.fst := by
  induction es with
  | nil => exact .inl (List.mem_singleton.mp h)
  | cons e es ih =>
    unfold insertEntry at h
    split_ifs at h with hlt heq
    · rwa [List.map_cons, List.mem_cons] at h
    · rcases List.mem_cons.mp h with hj | hj
      · exact .inl hj
      · exact .inr (List.mem_cons_of_mem _ hj)
    · rcases List.mem_cons.mp h with hj | hj
      · exact .inr (hj ▸ List.mem_cons_self)
      · exact (ih hj).imp_right (List.mem_cons_of_mem _)

theorem sorted_insertEntry (k : κ) (v : ν) {es : List (κ × ν)}
    (h : (es.map Prod.fst).Pairwise (· < ·)) :
    ((insertEntry k v es).map Prod.fst).Pairwise (· < ·) := by
  induction es with
  | nil => exact List.pairwise_singleton _ _
  | cons e es ih =>
    rw [List.map_cons, List.pairwise_cons] at h
    obtain ⟨hhead, htail⟩ := h
    unfold insertEntry
    split_ifs with hlt heq
    · simp only [List.map_cons, List.pairwise_cons]
      refine ⟨fun j hj => ?_, hhead, htail⟩
      rcases List.mem_cons.mp hj with rfl | hj
      · exact hlt
      · exact lt_trans hlt (hhead j hj)
    · rw [List.map_cons, List.pairwise_cons]
      exact ⟨fun j hj => heq ▸ hhead j hj, htail⟩
    · rw [List.map_cons, List.pairwise_cons]
      refine ⟨fun j hj => ?_, ih htail⟩
      rcases fst_mem_insertEntry hj with rfl | hj
      · exact lt_of_le_of_ne (not_lt.mp hlt) (Ne.symm heq)
      · exact hhead j hj

/-- `m[k] = v`. -/
def insert (m : OrderedMap κ ν) (k : κ) (v : ν) : OrderedMap κ ν :=
  ⟨insertEntry k v m.entries, sorted_insertEntry k v m.sorted⟩

/-- A new key is one more entry. -/
theorem perm_insertEntry {k : κ} (v : ν) {es : List (κ × ν)} (h : k ∉ es.map Prod.fst) :
    (insertEntry k v es).Perm ((k, v) :: es) := by
  induction es with
  | nil => exact .refl _
  | cons e es ih =>
    rw [List.map_cons, List.mem_cons, not_or] at h
    unfold insertEntry
    split_ifs with hlt heq
    · exact .refl _
    · exact absurd heq h.1
    · exact ((ih h.2).cons e).trans (.swap _ _ _)

theorem perm_insert {m : OrderedMap κ ν} {k : κ} (v : ν) (h : k ∉ m.keys) :
    (m.insert k v).entries.Perm ((k, v) :: m.entries) :=
  perm_insertEntry v h

theorem find?_eq_none {m : OrderedMap κ ν} {k : κ} (h : k ∉ m.keys) : m.find? k = none := by
  unfold find?
  rw [List.lookup_eq_none_iff]
  intro e he
  rw [bne_iff_ne]
  exact fun heq => h (heq ▸ List.mem_map_of_mem he)

/-- Two maps with the same entries are the same. -/
theorem entries_eq_of_perm {m : OrderedMap κ ν} {es : List (κ × ν)}
    (hsorted : (es.map Prod.fst).Pairwise (· < ·)) (hperm : m.entries.Perm es) :
    m.entries = es := by
  have hlt : ∀ {l : List (κ × ν)}, (l.map Prod.fst).Pairwise (· < ·) →
      l.Pairwise fun e e' => e.1 < e'.1 := fun h => List.pairwise_map.mp h
  exact List.Perm.eq_of_pairwise (fun a b _ _ hab hba => absurd hba (lt_asymm hab))
    (hlt m.sorted) (hlt hsorted) hperm

/-! ## Changing values -/

/-- Change every value, by its position. -/
def mapIdx (m : OrderedMap κ ν) (f : ℕ → ν → ν) : OrderedMap κ ν where
  entries := m.entries.mapIdx fun i e => (e.1, f i e.2)
  sorted := by
    have hkeys : (m.entries.mapIdx fun i e => (e.1, f i e.2)).map Prod.fst =
        m.entries.map Prod.fst := by
      refine List.ext_getElem (by simp) fun i hi hi' => ?_
      simp
    rw [hkeys]
    exact m.sorted

@[simp] theorem values_mapIdx (m : OrderedMap κ ν) (f : ℕ → ν → ν) :
    (m.mapIdx f).values = m.values.mapIdx f := by
  refine List.ext_getElem (by simp [values, mapIdx]) fun i hi hi' => ?_
  simp [values, mapIdx]

theorem ext {m m' : OrderedMap κ ν} (h : m.entries = m'.entries) : m = m' := by
  cases m
  cases m'
  congr

/-- Two changes that agree on the values that are there. -/
theorem mapIdx_congr {m : OrderedMap κ ν} {f g : ℕ → ν → ν}
    (h : ∀ i v, m.values[i]? = some v → f i v = g i v) : m.mapIdx f = m.mapIdx g := by
  refine ext (List.ext_getElem (by simp [mapIdx]) fun i hi hi' => ?_)
  have hlt : i < m.entries.length := by simpa [mapIdx] using hi
  have hvalue := h i m.entries[i].2 (by simp [values, hlt])
  simp [mapIdx, hvalue]

/-- Two changes, one after the other. -/
theorem mapIdx_mapIdx (m : OrderedMap κ ν) (f g : ℕ → ν → ν) :
    (m.mapIdx f).mapIdx g = m.mapIdx fun i v => g i (f i v) := by
  refine ext (List.ext_getElem (by simp [mapIdx]) fun i hi hi' => ?_)
  simp [mapIdx]

end OrderedMap
end FpgaEthash
