import FpgaEthash.Ethash.Cache

/-!
# The dataset

The dataset of Ethash, as its specification has it: node `i` is made from the cache alone.

The node starts as the cache node that `i` falls on, with `i` in its first word, and is hashed.
It then takes in 256 nodes of the cache; which one comes next depends on `i`, on the round and on
one word of the node as it is by then.  At the end it is hashed once more.

Since every node can be had from the cache, hashimoto can be computed with the dataset or without
it.  `ethash` is the whole function, from the seed of an epoch to the hash of a header and a
nonce.
-/

namespace FpgaEthash
namespace Ethash

section

variable (H512 : List (BitVec 8) → Vector (BitVec 8) 64)
  (H256 : List (BitVec 8) → Vector (BitVec 8) 32)

section

variable (cache : ℕ → Node) (n : ℕ)

theorem wordOfRound_lt (j : ℕ) : j % 16 < 16 := Nat.mod_lt j (by decide)

/-- The cache node that round `j` takes in. -/
def parent (i : BitVec 32) (mix : Node) (j : ℕ) : ℕ :=
  (fnv (i ^^^ BitVec.ofNat 32 j) (mix.get ⟨j % 16, wordOfRound_lt j⟩)).toNat % n

/-- One round. -/
def takeParent (i : BitVec 32) (mix : Node) (j : ℕ) : Node :=
  Vector.zipWith fnv mix (cache (parent n i mix j))

/-- The node that item `i` starts with. -/
def itemSeed (i : BitVec 32) : Node :=
  hashNode H512 ((cache (i.toNat % n)).set 0
    ((cache (i.toNat % n)).get ⟨0, firstIndex_lt⟩ ^^^ i) firstIndex_lt)

/-- Item `i` of the dataset. -/
def datasetItem (i : BitVec 32) : Node :=
  hashNode H512 ((List.range 256).foldl (takeParent cache n i) (itemSeed H512 cache n i))

/-- The dataset. -/
def dataset (i : ℕ) : Node := datasetItem H512 cache n (BitVec.ofNat 32 i)

end

/-- **Ethash**: for a cache of `n` nodes and a dataset of `m`, from the seed of the epoch. -/
def ethash (n m : ℕ) (seed : Vector (BitVec 8) 32) (header : Vector (BitVec 8) 32)
    (nonce : BitVec 64) : Digest :=
  hashimoto H512 H256 (dataset H512 (cache H512 n seed) n) m header nonce

end

/-! ## What hashimoto reads -/

section

variable {H512 : List (BitVec 8) → Vector (BitVec 8) 64}
  {H256 : List (BitVec 8) → Vector (BitVec 8) 32} {lookup lookup' : ℕ → Node} {m : ℕ}

/-- Both nodes of a page are below the number of nodes. -/
theorem page_add_one_lt (hm : 2 ≤ m) (s : Node) (mix : Mix) (i : ℕ) : page m s mix i + 1 < m := by
  have hlt : (fnv (s.get ⟨0, firstIndex_lt⟩ ^^^ BitVec.ofNat 32 i)
      (mix.get ⟨i % 32, mixIndex_lt i⟩)).toNat % (m / 2) < m / 2 := Nat.mod_lt _ (by omega)
  rw [page]
  omega

/-- **Hashimoto reads the dataset below its size** and nowhere else. -/
theorem hashimoto_congr (hm : 2 ≤ m) (h : ∀ k < m, lookup k = lookup' k)
    (header : Vector (BitVec 8) 32) (nonce : BitVec 64) :
    hashimoto H512 H256 lookup m header nonce = hashimoto H512 H256 lookup' m header nonce := by
  have hmixIn : ∀ s, mixIn lookup m s = mixIn lookup' m s := by
    intro s
    funext mix i
    have hlt := page_add_one_lt hm s mix i
    rw [mixIn, mixIn, h _ (by omega), h _ hlt]
  rw [hashimoto, hashimoto, mixed, mixed, hmixIn]

end

end Ethash
end FpgaEthash
