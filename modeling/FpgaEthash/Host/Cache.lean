import FpgaEthash.Computation.Loops
import FpgaEthash.Ethash.Cache
import FpgaEthash.Host.HashimotoSpec

/-!
# The cache, on the host

`compute_cache_nodes` of `fpga_ethash.cpp`, over any function `H512` in the place of
`kec_HashBuffer` with 512 bits.

The function works in place, on the first nodes of an array.  `image n mem f` is that array when
its first `n` nodes are `f 0`, `f 1`, … and the others are still those of `mem`.  Each loop of the
function is then a sequence of images: the chain lengthens the part that `f` gives by one node at
a time (`chainNode_image`), and a round changes `f` as the specification does (`mixNode_image`).
The loops count with `!=`, up to at most `2 ^ 31` nodes; this is also what keeps
`num_nodes - 1 + i` from wrapping.
-/

namespace FpgaEthash
namespace Host
namespace Cache

open Checked Loops

/-! ## The function -/

section

variable (H512 : List (BitVec 8) → Vector (BitVec 8) 64)

/-- `nodes[i]` becomes the hash of `nodes[i-1]`. -/
def chainNode (nodes : Array HashNode) (i : BitVec 32) : Except Fault (Array HashNode) := do
  let last ← load nodes (i - 1).toNat
  store nodes i.toNat (hashInPlace H512 last)

/-- One turn of a round. -/
def mixNode (numNodes : BitVec 32) (nodes : Array HashNode) (i : BitVec 32) :
    Except Fault (Array HashNode) := do
  let node ← load nodes i.toNat
  let idx ← umod (firstWord node) numNodes
  let before ← umod (numNodes - 1 + i) numNodes
  let data ← load nodes before.toNat
  let other ← load nodes idx.toNat
  store nodes i.toNat (hashInPlace H512 (Vector.zipWith (· ^^^ ·) data other))

/-- One round. -/
def mixRound (numNodes : BitVec 32) (nodes : Array HashNode) : Except Fault (Array HashNode) :=
  (countTo 0 numNodes).foldlM (mixNode H512 numNodes) nodes

/-- `compute_cache_nodes`: the value returned, and what is at `nodes` afterwards. -/
def computeCacheNodes (nodes : Array HashNode) (cacheSize : BitVec 64)
    (seed : Vector (BitVec 8) 32) : Except Fault (Bool × Array HashNode) :=
  if cacheSize % 64 ≠ 0 then return (false, nodes)
  else do
    let numNodes : BitVec 32 := (cacheSize / 64).setWidth 32
    let nodes ← store nodes 0 (nodeOfBytes (H512 seed.toList))
    let nodes ← (countTo 1 numNodes).foldlM (chainNode H512) nodes
    let nodes ← (countTo (0 : BitVec 32) 3).foldlM (fun nodes _ => mixRound H512 numNodes nodes)
      nodes
    return (true, nodes)

end

/-! ## Images -/

/-- The array `mem`, with `f` in its first `n` places. -/
def image (n : ℕ) (mem : Array HashNode) (f : ℕ → HashNode) : Array HashNode :=
  Array.ofFn fun i : Fin mem.size => if i.val < n then f i else mem[i]

variable {n : ℕ} {mem : Array HashNode} {f : ℕ → HashNode}

@[simp] theorem size_image : (image n mem f).size = mem.size := Array.size_ofFn

theorem getElem?_image (hn : n ≤ mem.size) (i : ℕ) :
    (image n mem f)[i]? = if i < n then some (f i) else mem[i]? := by
  by_cases hi : i < n
  · simp [image, hi, show i < mem.size by omega]
  · by_cases hsize : i < mem.size
    · simp [image, hi, hsize]
    · simp [image, hi, hsize]

/-- A read below `n` finds `f`. -/
theorem load_image (hn : n ≤ mem.size) {i : ℕ} (hi : i < n) :
    load (image n mem f) i = .ok (f i) :=
  load_of_getElem? (by rw [getElem?_image hn, if_pos hi])

/-- A write below `n` changes `f` there. -/
theorem store_image (hn : n ≤ mem.size) {i : ℕ} (hi : i < n) (x : HashNode) :
    store (image n mem f) i x = .ok (image n mem (Function.update f i x)) := by
  have hsize : i < (image n mem f).size := by
    rw [size_image]
    omega
  rw [store_of_lt hsize, Except.ok.injEq]
  refine Array.ext_getElem? fun j => ?_
  rw [Array.getElem?_set, getElem?_image hn, getElem?_image hn]
  by_cases hij : i = j
  · rw [if_pos hij, ← hij, if_pos hi, Function.update_self]
  · rw [if_neg hij, Function.update_of_ne (Ne.symm hij)]

/-- A write at `n` of what `f` has there lengthens the image. -/
theorem store_image_next (hn : n < mem.size) :
    store (image n mem f) n (f n) = .ok (image (n + 1) mem f) := by
  have hsize : n < (image n mem f).size := by rwa [size_image]
  rw [store_of_lt hsize, Except.ok.injEq]
  refine Array.ext_getElem? fun j => ?_
  rw [Array.getElem?_set, getElem?_image hn.le, getElem?_image hn]
  by_cases hnj : n = j
  · rw [if_pos hnj, ← hnj, if_pos (Nat.lt_succ_self n)]
  · have hiff : j < n + 1 ↔ j < n := by omega
    rw [if_neg hnj]
    simp only [hiff]

theorem image_zero : image 0 mem f = mem := by
  refine Array.ext_getElem? fun j => ?_
  rw [getElem?_image (Nat.zero_le _), if_neg (Nat.not_lt_zero j)]

/-! ## The loops -/

section

variable (H512 : List (BitVec 8) → Vector (BitVec 8) 64)

theorem hashInPlace_eq (node : HashNode) : hashInPlace H512 node = Ethash.hashNode H512 node := by
  rw [hashInPlace, wordsBytes_toList]
  rfl

theorem toNat_ofNat_of_lt {k : ℕ} (hk : k < 2 ^ 32) : (BitVec.ofNat 32 k).toNat = k :=
  Nat.mod_eq_of_lt hk

/-- **One node more of the chain.** -/
theorem chainNode_image {seed : Vector (BitVec 8) 32} {k : ℕ} (hk : 1 ≤ k) (hsize : k < mem.size)
    (hlt : k < 2 ^ 32) :
    chainNode H512 (image k mem (Ethash.chain H512 seed)) (BitVec.ofNat 32 k) =
      .ok (image (k + 1) mem (Ethash.chain H512 seed)) := by
  have hlast : (BitVec.ofNat 32 k - 1).toNat = k - 1 := by
    rw [BitVec.toNat_sub_of_le (by rw [BitVec.le_def, toNat_ofNat_of_lt hlt]; exact hk),
      toNat_ofNat_of_lt hlt]
    rfl
  have hnext : hashInPlace H512 (Ethash.chain H512 seed (k - 1)) = Ethash.chain H512 seed k := by
    obtain ⟨j, rfl⟩ : ∃ j, k = j + 1 := ⟨k - 1, by omega⟩
    exact hashInPlace_eq H512 _
  rw [chainNode, hlast, load_image hsize.le (by omega), ok_bind, hnext, toNat_ofNat_of_lt hlt,
    store_image_next hsize]

section Round

variable (hn : n ≤ mem.size) (hle : n ≤ 2 ^ 31)

include hle

/-- The predecessor, in machine words. -/
theorem toNat_before {k : ℕ} (hk : k < n) :
    ((BitVec.ofNat 32 n - 1 + BitVec.ofNat 32 k) % BitVec.ofNat 32 n).toNat =
      Ethash.predecessor n k := by
  have hsub : (BitVec.ofNat 32 n - 1).toNat = n - 1 := by
    rw [BitVec.toNat_sub_of_le (by
      rw [BitVec.le_def, toNat_ofNat_of_lt (by omega)]
      exact Nat.succ_le_of_lt (by omega)), toNat_ofNat_of_lt (by omega)]
    rfl
  have hwrap : (n - 1 + k) % 2 ^ 32 = n - 1 + k := Nat.mod_eq_of_lt (by omega)
  rw [BitVec.toNat_umod, BitVec.toNat_add, hsub, toNat_ofNat_of_lt (by omega),
    toNat_ofNat_of_lt (by omega), hwrap, Ethash.predecessor]
  by_cases h0 : k = 0
  · rw [if_pos h0, h0, Nat.add_zero, Nat.mod_eq_of_lt (by omega)]
  · rw [if_neg h0, show n - 1 + k = k - 1 + n by omega, Nat.add_mod_right,
      Nat.mod_eq_of_lt (by omega)]

include hn

/-- **One node of a round.** -/
theorem mixNode_image {k : ℕ} (hk : k < n) :
    mixNode H512 (BitVec.ofNat 32 n) (image n mem f) (BitVec.ofNat 32 k) =
      .ok (image n mem (Ethash.renew H512 n f k)) := by
  have hne : BitVec.ofNat 32 n ≠ 0 := fun h0 => by
    have hzero := congrArg BitVec.toNat h0
    rw [toNat_ofNat_of_lt (by omega)] at hzero
    exact absurd hzero (by show n ≠ 0; omega)
  have hchosen : (firstWord (f k) % BitVec.ofNat 32 n).toNat = Ethash.chosen n f k := by
    rw [BitVec.toNat_umod, toNat_ofNat_of_lt (by omega)]
    rfl
  have hchosen_lt : Ethash.chosen n f k < n := Nat.mod_lt _ (by omega)
  have hpred_lt : Ethash.predecessor n k < n := by
    rw [Ethash.predecessor]
    split <;> omega
  rw [mixNode, toNat_ofNat_of_lt (by omega), load_image hn hk, ok_bind, umod_of_ne_zero _ hne,
    ok_bind, umod_of_ne_zero _ hne, ok_bind, toNat_before hle hk, load_image hn hpred_lt, ok_bind,
    hchosen, load_image hn hchosen_lt, ok_bind, store_image hn hk, hashInPlace_eq]
  rfl

/-- **A round.** -/
theorem mixRound_image :
    mixRound H512 (BitVec.ofNat 32 n) (image n mem f) =
      .ok (image n mem (Ethash.cacheRound H512 n f)) := by
  refine foldlM_countTo (fun k => image n mem ((List.range k).foldl (Ethash.renew H512 n) f))
    (Nat.zero_le n) (by omega) fun k _ hk => ?_
  rw [mixNode_image H512 hn hle hk, List.range_succ, List.foldl_append]
  rfl

end Round

/-! ## The cache -/

section Nodes

variable {nodes : Array HashNode} (hroom : n ≤ nodes.size) (hpos : 0 < n) (hle : n ≤ 2 ^ 31)
  (seed : Vector (BitVec 8) 32)

include hroom hpos

theorem store_first : store nodes 0 (nodeOfBytes (H512 seed.toList)) =
    .ok (image 1 nodes (Ethash.chain H512 seed)) := by
  have hnext := store_image_next (f := Ethash.chain H512 seed) (show 0 < nodes.size by omega)
  rwa [image_zero] at hnext

include hle

/-- **The chain.** -/
theorem foldlM_chainNode :
    (countTo 1 (BitVec.ofNat 32 n)).foldlM (chainNode H512)
        (image 1 nodes (Ethash.chain H512 seed)) =
      .ok (image n nodes (Ethash.chain H512 seed)) :=
  foldlM_countTo (fun k => image k nodes (Ethash.chain H512 seed)) (by omega) (by omega)
    fun _ hk hkn => chainNode_image H512 hk (by omega) (by omega)

omit hpos in
/-- **The rounds.** -/
theorem foldlM_mixRound :
    (countTo (0 : BitVec 32) 3).foldlM (fun nodes _ => mixRound H512 (BitVec.ofNat 32 n) nodes)
        (image n nodes f) =
      .ok (image n nodes ((Ethash.cacheRound H512 n)^[3] f)) := by
  refine foldlM_countTo (fun k => image n nodes ((Ethash.cacheRound H512 n)^[k] f)) (a := 0)
    (n := 3) (by omega) (by omega) fun k _ _ => ?_
  rw [mixRound_image H512 hroom hle, Function.iterate_succ_apply']

end Nodes

theorem computeCacheNodes_image {cacheSize : BitVec 64} (hpos : 0 < cacheSize.toNat)
    (hmod : cacheSize.toNat % 64 = 0) (hle : cacheSize.toNat ≤ 2 ^ 37) {nodes : Array HashNode}
    (hroom : cacheSize.toNat / 64 ≤ nodes.size) (seed : Vector (BitVec 8) 32) :
    computeCacheNodes H512 nodes cacheSize seed =
      .ok (true, image (cacheSize.toNat / 64) nodes
        (Ethash.cache H512 (cacheSize.toNat / 64) seed)) := by
  have hguard : ¬ cacheSize % 64 ≠ 0 := not_not_intro (BitVec.toNat_inj.mp hmod)
  have hnum : (cacheSize / 64).setWidth 32 = BitVec.ofNat 32 (cacheSize.toNat / 64) := by
    refine BitVec.toNat_inj.mp ?_
    rw [BitVec.toNat_setWidth, BitVec.toNat_udiv, BitVec.toNat_ofNat]
    rfl
  rw [computeCacheNodes, if_neg hguard]
  dsimp only
  rw [hnum, store_first H512 hroom (by omega), ok_bind,
    foldlM_chainNode H512 hroom (by omega) (by omega), ok_bind,
    foldlM_mixRound H512 hroom (by omega)]
  rfl

/-- **The Ethash cache.**  For any whole number of nodes up to `2 ^ 31`, and an array with room for
them, the function returns true with the cache in the first nodes and the others as they were.  An
array of just that many nodes will do: no other node is read or written. -/
theorem computeCacheNodes_eq_cache (cacheSize : BitVec 64) (hpos : 0 < cacheSize.toNat)
    (hmod : cacheSize.toNat % 64 = 0) (hle : cacheSize.toNat ≤ 2 ^ 37) {nodes : Array HashNode}
    (hroom : cacheSize.toNat / 64 ≤ nodes.size) (seed : Vector (BitVec 8) 32) :
    ∃ result, computeCacheNodes H512 nodes cacheSize seed = .ok (true, result) ∧
      (∀ i < cacheSize.toNat / 64,
        result[i]? = some (Ethash.cache H512 (cacheSize.toNat / 64) seed i)) ∧
      ∀ i, cacheSize.toNat / 64 ≤ i → result[i]? = nodes[i]? := by
  refine ⟨_, computeCacheNodes_image H512 hpos hmod hle hroom seed, fun i hi => ?_, fun i hi => ?_⟩
  · rw [getElem?_image hroom, if_pos hi]
  · rw [getElem?_image hroom, if_neg (by omega)]

end

/-- The first byte and one, over and over. -/
def nextByte512 (m : List (BitVec 8)) : Vector (BitVec 8) 64 := Vector.replicate 64 (m.getD 0 0 + 1)

/-- Two nodes of three. -/
theorem computeCacheNodes_eq_cache_two :
    ∃ result, computeCacheNodes nextByte512 (Array.replicate 3 (Vector.replicate 16 7)) 128
        (Vector.replicate 32 1) = .ok (true, result) ∧
      (∀ i < 2, result[i]? = some (Ethash.cache nextByte512 2 (Vector.replicate 32 1) i)) ∧
      ∀ i, 2 ≤ i → result[i]? = (Array.replicate 3 (Vector.replicate 16 (7 : BitVec 32)))[i]? :=
  computeCacheNodes_eq_cache nextByte512 128 (by decide) (by decide) (by decide) (by simp)
    (Vector.replicate 32 1)

end Cache
end Host
end FpgaEthash
