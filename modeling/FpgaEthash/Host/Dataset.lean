import FpgaEthash.Ethash.Dataset
import FpgaEthash.Host.Cache
import FpgaEthash.Host.SeedHash
import FpgaEthash.Host.SizeTables
import FpgaEthash.Kernel.Search

/-!
# From the seed to the hash

The functions of the host, one after the other: `compute_cache_nodes` makes the cache from a seed,
`compute_full_dag` the dataset from the cache, and `krnl_ethash_func`, or `search` of the kernel,
the hash of a header from the dataset.

`compute_dag_item` is the dataset item of the specification, on every cache that its nodes are the
cache of the specification in (`computeDagItem_of_holds`).  So the array that `compute_full_dag`
fills is the dataset (`getElem?_computeFullDag`), and what is hashed on it is Ethash of the seed
(`pipeline_eq_ethash`).  The size of the dataset is a constant in the kernel.  It is the size of
epoch 0 (`getDSize_eq_dagSize_iff`), and of no other.
-/

namespace FpgaEthash
namespace Host

open LittleEndian Checked Kernel

/-! ## Items -/

/-- The first `n` nodes of the cache of `light`, which are those it counts, are `cache`. -/
structure Light.Holds (light : Light) (cache : ℕ → HashNode) (n : ℕ) : Prop where
  count : light.numParentNodes.toNat = n
  pos : 0 < n
  node : ∀ i < n, light.cache[i]? = some (cache i)

section

variable {light : Light} {cache : ℕ → HashNode} {n : ℕ}

theorem Light.Holds.ne_zero (h : light.Holds cache n) : light.numParentNodes ≠ 0 := by
  intro h0
  have hcount := h.count
  rw [h0] at hcount
  exact absurd hcount (Nat.ne_of_lt h.pos)

theorem Light.Holds.readable (h : light.Holds cache n) : light.Readable where
  ne_zero := h.ne_zero
  le_size := by
    have hlast := h.node (n - 1) (Nat.sub_lt h.pos Nat.one_pos)
    obtain ⟨hlt, -⟩ := Array.getElem?_eq_some_iff.mp hlast
    rw [h.count]
    omega

theorem cacheNode_of_holds (h : light.Holds cache n) (x : BitVec 32) :
    light.cacheNode x = .ok (cache (x.toNat % n)) := by
  have hmod : (x % light.numParentNodes).toNat = x.toNat % n := by
    rw [BitVec.toNat_umod, h.count]
  rw [Light.cacheNode, umod_of_ne_zero x h.ne_zero, ok_bind, hmod]
  exact load_of_getElem? (h.node _ (Nat.mod_lt _ h.pos))

/-- One round over the parents. -/
theorem mixParent_of_holds (h : light.Holds cache n) (nodeIndex : BitVec 32) (ret : HashNode)
    (i : Fin 256) :
    mixParent light nodeIndex ret i = .ok (Ethash.takeParent cache n nodeIndex ret i) := by
  rw [mixParent, cacheNode_of_holds h, ok_bind]
  rfl

variable (H512 : List (BitVec 8) → Vector (BitVec 8) 64)

/-- **`compute_dag_item` is the item of the specification.** -/
theorem computeDagItem_of_holds (h : light.Holds cache n) (nodeIndex : BitVec 32) :
    computeDagItem H512 nodeIndex light = .ok (Ethash.datasetItem H512 cache n nodeIndex) := by
  have hloop : ∀ ret : HashNode,
      (List.finRange 256).foldlM (mixParent light nodeIndex) ret =
        .ok ((List.range 256).foldl (Ethash.takeParent cache n nodeIndex) ret) := by
    intro ret
    rw [foldlM_eq_ok (mixParent_of_holds h nodeIndex), ← List.map_coe_finRange_eq_range,
      List.foldl_map]
  rw [computeDagItem_eq, cacheNode_of_holds h, ok_bind, itemFrom, hloop, ok_bind,
    Cache.hashInPlace_eq, Cache.hashInPlace_eq]
  rfl

/-- **`compute_full_dag` fills in the dataset.** -/
theorem getElem?_computeFullDag (h : light.Holds cache n) {fullSize : BitVec 64}
    (hlt : fullSize.toNat < 2 ^ 38) (hmod : fullSize.toNat % 128 = 0) {mem : Array HashNode}
    (hmem : mem.size = fullSize.toNat / 64) :
    ∃ dag, computeFullDag H512 mem fullSize light none = .ok (true, dag) ∧
      dag.size = fullSize.toNat / 64 ∧ Filled H512 light (fullSize.toNat / 64) dag ∧
      ∀ i < fullSize.toNat / 64, dag[i]? = some (Ethash.dataset H512 cache n i) := by
  obtain ⟨dag, hdag, hsize, hfilled⟩ := computeFullDag_spec H512 h.readable hlt hmod hmem
  refine ⟨dag, hdag, hsize.trans hmem, hfilled, fun i hi => ?_⟩
  have hin : i < dag.size := by omega
  have hitem := hfilled i hin hi
  rw [computeDagItem_of_holds H512 h] at hitem
  rw [Array.getElem?_eq_getElem hin, ← Except.ok.inj hitem]
  rfl

end

/-! ## The cache -/

/-- A light client with the image holds the cache. -/
theorem holds_image {cacheSize : BitVec 64} (hpos : 0 < cacheSize.toNat)
    (hmod : cacheSize.toNat % 64 = 0) (hle : cacheSize.toNat ≤ 2 ^ 37) {nodes : Array HashNode}
    (hnodes : nodes.size = cacheSize.toNat / 64) (cache : ℕ → HashNode) :
    Light.Holds ⟨Cache.image (cacheSize.toNat / 64) nodes cache, cacheSize⟩ cache
      (cacheSize.toNat / 64) where
  count := by
    rw [Light.numParentNodes, BitVec.toNat_setWidth, BitVec.toNat_udiv]
    exact Nat.mod_eq_of_lt (show cacheSize.toNat / 64 < 2 ^ 32 by omega)
  pos := by omega
  node i hi := by
    rw [Cache.getElem?_image (Nat.le_of_eq hnodes.symm), if_pos hi]

theorem whole_image {cacheSize : BitVec 64} (hpos : 0 < cacheSize.toNat)
    (hmod : cacheSize.toNat % 64 = 0) (hle : cacheSize.toNat ≤ 2 ^ 37) {nodes : Array HashNode}
    (hnodes : nodes.size = cacheSize.toNat / 64) (cache : ℕ → HashNode) :
    Light.Whole ⟨Cache.image (cacheSize.toNat / 64) nodes cache, cacheSize⟩ := by
  have hsize : (Cache.image (cacheSize.toNat / 64) nodes cache).size = cacheSize.toNat / 64 :=
    Cache.size_image.trans hnodes
  refine ⟨?_, ?_, ?_⟩ <;> dsimp only <;> omega

/-! ## The hash -/

section

variable (H512 : List (BitVec 8) → Vector (BitVec 8) 64)
  (H256 : List (BitVec 8) → Vector (BitVec 8) 32)

/-- Hashimoto on an array with the dataset is hashimoto on the dataset. -/
theorem arrayHashimoto_eq {dag : Array HashNode} {dataset : ℕ → HashNode} (hsize : 2 ≤ dag.size)
    (hdag : ∀ i < dag.size, dag[i]? = some (dataset i)) (header : Vector (BitVec 8) 32)
    (nonce : BitVec 64) :
    arrayHashimoto H512 H256 dag header nonce =
      Ethash.hashimoto H512 H256 dataset dag.size header nonce := by
  refine Ethash.hashimoto_congr hsize (fun k hk => ?_) header nonce
  rw [nodeAt, hdag k hk, Option.getD_some]

/-- The return value of a digest. -/
def ReturnValue.withDigest (ret : ReturnValue) (d : Ethash.Digest) : ReturnValue :=
  { ret with mixHash := d.mixHash, result := d.result }

/-- **From the seed to the hash.**  For all hash functions, every seed, every size of the cache of
whole nodes and every size of the dataset of whole pages: the cache and the dataset are built,
every node of the dataset is the one of the specification, and the hash of a header, with the
dataset or without it, is Ethash of the seed for the nonce that the buffer held.  A dataset of the
kernel's size gives Ethash of the kernel's nonce in the kernel as well. -/
theorem pipeline_eq_ethash {cacheSize fullSize : BitVec 64} (hpos : 0 < cacheSize.toNat)
    (hmod : cacheSize.toNat % 64 = 0) (hle : cacheSize.toNat ≤ 2 ^ 37)
    (hfullPos : 0 < fullSize.toNat) (hfullMod : fullSize.toNat % 128 = 0)
    (hfullLt : fullSize.toNat < 2 ^ 38) {nodes mem : Array HashNode}
    (hnodes : nodes.size = cacheSize.toNat / 64) (hmem : mem.size = fullSize.toNat / 64)
    (seed : Vector (BitVec 8) 32) :
    ∃ cache dag,
      Cache.computeCacheNodes H512 nodes cacheSize seed = .ok (true, cache) ∧
      computeFullDag H512 mem fullSize ⟨cache, cacheSize⟩ none = .ok (true, dag) ∧
      (∀ i < fullSize.toNat / 64, dag[i]? = some (Ethash.dataset H512
        (Ethash.cache H512 (cacheSize.toNat / 64) seed) (cacheSize.toNat / 64) i)) ∧
      ∀ (sMix : Vector HashNode 3) (header : Vector (BitVec 8) 32),
        (∀ (ret : ReturnValue) (nonce : BitVec 64) (fullNodes : Option (Array HashNode)),
          fullNodes = some dag ∨ fullNodes = none →
          krnlEthashFunc H512 H256 sMix ret fullNodes ⟨cache, cacheSize⟩ fullSize header nonce =
            .ok (ret.withDigest (Ethash.ethash H512 H256 (cacheSize.toNat / 64)
              (fullSize.toNat / 64) seed header (leftNonce (sMix.get 0))))) ∧
        (fullSize.toNat = dagSize → ∀ nonce : BitVec 32,
          search H512 H256 sMix dag header nonce =
            .ok ((Ethash.ethash H512 H256 (cacheSize.toNat / 64) (fullSize.toNat / 64) seed header
                (nonce.setWidth 64)).mixHash,
              (Ethash.ethash H512 H256 (cacheSize.toNat / 64) (fullSize.toNat / 64) seed header
                (nonce.setWidth 64)).result)) := by
  have hholds := holds_image hpos hmod hle hnodes
    (Ethash.cache H512 (cacheSize.toNat / 64) seed)
  obtain ⟨dag, hdag, hsize, hfilled, hnode⟩ := getElem?_computeFullDag H512 hholds hfullLt
    hfullMod hmem
  refine ⟨_, dag, Cache.computeCacheNodes_image H512 hpos hmod hle (Nat.le_of_eq hnodes.symm) seed,
    hdag, hnode, fun sMix header => ?_⟩
  have hethash : ∀ nonce, arrayHashimoto H512 H256 dag header nonce =
      Ethash.ethash H512 H256 (cacheSize.toNat / 64) (fullSize.toNat / 64) seed header nonce := by
    intro nonce
    rw [arrayHashimoto_eq H512 H256 (by omega) (by rwa [hsize]), hsize]
    rfl
  have hfull : ∀ ret nonce, krnlEthashFunc H512 H256 sMix ret (some dag)
      ⟨Cache.image (cacheSize.toNat / 64) nodes
        (Ethash.cache H512 (cacheSize.toNat / 64) seed), cacheSize⟩ fullSize header nonce =
      .ok (ret.withDigest (Ethash.ethash H512 H256 (cacheSize.toNat / 64)
        (fullSize.toNat / 64) seed header (leftNonce (sMix.get 0)))) := by
    intro ret nonce
    rw [krnlEthashFunc_eq_hashimoto hfullPos hfullLt hfullMod hsize, hethash]
    rfl
  refine ⟨?_, fun heq nonce => ?_⟩
  · rintro ret nonce fullNodes (rfl | rfl)
    · exact hfull ret nonce
    · -- Without the array the accesses come to the same mix.
      obtain ⟨r, hwith, hwithout⟩ := krnlEthashFunc_filled H512 H256
        (whole_image hpos hmod hle hnodes _) hfullPos hfullLt hfullMod hsize hfilled sMix ret header
        nonce
      exact hwithout.trans (hwith.symm.trans (hfull ret nonce))
  · rw [search_eq_arrayHashimoto H512 H256 (by rw [hsize, heq]), hethash]

end

/-- Epoch 0: the sizes that the tables have for it, and the seed of zeros. -/
theorem pipeline_of_epoch_zero :
    ∃ cache dag,
      Cache.computeCacheNodes Cache.nextByte512 (Array.replicate 262139 (Vector.replicate 16 0))
        16776896 (seedOf (fun _ => Vector.replicate 32 9) 0) = .ok (true, cache) ∧
      computeFullDag Cache.nextByte512 (Array.replicate 16777186 (Vector.replicate 16 0))
        1073739904 ⟨cache, 16776896⟩ none = .ok (true, dag) ∧
      search Cache.nextByte512 (fun _ => Vector.replicate 32 9)
          (Vector.replicate 3 (Vector.replicate 16 0)) dag (Vector.replicate 32 5) 7 =
        .ok ((Ethash.ethash Cache.nextByte512 (fun _ => Vector.replicate 32 9) 262139 16777186
            (seedOf (fun _ => Vector.replicate 32 9) 0) (Vector.replicate 32 5) 7).mixHash,
          Vector.replicate 32 9) := by
  obtain ⟨cache, dag, hcache, hdag, -, hhash⟩ := pipeline_eq_ethash Cache.nextByte512
    (fun _ => Vector.replicate 32 9)
    (show 0 < (16776896 : BitVec 64).toNat by decide) (by decide) (by decide)
    (show 0 < (1073739904 : BitVec 64).toNat by decide) (by decide) (by decide)
    (show (Array.replicate 262139 (Vector.replicate 16 (0 : BitVec 32))).size = _ by
      rw [Array.size_replicate]; decide)
    (show (Array.replicate 16777186 (Vector.replicate 16 (0 : BitVec 32))).size = _ by
      rw [Array.size_replicate]; decide)
    (seedOf (fun _ => Vector.replicate 32 9) 0)
  exact ⟨cache, dag, hcache, hdag, (hhash _ _).2 (by decide) 7⟩

namespace Includes

theorem head?_dagSizes : dagSizes.toList.head? = some dagSize := by decide +kernel

theorem ne_of_mem_tail_dagSizes : ∀ x ∈ dagSizes.toList.tail, x ≠ dagSize := by decide +kernel

/-- An epoch has the size of epoch 0 only if it is epoch 0. -/
theorem getElem?_dagSizes_eq_iff {i : ℕ} : dagSizes.toList[i]? = some dagSize ↔ i = 0 := by
  constructor
  · intro hi
    cases i with
    | zero => rfl
    | succ i =>
      have hmem : dagSize ∈ dagSizes.toList.tail := by
        refine List.mem_of_getElem? (i := i) ?_
        rwa [List.getElem?_tail]
      exact absurd rfl (ne_of_mem_tail_dagSizes dagSize hmem)
  · rintro rfl
    rw [← List.head?_eq_getElem?, head?_dagSizes]

/-- **The constant of the kernel** is the size of the DAG in epoch 0, and in no other. -/
theorem getDSize_eq_dagSize_iff {blockNumber : BitVec 64} :
    getDSize blockNumber = .ok (BitVec.ofNat 64 dagSize) ↔ blockNumber.toNat < 30000 := by
  have hepoch : (blockNumber / 30000).toNat = 0 ↔ blockNumber.toNat < 30000 := by
    rw [BitVec.toNat_udiv, show (30000 : BitVec 64).toNat = 30000 from rfl]
    omega
  rw [← hepoch, ← getElem?_dagSizes_eq_iff, getDSize]
  constructor
  · intro h
    by_cases hin : (blockNumber / 30000).toNat < dagSizes.size
    · rw [load_of_lt hin] at h
      have hword := congrArg BitVec.toNat (Except.ok.inj h)
      rw [BitVec.toNat_ofNat, BitVec.toNat_ofNat, Nat.mod_eq_of_lt
        (lt_of_mem_dagSizes _ (Array.getElem_mem_toList hin))] at hword
      rw [Array.getElem?_toList, Array.getElem?_eq_getElem hin, hword]
      rfl
    · rw [load, dif_neg hin] at h
      cases h
  · intro h
    rw [Array.getElem?_toList] at h
    rw [load_of_getElem? h]
    rfl

end Includes

end Host
end FpgaEthash
